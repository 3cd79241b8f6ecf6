import Scheduling.Proofs.Arena.Calls

/-!
# Sound models

What every model keeps, however it came about: operands stand first and uses are counted, numbers
are those of the list of numbered nodes, each node is one that reading accepts, and a node without
a number is used once at most (`Model.Sound`). Calls keep a model sound (`Sound.calls`).
-/

namespace Scheduling

namespace Model

variable {m m' : Model} {id : NodeId} {n : Node} {l : Literal}

/-- A model whose nodes can be written where they are used. -/
structure Sound (m : Model) : Prop where
  counted : Counted m []
  numbered : Numbered m
  accepts : ∀ (i : Nat) (n : Node), m.nodes[i]? = some n → m.Accepts n
  /-- A node that is used twice or has a name has a number. -/
  shared : ∀ (i : Nat) (n : Node), m.nodes[i]? = some n → 2 ≤ n.uses ∨ n.name.isSome → n.ref.isSome
  /-- The objective has a number. -/
  objective : ∀ o : Objective, m.objective = some o → (m.ref? o.expr).isSome

theorem sound_empty (tag : Nat) (name : Option String) : Sound (empty tag name) := by
  refine ⟨⟨?_, ?_, ?_⟩, fun r id => ?_, ?_, ?_, ?_⟩ <;> simp [empty, ref?, node?]

/-- A constant uses nothing, so it is only appended. -/
theorem extend_literal (m : Model) (l : Literal) : m.extend l.node = m.push l.node := by
  cases l <;> rfl

theorem keeps_apply (v : Move) : Keeps m (v.apply m) := by
  cases v with
  | constant l => exact .refl m
  | add n => exact (grows_push.trans grows_extend).keeps
  | post id => exact grows_addTopLevel.keeps
  | optimize sense expr =>
    have hm : Keeps m (m.materialize expr) := grows_materialize.keeps
    exact ⟨hm.tag, hm.node⟩
  | nameNode id name => exact (keeps_renamed name).trans grows_materialize.keeps
  | nameModel name => exact ⟨rfl, fun hn => ⟨_, hn, rfl⟩⟩

theorem Grows.ref?_isSome (h : Grows m m') (hid : (m.ref? id).isSome) : (m'.ref? id).isSome := by
  obtain ⟨r, hr⟩ := Option.isSome_iff_exists.1 hid
  obtain ⟨n, hn, hr⟩ := ref?_eq_some.1 hr
  obtain ⟨n', hn', -, href, -⟩ := h.node? hn
  exact Option.isSome_iff_exists.2 ⟨r, ref?_eq_some.2 ⟨n', hn', href r hr⟩⟩

namespace Sound

theorem occurrence_has (h : Sound m) {i : Nat} (hn : m.nodes[i]? = some n) (hid : id ∈ n.operands) :
    m.Has id := h.counted.operand_has hn hid

/-- The nodes with two uses and those with a number, as marks. -/
theorem marked (h : Sound m) : Marked m fun i => (m.nodes[i]?).any fun n => n.ref.isSome := by
  intro i n hn
  simp only [hn, Option.any_some]
  exact ⟨.inr, fun hor => hor.elim (fun hu => h.shared i n hn (.inl hu)) fun hr => hr⟩

/-- A step that keeps the nodes apart from numbers, uses and names, and numbers what is used
twice, keeps a model sound. -/
theorem of_keeps (h : Sound m) (hk : Keeps m m') (hs : m'.nodes.size = m.nodes.size)
    (hc : Counted m' []) (hr : Numbered m')
    (hshared : ∀ (i : Nat) (n : Node), m'.nodes[i]? = some n →
      2 ≤ n.uses ∨ n.name.isSome → n.ref.isSome)
    (ho : ∀ o : Objective, m'.objective = some o → (m'.ref? o.expr).isSome) : Sound m' := by
  refine ⟨hc, hr, fun i n' hn' => ?_, hshared, ho⟩
  obtain ⟨n, hn, hcore⟩ := hk.node_back hs hn'
  exact (hk.accepts (h.accepts i n hn)).of_core hcore

/-- A node that joins a sound model and needs no number leaves it sound. -/
theorem extend (h : Sound m) (hn : m.Accepts n) (hops : ∀ id ∈ n.operands, m.Has id)
    (hr : n.ref = none) (hu : n.uses = 0) (hname : n.name.isSome → n.operator.isVariable) :
    Sound (m.extend n) := by
  have hg : Grows m (m.extend n) := grows_push.trans grows_extend
  obtain ⟨-, -, hobj, hsize, -⟩ := extend_frame (m := m) (n := n)
  have hback {i : Nat} {n' : Node} (hn' : (m.extend n).nodes[i]? = some n') :
      ∃ n₁, (m.push n).nodes[i]? = some n₁ ∧ n'.bare = n₁.bare :=
    grows_extend.node_back (by rw [hsize, size_push]) hn'
  have hmarked := h.marked.extend (n := n) (by simp) hops hr hu
  refine ⟨h.counted.extend hops hu, h.numbered.extend hops hr, fun i n' hn' => ?_,
    fun i n' hn' hor => ?_, fun o ho => ?_⟩
  · obtain ⟨n₁, hn₁, hb⟩ := hback hn'
    rw [getElem?_push] at hn₁
    refine (hg.keeps.accepts ?_).of_core (Node.core_eq_of_bare hb)
    split at hn₁
    · exact Option.some.inj hn₁ ▸ hn
    · exact h.accepts i n₁ hn₁
  · refine (hmarked i n' hn').2 (hor.imp_right fun hnamed => ?_)
    obtain ⟨n₁, hn₁, hb⟩ := hback hn'
    rw [show n'.name = n₁.name from (congrArg (fun n : Node => n.name) hb :)] at hnamed
    rw [getElem?_push] at hn₁
    split at hn₁
    · rename_i hi
      obtain rfl := Option.some.inj hn₁
      exact .inr ⟨hi, hname hnamed⟩
    · exact .inl (by rw [hn₁]; exact h.shared i n₁ hn₁ (.inr hnamed))
  · rw [hobj] at ho
    exact hg.ref?_isSome (h.objective o ho)

/-- A constant that is built leaves a sound model sound. -/
theorem push_literal (h : Sound m) (l : Literal) : Sound (m.push l.node) := by
  have hacc : m.Accepts l.node := by
    cases l <;> exact ⟨Nat.le_refl 1, Nat.le_refl 1, rfl⟩
  rw [← extend_literal]
  exact h.extend hacc (by cases l <;> exact nofun) rfl rfl (by cases l <;> exact nofun)

theorem prepared (h : Sound m) (hp : Prepared m m') : Sound m' := by
  induction hp with
  | refl => exact h
  | push l _ _ _ ih => exact ih.push_literal l

/-- A sound model stays sound when a node joins the constraints. -/
theorem addTopLevel (h : Sound m) (hid : m.Has id) : Sound (m.addTopLevel id) := by
  obtain ⟨-, -, -, ho, hs⟩ := use_frame { m with topLevel := m.topLevel.push id } id
  have hg : Grows m (m.addTopLevel id) := grows_addTopLevel
  have hmarked := h.marked.addTopLevel hid
  refine h.of_keeps hg.keeps hs (h.counted.addTopLevel hid) (h.numbered.addTopLevel hid)
    (fun i n' hn' hor => (hmarked i n' hn').2 (hor.imp_right fun hname => ?_)) fun o hobj => ?_
  · obtain ⟨n, hn, hb⟩ := hg.node_back hs hn'
    rw [show n'.name = n.name from (congrArg (fun n : Node => n.name) hb :)] at hname
    simpa [hn] using h.shared i n hn (.inr hname)
  · exact hg.ref?_isSome (h.objective o (ho ▸ hobj))

/-- Numbering a node leaves a sound model sound. -/
theorem materialize (h : Sound m) (hid : m.Has id) : Sound (m.materialize id) := by
  have hg : Grows m (m.materialize id) := grows_materialize
  have hmarked := h.marked.materialize id
  refine h.of_keeps hg.keeps size_materialize (h.counted.materialize id) (h.numbered.materialize hid)
    (fun i n' hn' hor => (hmarked i n' hn').2 (hor.imp_right fun hname => .inl ?_)) fun o hobj => ?_
  · obtain ⟨n, hn, hb⟩ := hg.node_back size_materialize hn'
    rw [show n'.name = n.name from (congrArg (fun n : Node => n.name) hb :)] at hname
    simpa [hn] using h.shared i n hn (.inr hname)
  · exact hg.ref?_isSome (h.objective o (materialize_objective ▸ hobj))

/-- Naming a node, which numbers it, leaves a sound model sound. -/
theorem nameNode (h : Sound m) (hid : m.Has id) (name : String) :
    Sound ((m.renamed id name).materialize id) := by
  have hc : Counted (m.renamed id name) [] := h.counted.modify (fun _ => rfl) fun _ => rfl
  have hr : Numbered (m.renamed id name) := h.numbered.modify fun _ => rfl
  have hmarked : Marked (m.renamed id name) _ := h.marked.modify (fun _ => rfl) fun _ => rfl
  have hsize : (m.renamed id name).nodes.size = m.nodes.size := size_modify _
  have hk : Keeps m (m.renamed id name) := keeps_renamed name
  have hg : Grows (m.renamed id name) ((m.renamed id name).materialize id) := grows_materialize
  refine h.of_keeps (hk.trans hg.keeps) (size_materialize.trans hsize) (hc.materialize id)
    (hr.materialize (hk.has hid)) (fun i n' hn' hor => ?_) fun o ho => ?_
  · refine (hmarked.materialize id i n' hn').2 (hor.imp_right fun hname => ?_)
    obtain ⟨n₁, hn₁, hb⟩ := hg.node_back size_materialize hn'
    rw [show n'.name = n₁.name from (congrArg (fun n : Node => n.name) hb :)] at hname
    rw [getElem?_renamed, Option.map_eq_some_iff] at hn₁
    obtain ⟨n, hn, rfl⟩ := hn₁
    by_cases hi : id.index = i
    · exact .inr hi.symm
    · rw [if_neg hi] at hname
      exact .inl (by simpa [hn] using h.shared i n hn (.inr hname))
  · refine hg.ref?_isSome ?_
    rw [materialize_objective] at ho
    have href : (m.renamed id name).ref? o.expr = m.ref? o.expr := ref?_modify fun _ => rfl
    rw [href]
    exact h.objective o ho

theorem optimize (h : Sound m) (hid : m.Has id) (sense : Sense) :
    Sound { m.materialize id with objective := some ⟨sense, id⟩ } := by
  have hm := h.materialize hid
  have hk : Keeps (m.materialize id) { m.materialize id with objective := some ⟨sense, id⟩ } :=
    ⟨rfl, fun hn => ⟨_, hn, rfl⟩⟩
  refine ⟨⟨hm.counted.operand, hm.counted.topLevel, hm.counted.uses⟩, hm.numbered,
    fun i n hn => hk.accepts (hm.accepts i n hn), hm.shared, fun o ho => ?_⟩
  obtain rfl := Option.some.inj ho
  show ((m.materialize id).ref? id).isSome
  rw [ref?_materialize hid, if_pos rfl]
  cases m.ref? id <;> rfl

theorem move (h : Sound m) {v : Move} (hv : v.Allowed m) : Sound (v.apply m) := by
  cases v with
  | constant l => exact h
  | add n =>
    obtain ⟨hn, hr, hu, hname, -⟩ := hv
    exact h.extend hn.accepted hn.has hr hu hname
  | post id => exact h.addTopLevel hv.has
  | optimize sense expr => exact h.optimize hv.has sense
  | nameNode id name => exact h.nameNode hv name
  | nameModel name =>
    have hk : Keeps m { m with name := some name } := ⟨rfl, fun hn => ⟨_, hn, rfl⟩⟩
    exact ⟨⟨h.counted.operand, h.counted.topLevel, h.counted.uses⟩, h.numbered,
      fun i n hn => hk.accepts (h.accepts i n hn), h.shared, h.objective⟩

theorem call (h : Sound m) (c : Call) : Sound (m.call c).2 := by
  obtain ⟨m', hp, ⟨v, he, hv, -⟩ | ⟨e, he⟩⟩ := m.call_cases c
  · rw [Model.call, he]
    exact (h.prepared hp).move hv
  · rw [Model.call, he]
    exact h.prepared hp

/-- Every model that calls extend stays sound. -/
theorem calls (h : Sound m) (cs : List Call) : Sound (m.calls cs) := by
  induction cs generalizing m with
  | nil => exact h
  | cons c cs ih => exact ih (h.call c)

end Sound

end Model

end Scheduling
