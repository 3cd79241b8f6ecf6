import Scheduling.Proofs.Record.Whole

/-!
# Reading what was written

The record of a sound model can be read: every node that is built is a copy of one of the model's
nodes (`Copies`), numbers are found or built while the operands of later nodes are still open
(`gives_node`), and in the end the model that is read covers the reachable part of the first one
(`exists_covers`).
-/

namespace Scheduling

/-! ### Copies of nodes -/

/-- What a model accepts, another one accepts about copies. -/
theorem Model.Accepts.of_copy {m m' : Model} {f : NodeId → NodeId} {n' n : Node} (h : m.Accepts n)
    (hc : n'.Copy f n) (hops : ∀ id ∈ n'.operands, ∃ p' p, m'.node? id = some p' ∧
      m.node? (f id) = some p ∧ p'.Copy f p) : m'.Accepts n' := by
  have hlen : n.args.length = n'.args.length := by rw [hc.args, Arg.renameAll_eq_map, List.length_map]
  refine ⟨?_, ?_, ?_⟩
  · rw [← hlen, ← hc.operator]
    exact h.least
  · rw [← hlen, ← hc.operator]
    exact h.greatest
  · have hv := h.values
    rw [hc.attributes, hc.operator] at hv
    unfold Restoring.checkValues at hv ⊢
    simp only [NodeRecord.attributes, NodeRecord.operator] at hv ⊢
    cases hvalues : n'.values with
    | none => rfl
    | some values =>
      simp only [hvalues] at hv ⊢
      cases ho : n'.operator <;> simp only [ho] at hv ⊢
      case stepFunction => exact hv
      case noOverlap =>
        rw [hc.args] at hv
        cases ha : n'.args with
        | nil => simpa [ha, Arg.renameAll] using hv
        | cons a rest =>
          rw [ha] at hv
          cases a with
          | node seq =>
            obtain ⟨p', p, hp', hp, hcopy⟩ := hops seq (by
              rw [Node.operands, ha]
              exact List.mem_append_left _ (List.mem_singleton_self seq))
            simp only [Arg.renameAll, Arg.rename, List.head?_cons, node_eq_ok.2 hp] at hv
            simp only [List.head?_cons, node_eq_ok.2 hp', ← hcopy.transitionSize, hv]
          | list items =>
            simpa [Arg.renameAll, Arg.rename, Arg.renameAll_eq_map] using hv
          | _ => exact hv

namespace Restoring

variable {α β : Type} {m : Model} {f g : NodeId → NodeId} {s s' s'' : Restoring} {k d : Nat}
  {id x : NodeId} {n : Node} {loose : Option NodeId}

/-! ### Copies of models -/

/-- Every node that is built is a copy of the node that `f` gives, and a number has the copy of its
node. What no number has is a copy of a node without a number, except perhaps the node `loose`. -/
structure Copies (m : Model) (f : NodeId → NodeId) (s : Restoring) (loose : Option NodeId) :
    Prop where
  node : ∀ (id : NodeId) (n' : Node), s.model.node? id = some n' →
    ∃ n, m.node? (f id) = some n ∧ n'.Copy f n
  closed : ∀ (id : NodeId) (n' : Node), s.model.node? id = some n' → ∀ x ∈ n'.operands, s.model.Has x
  slot : ∀ (k : Nat) (id : NodeId), s.slots[k]? = some (.built id) →
    s.model.Has id ∧ m.refs[k]? = some (f id)
  size : s.slots.size = m.refs.size
  rest : ∀ id, s.model.Has id → ¬ s.Slotted id → m.ref? (f id) = none ∨ loose = some id

/-- The numbers that are being built are those of nodes from `d` on. -/
def Open (m : Model) (d : Nat) (s : Restoring) : Prop :=
  ∀ (k : Nat) (x : NodeId), s.slots[k]? = some .visiting → m.refs[k]? = some x → d ≤ x.index

theorem Open.later (h : Open m d s) (hl : Later s s') : Open m d s' :=
  fun k x hk hx => h k x (hl.visiting hk) hx

theorem Open.mono {d' : Nat} (h : Open m d s) (hd : d' ≤ d) : Open m d' s :=
  fun k x hk hx => Nat.le_trans hd (h k x hk hx)

/-- The nodes of a model that a node joins. -/
theorem node?_insert {m : Model} {n n' : Node} (h : (insert m n).node? id = some n') :
    (∃ n₁, m.node? id = some n₁ ∧ n'.bare = n₁.bare) ∨
      id = m.idAt m.nodes.size ∧ n'.bare = n.bare := by
  have hg := grows_counts (m.push n) n.operands
  obtain ⟨ht, hi⟩ := Model.node?_eq_some.1 h
  obtain ⟨n₁, hn₁, hb⟩ := hg.node_back (counts_frame _ _).2.2.2.2 hi
  have htag : id.model = m.tag := ht.trans hg.tag
  rw [Model.getElem?_push] at hn₁
  split at hn₁
  · rename_i hidx
    obtain rfl := Option.some.inj hn₁
    refine .inr ⟨?_, hb⟩
    rw [← hidx, Model.idAt, ← htag]
  · exact .inl ⟨n₁, Model.node?_eq_some.2 ⟨htag, hn₁⟩, hb⟩

/-- The node that joins a model. -/
theorem node?_insert_self (m : Model) (n : Node) :
    ∃ n', (insert m n).node? (m.idAt m.nodes.size) = some n' ∧ n'.bare = n.bare := by
  have hpush : (m.push n).node? (m.idAt m.nodes.size) = some n := by
    show (if m.tag = m.tag then (m.nodes.push n)[m.nodes.size]? else none) = _
    simp
  obtain ⟨n', hn', hb, -⟩ := (grows_counts (m.push n) n.operands).node? hpush
  exact ⟨n', hn', hb⟩

namespace Copies

theorem start (m : Model) (f : NodeId → NodeId) (tag : Nat) (name : Option String) :
    Copies m f ⟨.empty tag name, Array.replicate m.refs.size .pending⟩ none := by
  have hnone (id : NodeId) : (Model.empty tag name).node? id = none := by
    simp [Model.node?, Model.empty]
  refine ⟨fun id n' hn' => ?_, fun id n' hn' => ?_, fun k id hk => ?_, Array.size_replicate,
    fun id hid => ?_⟩
  · cases (hnone id).symm.trans hn'
  · cases (hnone id).symm.trans hn'
  · rw [Array.getElem?_replicate] at hk
    split at hk <;> simp at hk
  · exact absurd hid.2 (Nat.not_lt_zero _)

/-- A node of which the original has no number needs none. -/
theorem settle (h : Copies m f s (some id)) (hid : m.ref? (f id) = none) : Copies m f s none := by
  refine { h with rest := fun y hy hns => ?_ }
  obtain hr | he := h.rest y hy hns
  · exact .inl hr
  · obtain rfl := Option.some.inj he
    exact .inl hid

theorem visit (h : Copies m f s loose) (hk : s.slots[k]? = some .pending) :
    Copies m f (s.withSlot k .visiting) loose := by
  refine ⟨h.node, h.closed, fun l y hl => ?_, ?_, fun y hy hns => ?_⟩
  · exact h.slot l y ((built_withSlot_visiting hk).1 hl)
  · rw [← h.size]
    exact Array.size_setIfInBounds
  · exact h.rest y hy fun ⟨l, hl⟩ => hns ⟨l, (built_withSlot_visiting hk).2 hl⟩

/-- The node that was built for a number takes its slot. -/
theorem fill (h : Copies m f s (some id)) (hk : s.slots[k]? = some .visiting) (hid : s.model.Has id)
    (hx : m.refs[k]? = some (f id)) : Copies m f (s.withSlot k (.built id)) none := by
  refine ⟨h.node, h.closed, fun l y hl => ?_, ?_, fun y hy hns => ?_⟩
  · obtain ⟨rfl, rfl⟩ | hl := (built_withSlot_built hk).1 hl
    · exact ⟨hid, hx⟩
    · exact h.slot l y hl
  · rw [← h.size]
    exact Array.size_setIfInBounds
  · obtain ⟨hne, hns⟩ := not_or.1 (mt (slotted_withSlot_built hk).2 hns)
    exact (h.rest y hy hns).imp_right fun he => absurd (Option.some.inj he) hne

/-- A copy of a node joins the model. -/
theorem insert {operands : List Arg} (h : Copies m f s none) (hx : m.node? x = some n)
    (hargs : Arg.renameAll f operands = n.args) (hhas : ∀ y ∈ Arg.nodesOf operands, s.model.Has y) :
    ∃ g, (∀ y, s.model.Has y → g y = f y) ∧ g (s.model.idAt s.model.nodes.size) = x ∧
      Copies m g { s with model := insert s.model (.fresh n.operator operands n.toAttributes) }
        (some (s.model.idAt s.model.nodes.size)) := by
  have hnew : ¬ s.model.Has (s.model.idAt s.model.nodes.size) := fun h => Nat.lt_irrefl _ h.2
  have hg : ∀ y, s.model.Has y →
      (if y = s.model.idAt s.model.nodes.size then x else f y) = f y := fun y hy => by
    rw [if_neg]
    rintro rfl
    exact hnew hy
  refine ⟨fun y => if y = s.model.idAt s.model.nodes.size then x else f y, hg, if_pos rfl, ?_⟩
  have hl : Later s _ := later_insert (.fresh n.operator operands n.toAttributes)
  have hold : ∀ (id : NodeId) (n₁ : Node), s.model.node? id = some n₁ → ∀ y ∈ n₁.operands,
      (if y = s.model.idAt s.model.nodes.size then x else f y) = f y :=
    fun id n₁ hn₁ y hy => hg y (h.closed id n₁ hn₁ y hy)
  have hfresh : (Node.fresh n.operator operands n.toAttributes).Copy
      (fun y => if y = s.model.idAt s.model.nodes.size then x else f y) n :=
    ⟨rfl, rfl, hargs.symm.trans (Arg.renameAll_congr _ fun y hy => (hg y (hhas y hy)).symm)⟩
  refine ⟨fun id n' hn' => ?_, fun id n' hn' y hy => ?_, fun k y hk => ?_, h.size,
    fun y hy hns => ?_⟩
  · obtain ⟨n₁, hn₁, hb⟩ | ⟨rfl, hb⟩ := node?_insert hn'
    · obtain ⟨n₂, hn₂, hc⟩ := h.node id n₁ hn₁
      rw [hg id (Model.has_of_node? hn₁)]
      exact ⟨n₂, hn₂, (hc.congr (hold id n₁ hn₁)).of_bare hb⟩
    · rw [if_pos rfl]
      exact ⟨n, hx, hfresh.of_bare hb⟩
  · obtain ⟨n₁, hn₁, hb⟩ | ⟨rfl, hb⟩ := node?_insert hn'
    · rw [show n'.operands = n₁.operands from (congrArg (fun n : Node => n.operands) hb :)] at hy
      exact hl.grows.has (h.closed id n₁ hn₁ y hy)
    · rw [show n'.operands = Arg.nodesOf operands from
        (congrArg (fun n : Node => n.operands) hb :)] at hy
      exact hl.grows.has (hhas y hy)
  · obtain ⟨hy, hr⟩ := h.slot k y hk
    exact ⟨hl.grows.has hy, by rw [hr, hg y hy]⟩
  · obtain ⟨n', hn'⟩ := hy.exists_node
    obtain ⟨n₁, hn₁, -⟩ | ⟨rfl, -⟩ := node?_insert hn'
    · have hy := Model.has_of_node? hn₁
      rw [hg y hy]
      exact .inl ((h.rest y hy hns).resolve_right nofun)
    · exact .inr rfl

end Copies

/-! ### Steps that give copies -/

/-- From a copy, with the numbers of later nodes open, the step succeeds with a larger copy, and
what it gives is as `P` says. -/
def Gives (m : Model) (d : Nat) (step : Step α) (P : (NodeId → NodeId) → Restoring → α → Prop) :
    Prop :=
  ∀ (f : NodeId → NodeId) (s : Restoring), Copies m f s none → Open m d s →
    ∃ v s' g, step.run s = .ok (v, s') ∧ Later s s' ∧ (∀ y, s.model.Has y → g y = f y) ∧
      Copies m g s' none ∧ P g s' v

/-- An argument as it is found in the model that is read. -/
def IsArg (a : Arg) (f : NodeId → NodeId) (s : Restoring) (v : Arg) : Prop :=
  v.rename f = a ∧ ∀ y ∈ v.nodes, s.model.Has y

/-- Arguments as they are found in the model that is read. -/
def AreArgs (as : List Arg) (f : NodeId → NodeId) (s : Restoring) (vs : List Arg) : Prop :=
  Arg.renameAll f vs = as ∧ ∀ y ∈ Arg.nodesOf vs, s.model.Has y

theorem gives_pure {P : (NodeId → NodeId) → Restoring → α → Prop} {v : α} (h : ∀ f s, P f s v) :
    Gives m d (pure v) P :=
  fun f s hc _ => ⟨v, s, f, pure_ok.2 ⟨rfl, rfl⟩, .refl s, fun _ _ => rfl, hc, h f s⟩

theorem Gives.map {step : Step α} {P : (NodeId → NodeId) → Restoring → α → Prop}
    {Q : (NodeId → NodeId) → Restoring → β → Prop} {F : α → β} (h : Gives m d step P)
    (hF : ∀ f s v, P f s v → Q f s (F v)) : Gives m d (F <$> step) Q := by
  intro f s hc ho
  obtain ⟨v, s', g, hv, hl, hg, hc', hP⟩ := h f s hc ho
  exact ⟨F v, s', g, map_ok.2 ⟨v, hv, rfl⟩, hl, hg, hc', hF g s' v hP⟩

section Arguments

variable {resolve : Nat → Step NodeId} {ref : NodeId → Except ProtocolError ArgRecord}

mutual

/-- An argument is read when the nodes that it uses are. -/
theorem gives_arg (a : Arg) {r : ArgRecord} (hr : Model.argRecord ref a = .ok r)
    (href : ∀ y ∈ a.nodes, ∀ r, ref y = .ok r → Gives m d (arg resolve r) (IsArg (.node y))) :
    Gives m d (arg resolve r) (IsArg a) := by
  cases a with
  | node y => exact href y (List.mem_singleton_self y) r hr
  | list items =>
    rw [Model.argRecord] at hr
    split at hr
    · rename_i rs hrs
      obtain rfl := Except.ok.inj hr
      refine (gives_args items hrs href).map fun f s vs hvs => ⟨?_, hvs.2⟩
      rw [Arg.rename, hvs.1]
    · exact nomatch hr
  | _ =>
    obtain rfl := Except.ok.inj hr
    exact gives_pure fun _ _ => ⟨rfl, nofun⟩

theorem gives_args (as : List Arg) {rs : List ArgRecord} (hr : Model.argRecords ref as = .ok rs)
    (href : ∀ y ∈ Arg.nodesOf as, ∀ r, ref y = .ok r → Gives m d (arg resolve r) (IsArg (.node y))) :
    Gives m d (args resolve rs) (AreArgs as) := by
  cases as with
  | nil =>
    obtain rfl := Except.ok.inj hr
    exact gives_pure fun _ _ => ⟨rfl, nofun⟩
  | cons a rest =>
    rw [Model.argRecords] at hr
    split at hr
    · exact nomatch hr
    · rename_i r₁ hr₁
      split at hr
      · exact nomatch hr
      · rename_i rs₂ hrs₂
        obtain rfl := Except.ok.inj hr
        intro f s hc ho
        obtain ⟨v, s₁, f₁, hv, hl₁, hf₁, hc₁, hv₁, hhas⟩ :=
          gives_arg a hr₁ (fun y hy => href y (List.mem_append_left _ hy)) f s hc ho
        obtain ⟨vs, s₂, f₂, hvs, hl₂, hf₂, hc₂, hvs₂, hhas₂⟩ :=
          gives_args rest hrs₂ (fun y hy => href y (List.mem_append_right _ hy)) f₁ s₁ hc₁
            (ho.later hl₁)
        refine ⟨v :: vs, s₂, f₂, ?_, hl₁.trans hl₂, fun y hy => ?_, hc₂, ?_, fun y hy => ?_⟩
        · exact bind_ok.2 ⟨v, s₁, hv, bind_ok.2 ⟨vs, s₂, hvs, pure_ok.2 ⟨rfl, rfl⟩⟩⟩
        · rw [hf₂ y (hl₁.grows.has hy), hf₁ y hy]
        · rw [Arg.renameAll, hvs₂, Arg.rename_congr v fun y hy => hf₂ y (hhas y hy), hv₁]
        · obtain hy | hy := List.mem_append.1 hy
          · exact hl₂.grows.has (hhas y hy)
          · exact hhas₂ y hy

end

end Arguments

/-! ### Numbers and nodes -/

/-- How many numbered nodes stand before a place: so many numbers can be open below it. -/
def rank (m : Model) (d : Nat) : Nat := m.refs.toList.countP fun x => x.index < d

theorem countP_lt {l : List NodeId} (hx : x ∈ l) (hd : x.index < d) :
    l.countP (fun y => y.index < x.index) < l.countP fun y => y.index < d := by
  have hmono (l : List NodeId) :
      l.countP (fun y => y.index < x.index) ≤ l.countP fun y => y.index < d :=
    List.countP_mono_left fun y _ hy => by
      simp only [decide_eq_true_eq] at hy ⊢
      omega
  induction l with
  | nil => exact nomatch hx
  | cons y l ih =>
    rw [List.countP_cons, List.countP_cons]
    obtain rfl | hx := List.mem_cons.1 hx
    · have := hmono l
      simp [hd]
      omega
    · have := ih hx
      by_cases hy : y.index < x.index
      · have hy' : y.index < d := by omega
        simp [hy, hy', this]
      · simp [hy]
        omega

theorem rank_lt (hx : m.refs[k]? = some x) (hd : x.index < d) : rank m x.index < rank m d :=
  countP_lt (List.mem_of_getElem? (i := k) (by simpa using hx)) hd

variable {refs : Array NodeRecord} {fuel : Nat}

/-- Whatever state a node's record is read in, it gives a copy. -/
def GivesNode (m : Model) (refs : Array NodeRecord) (x : NodeId) : Prop :=
  ∀ {fuel : Nat} {n : Node} {r : NodeRecord} {f : NodeId → NodeId} {s : Restoring},
    rank m x.index ≤ fuel → m.node? x = some n → Model.nodeRecord m.reference n = .ok r →
    Copies m f s none → Open m x.index s →
    ∃ id s' g, (node (resolve refs fuel) r).run s = .ok (id, s') ∧ Later s s' ∧
      (∀ y, s.model.Has y → g y = f y) ∧ Copies m g s' (some id) ∧ s'.model.Has id ∧ g id = x

/-- A number is found, or its node is built. -/
theorem gives_resolve
    (hrefs : ∀ (k : Nat) (x : NodeId), m.refs[k]? = some x →
      ∃ r, refs[k]? = some r ∧ m.refRecord x = .ok r)
    (hnode : GivesNode m refs x) (hx : m.refs[k]? = some x) (hd : x.index < d)
    (hfuel : rank m d ≤ fuel) :
    Gives m d (resolve refs fuel k) fun f s id => f id = x ∧ s.model.Has id := by
  intro f s hc ho
  have hlt : k < s.slots.size := by
    rw [hc.size]
    exact (Array.getElem?_eq_some_iff.1 hx).1
  have hk := Array.getElem?_eq_getElem hlt
  cases hslot : s.slots[k] with
  | built id =>
    rw [hslot] at hk
    obtain ⟨hid, hr⟩ := hc.slot k id hk
    obtain rfl := Option.some.inj (hr.symm.trans hx)
    exact ⟨id, s, f, resolve_ok.2 (.inl ⟨hk, rfl⟩), .refl s, fun _ _ => rfl, hc, rfl, hid⟩
  | visiting =>
    have := ho k x (hslot ▸ hk) hx
    omega
  | pending =>
    rw [hslot] at hk
    have hrank := rank_lt hx hd
    obtain ⟨fuel, rfl⟩ := Nat.exists_eq_succ_of_ne_zero (n := fuel) (by omega)
    have hfuel' : rank m x.index ≤ fuel := by omega
    obtain ⟨r, hr, hrecord⟩ := hrefs k x hx
    rw [Model.refRecord] at hrecord
    split at hrecord
    · rename_i n hn
      have ho' : Open m x.index (s.withSlot k .visiting) := fun l y hl hy => by
        rw [getElem?_withSlot] at hl
        split at hl
        · obtain rfl : k = l := (‹k = l ∧ _›).1
          obtain rfl := Option.some.inj (hy.symm.trans hx)
          exact Nat.le_refl _
        · have := ho l y hl hy
          omega
      obtain ⟨id, s₁, g, hrun, hl, hg, hc₁, hid, rfl⟩ :=
        hnode hfuel' (Model.node_eq_ok.1 hn) hrecord (hc.visit hk) ho'
      exact ⟨id, _, g, resolve_ok.2 (.inr ⟨hk, fuel, r, s₁, rfl, hr, hrun, rfl⟩), .of_visiting hk hl,
        hg, hc₁.fill (hl.visited hk) hid hx, rfl, hid⟩
    · cases hrecord

/-- A use of a node is read. -/
theorem gives_reference (hm : Model.Sound m)
    (hrefs : ∀ (k : Nat) (x : NodeId), m.refs[k]? = some x →
      ∃ r, refs[k]? = some r ∧ m.refRecord x = .ok r)
    (hnode : GivesNode m refs x) (hx : m.Has x) (hd : x.index < d) (hfuel : rank m d ≤ fuel)
    {a : ArgRecord} (ha : m.reference x = .ok a) :
    Gives m d (arg (resolve refs fuel) a) (IsArg (.node x)) := by
  obtain ⟨n, hn⟩ := hx.exists_node
  rw [Model.reference_eq hm hn] at ha
  cases hr : n.ref with
  | some k =>
    rw [hr] at ha
    obtain rfl := Except.ok.inj ha
    have hk := (hm.numbered k x).2 (Model.ref?_eq_some.2 ⟨n, hn, hr⟩)
    refine (gives_resolve hrefs hnode hk hd hfuel).map fun f s id hid => ⟨?_, ?_⟩
    · rw [Arg.rename, hid.1]
    · exact fun y hy => List.mem_singleton.1 hy ▸ hid.2
  | none =>
    rw [hr] at ha
    cases hrecord : Model.nodeRecord m.reference n with
    | error e =>
      rw [hrecord] at ha
      exact nomatch ha
    | ok r =>
      rw [hrecord] at ha
      obtain rfl := Except.ok.inj ha
      intro f s hc ho
      have hrank : rank m x.index ≤ fuel := by
        refine Nat.le_trans (List.countP_mono_left fun y _ hy => ?_) hfuel
        simp only [decide_eq_true_eq] at hy ⊢
        omega
      obtain ⟨id, s', g, hrun, hl, hg, hc', hid, rfl⟩ :=
        hnode hrank hn hrecord hc (ho.mono (Nat.le_of_lt hd))
      have hnone : m.ref? (g id) = none := by rw [Model.ref?, hn, Option.bind_some, hr]
      exact ⟨.node id, s', g, map_ok.2 ⟨id, hrun, rfl⟩, hl, hg, hc'.settle hnone, rfl,
        fun y hy => List.mem_singleton.1 hy ▸ hid⟩

/-- The record of a node is read. -/
theorem gives_node (hm : Model.Sound m)
    (hrefs : ∀ (k : Nat) (x : NodeId), m.refs[k]? = some x →
      ∃ r, refs[k]? = some r ∧ m.refRecord x = .ok r) (x : NodeId) : GivesNode m refs x := by
  induction hi : x.index using Nat.strongRecOn generalizing x with
  | _ i ih =>
    intro fuel n r f s hfuel hn hr hc ho
    rw [Model.nodeRecord] at hr
    split at hr
    · rename_i rs hrs
      obtain rfl := Except.ok.inj hr
      have hops : ∀ y ∈ n.operands, ∀ a, m.reference y = .ok a →
          Gives m x.index (arg (resolve refs fuel) a) (IsArg (.node y)) := fun y hy a ha => by
        obtain ⟨hhas, hlt⟩ := hm.operand hn hy
        exact gives_reference hm hrefs (ih y.index (hi ▸ hlt) y rfl) hhas hlt hfuel ha
      obtain ⟨vs, s₁, f₁, hvs, hl, hf₁, hc₁, hargs, hhas⟩ := gives_args n.args hrs hops f s hc ho
      obtain ⟨g, hg, hgx, hc₂⟩ := hc₁.insert hn hargs hhas
      have hacc : s₁.model.Accepts (.fresh n.operator vs n.toAttributes) := by
        refine (hm.accepts x.index n (Model.node?_eq_some.1 hn).2).of_copy (f := f₁) ⟨rfl, rfl, hargs.symm⟩
          fun y hy => ?_
        obtain ⟨p', hp'⟩ := (hhas y hy).exists_node
        obtain ⟨p, hp, hcopy⟩ := hc₁.node y p' hp'
        exact ⟨p', p, hp', hp, hcopy⟩
      have hins := later_insert (s := s₁) (.fresh n.operator vs n.toAttributes)
      refine ⟨_, _, g, node_ok.2 ⟨vs, s₁, hvs, hacc, rfl, rfl⟩, hl.trans hins, fun y hy => ?_, hc₂, ?_,
        hgx⟩
      · rw [hg y (hl.grows.has hy), hf₁ y hy]
      · refine ⟨hins.grows.tag.symm, ?_⟩
        show s₁.model.nodes.size < (Restoring.insert s₁.model _).nodes.size
        rw [insert_eq, (counts_frame _ _).2.2.2.2, Model.size_push]
        exact Nat.lt_succ_self _
    · cases hr

end Restoring

end Scheduling
