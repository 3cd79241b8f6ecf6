import Mathlib.Data.List.Induction
import Scheduling.Proofs.Arena.Sound

/-!
# Models built by calls

A model that only calls have built says what was called: which nodes have a number, which constants
there are and what stands among the constraints (`Model.Built`). Each call keeps this
(`Built.call`), so it holds after any calls, failed ones included (`built_calls`).
-/

namespace Scheduling

namespace Model

variable {m m' : Model} {id : NodeId} {n n' : Node} {l : Literal} {asked : NodeId → Prop}
  {sent : List NodeId}

/-! ### What was called -/

/-- The truth-valued nodes that a call adds to the constraints. -/
def posts (m : Model) (c : Call) : List NodeId :=
  match c, m.call c with
  | .constraint a, (.ok _, m') => (m'.boolNode? a).toList
  | _, _ => []

/-- The truth-valued nodes that calls add to the constraints, one after the other. -/
def posted (m : Model) : List Call → List NodeId
  | [] => []
  | c :: cs => m.posts c ++ (m.call c).2.posted cs

/-- A node is the objective after some of the calls. -/
def Optimized (m : Model) (cs : List Call) (id : NodeId) : Prop :=
  ∃ k, (m.calls (cs.take k)).objective.map Objective.expr = some id

theorem calls_append (m : Model) (cs ds : List Call) : m.calls (cs ++ ds) = (m.calls cs).calls ds :=
  List.foldl_append

theorem posted_append (m : Model) (cs ds : List Call) :
    m.posted (cs ++ ds) = m.posted cs ++ (m.calls cs).posted ds := by
  induction cs generalizing m with
  | nil => rfl
  | cons c cs ih =>
    rw [List.cons_append, posted, posted, ih, List.append_assoc]
    rfl

theorem optimized_snoc (m : Model) (cs : List Call) (c : Call) (id : NodeId) :
    m.Optimized (cs ++ [c]) id ↔
      m.Optimized cs id ∨ (m.calls (cs ++ [c])).objective.map Objective.expr = some id := by
  constructor
  · rintro ⟨k, hk⟩
    obtain hle | hlt := Nat.lt_or_ge cs.length k |>.symm
    · rw [List.take_append_of_le_length hle] at hk
      exact .inl ⟨k, hk⟩
    · rw [List.take_of_length_le (by simp; omega)] at hk
      exact .inr hk
  · rintro (⟨k, hk⟩ | h)
    · refine ⟨min k cs.length, ?_⟩
      rw [List.take_append_of_le_length (Nat.min_le_right ..)]
      rwa [← List.take_eq_take_min]
    · exact ⟨(cs ++ [c]).length, by rwa [List.take_length]⟩

/-! ### Constraints and constants -/

/-- Whether a node of the model is a constraint. -/
def constrains (m : Model) (id : NodeId) : Bool := (m.node? id).any fun n => n.operator.isConstraint

theorem Keeps.constrains (h : Keeps m m') (hid : m.Has id) : m'.constrains id = m.constrains id := by
  obtain ⟨n, hn⟩ := hid.exists_node
  obtain ⟨n', hn', hc⟩ := h.node? hn
  simp [Model.constrains, hn, hn', Node.operator_eq_of_core hc]

theorem is_core (l : Literal) (n : Node) : l.is n.core = l.is n := by cases l <;> rfl

theorem Keeps.constant? (h : Keeps m m') (hs : m'.nodes.size = m.nodes.size) (l : Literal) :
    m'.constant? l.is = m.constant? l.is := by
  have hcore : m'.nodes.map Node.core = m.nodes.map Node.core := by
    refine Array.ext_getElem? fun i => ?_
    rw [Array.getElem?_map, Array.getElem?_map]
    cases hn : m.nodes[i]? with
    | some n =>
      obtain ⟨n', hn', hc⟩ := h.node hn
      rw [hn', Option.map_some, Option.map_some, hc]
    | none =>
      rw [Array.getElem?_eq_none_iff] at hn
      rw [Array.getElem?_eq_none (hs ▸ hn)]
  have hfind (m : Model) : m.nodes.findIdx? l.is = (m.nodes.map Node.core).findIdx? l.is := by
    rw [Array.findIdx?_map]
    exact congrArg (m.nodes.findIdx? ·) (funext fun n => (is_core l n).symm)
  have hid : m'.idAt = m.idAt := funext fun i => by rw [idAt, idAt, h.tag]
  rw [Model.constant?, Model.constant?, hfind m', hfind m, hcore, hid]

/-- Values of constants that a node has in common make the same constant. -/
theorem is_congr {l l' : Literal} (h : l.is n) (h' : l'.is n) : l.is = l'.is := by
  cases l <;> cases l' <;>
    simp only [Literal.is, Node.isIntConst, Node.isFloatConst, Node.isBoolConst] at h h' <;>
    split at h <;> simp_all [Literal.is, Node.isFloatConst, funext_iff]

/-! ### Built models -/

/-- A model that calls have built: `asked` are the nodes that were the objective at some time, and
`sent` the truth-valued nodes that were added to the constraints. -/
structure Built (m : Model) (asked : NodeId → Prop) (sent : List NodeId) : Prop extends Sound m where
  formed : ∀ (i : Nat) (n : Node), m.nodes[i]? = some n → m.Formed n
  /-- The nodes with a number are the variables, those with a name or two uses, and objectives. -/
  marked : Marked m fun i => asked (m.idAt i) ∨
    (m.nodes[i]?).any fun n => n.operator.isVariable || n.name.isSome
  asked_has : ∀ id, asked id → m.Has id
  objective_asked : ∀ id, m.objective.map Objective.expr = some id → asked id
  /-- There is one constant for each value at most. -/
  unique : ∀ (l : Literal) (i j : Nat) (n n' : Node), m.nodes[i]? = some n → m.nodes[j]? = some n' →
    l.is n → l.is n' → i = j
  /-- All constraints stand in the list of constraints, in the order in which they were built. -/
  constraints : m.topLevel.toList.filter m.constrains = m.ids.filter m.constrains
  /-- The other members of the list are the nodes that were added to it. -/
  others : m.topLevel.toList.filter (fun id => !m.constrains id) = sent
  truth : ∀ id ∈ sent, m.Is .boolean id

theorem built_empty (tag : Nat) (name : Option String) :
    Built (empty tag name) (fun _ => False) [] := by
  refine ⟨sound_empty tag name, ?_, ?_, ?_, ?_, ?_, ?_, ?_, ?_⟩ <;> simp [empty, Marked, ids]

theorem any_core {i : Nat} (hk : Grows m m') (hs : m'.nodes.size = m.nodes.size) :
    ((m'.nodes[i]?).any fun n => n.operator.isVariable || n.name.isSome) =
      (m.nodes[i]?).any fun n => n.operator.isVariable || n.name.isSome := by
  cases hn : m.nodes[i]? with
  | some n =>
    obtain ⟨n', hn', hb, -⟩ := hk.node hn
    have hname : n'.name = n.name := (congrArg (fun n : Node => n.name) hb :)
    simp [hn', hname, Node.operator_eq_of_bare hb]
  | none =>
    rw [Array.getElem?_eq_none_iff] at hn
    simp [Array.getElem?_eq_none (hs ▸ hn)]

namespace Built

/-- Steps that add no node keep what does not depend on numbers and uses. -/
theorem of_keeps {asked' : NodeId → Prop} {sent' : List NodeId} (h : Built m asked sent)
    (hs' : Sound m') (hk : Keeps m m') (hs : m'.nodes.size = m.nodes.size)
    (hmarked : Marked m' fun i => asked' (m'.idAt i) ∨
      (m'.nodes[i]?).any fun n => n.operator.isVariable || n.name.isSome)
    (hasked : ∀ id, asked' id → m'.Has id)
    (hobj : ∀ id, m'.objective.map Objective.expr = some id → asked' id)
    (htop : m'.topLevel.toList.filter m.constrains = m.topLevel.toList.filter m.constrains)
    (hsent : m'.topLevel.toList.filter (fun id => !m.constrains id) = sent')
    (htruth : ∀ id ∈ sent', m.Is .boolean id) : Built m' asked' sent' := by
  have hids : m'.ids = m.ids := by
    have hid : m'.idAt = m.idAt := funext fun i => by rw [idAt, idAt, hk.tag]
    rw [ids, ids, hs, hid]
  have hhas {id : NodeId} (hid : m'.Has id) : m.Has id := ⟨hid.1.trans hk.tag, hs ▸ hid.2⟩
  have hfilter {l : List NodeId} (hl : ∀ id ∈ l, m'.Has id) :
      l.filter m'.constrains = l.filter m.constrains ∧
      l.filter (fun id => !m'.constrains id) = l.filter fun id => !m.constrains id :=
    ⟨List.filter_congr fun id hid => hk.constrains (hhas (hl id hid)),
      List.filter_congr fun id hid => by rw [hk.constrains (hhas (hl id hid))]⟩
  have htopHas : ∀ id ∈ m'.topLevel.toList, m'.Has id :=
    fun id hid => hs'.counted.topLevel id (Array.mem_toList_iff.1 hid)
  refine ⟨hs', fun i n' hn' => ?_, hmarked, hasked, hobj, fun l i j n₁ n₂ h₁ h₂ hl₁ hl₂ => ?_, ?_, ?_,
    fun id hid => hk.is (htruth id hid)⟩
  · obtain ⟨n, hn, hc⟩ := hk.node_back hs hn'
    exact (hk.formed (h.formed i n hn)).of_core hc
  · obtain ⟨n₁', h₁', hc₁⟩ := hk.node_back hs h₁
    obtain ⟨n₂', h₂', hc₂⟩ := hk.node_back hs h₂
    refine h.unique l i j n₁' n₂' h₁' h₂' ?_ ?_
    · rwa [← is_core, ← hc₁, is_core]
    · rwa [← is_core, ← hc₂, is_core]
  · rw [(hfilter htopHas).1, htop, h.constraints, hids, (hfilter fun id hid => ?_).1]
    exact hk.has (mem_ids.1 hid)
  · rw [(hfilter htopHas).2, hsent]

/-- A node that joins the model, and is no constant that the model has. -/
theorem extend (h : Built m asked sent) (hn : m.Formed n) (hr : n.ref = none) (hu : n.uses = 0)
    (hname : n.name.isSome → n.operator.isVariable)
    (hnew : ∀ (l : Literal) (i : Nat) (n' : Node), m.nodes[i]? = some n' → l.is n → ¬ l.is n') :
    Built (m.extend n) asked sent := by
  have hpush : Grows m (m.push n) := grows_push
  have hg : Grows (m.push n) (m.extend n) := grows_extend
  have hk : Keeps m (m.extend n) := (hpush.trans hg).keeps
  obtain ⟨htag, -, hobj, hsize, htop⟩ := extend_frame (m := m) (n := n)
  have hsize' : (m.extend n).nodes.size = (m.push n).nodes.size := by rw [hsize, size_push]
  have hback {i : Nat} {n' : Node} (hn' : (m.extend n).nodes[i]? = some n') :
      (i = m.nodes.size ∧ n'.core = n.core) ∨ ∃ n₁, m.nodes[i]? = some n₁ ∧ n'.core = n₁.core := by
    obtain ⟨n₁, hn₁, hb⟩ := hg.node_back hsize' hn'
    rw [getElem?_push] at hn₁
    split at hn₁
    · exact .inl ⟨‹_›, Option.some.inj hn₁ ▸ Node.core_eq_of_bare hb⟩
    · exact .inr ⟨n₁, hn₁, Node.core_eq_of_bare hb⟩
  have hids : (m.extend n).ids = m.ids ++ [m.idAt m.nodes.size] := by
    have hid : (m.extend n).idAt = m.idAt := funext fun i => by rw [idAt, idAt, htag]
    rw [ids, ids, hsize, hid, List.range_succ, List.map_append]
    rfl
  have hold {id : NodeId} (hid : m.Has id) : (m.extend n).constrains id = m.constrains id :=
    hk.constrains hid
  have hlast : (m.extend n).constrains (m.idAt m.nodes.size) = n.operator.isConstraint := by
    obtain ⟨n', hn', hc⟩ := hg.keeps.node (i := m.nodes.size) (n := n)
      (by rw [getElem?_push, if_pos rfl])
    have : (m.extend n).node? (m.idAt m.nodes.size) = some n' :=
      node?_eq_some.2 ⟨htag.symm, hn'⟩
    simp [constrains, this, Node.operator_eq_of_core hc]
  have htopHas : ∀ id ∈ m.topLevel.toList, m.Has id :=
    fun id hid => h.counted.topLevel id (Array.mem_toList_iff.1 hid)
  have htop' : (m.extend n).topLevel.toList =
      m.topLevel.toList ++ if n.operator.isConstraint then [m.idAt m.nodes.size] else [] := by
    rw [htop]
    split <;> simp
  refine ⟨h.toSound.extend hn.accepted hn.has hr hu hname, fun i n' hn' => ?_, ?_,
    fun id hid => hk.has (h.asked_has id hid), fun id hid => h.objective_asked id (hobj ▸ hid),
    fun l i j n₁ n₂ h₁ h₂ hl₁ hl₂ => ?_, ?_, ?_, fun id hid => hk.is (h.truth id hid)⟩
  · obtain ⟨-, hc⟩ | ⟨n₁, hn₁, hc⟩ := hback hn'
    · exact (hk.formed hn).of_core hc
    · exact (hk.formed (h.formed i n₁ hn₁)).of_core hc
  · have hsizeNot : ¬ asked (m.idAt m.nodes.size) := fun hid =>
      Nat.lt_irrefl _ (h.asked_has _ hid).2
    refine (h.marked.extend (by simpa using hsizeNot) hn.has hr hu).congr fun i hi => ?_
    have hid : (m.extend n).idAt i = m.idAt i := by rw [idAt, idAt, htag]
    rw [hid, any_core hg hsize', getElem?_push]
    by_cases hi' : i = m.nodes.size
    · subst hi'
      simp only [if_true, Option.any_some, Bool.or_eq_true, hsizeNot]
      simp
      exact hname
    · simp [hi']
  · obtain ⟨rfl, hc₁⟩ | ⟨n₁', h₁', hc₁⟩ := hback h₁ <;>
      obtain ⟨rfl, hc₂⟩ | ⟨n₂', h₂', hc₂⟩ := hback h₂ <;>
      rw [← is_core, hc₁, is_core] at hl₁ <;> rw [← is_core, hc₂, is_core] at hl₂
    · exact (hnew l j n₂' h₂' hl₁ hl₂).elim
    · exact (hnew l i n₁' h₁' hl₂ hl₁).elim
    · exact h.unique l i j n₁' n₂' h₁' h₂' hl₁ hl₂
  · rw [htop', hids, List.filter_append, List.filter_append,
      List.filter_congr fun id hid => hold (htopHas id hid),
      List.filter_congr fun id hid => hold (mem_ids.1 hid), h.constraints]
    congr 1
    cases hc : n.operator.isConstraint <;> simp [hlast, hc]
  · rw [htop', List.filter_append,
      List.filter_congr fun id hid => congrArg not (hold (htopHas id hid)), h.others]
    cases hc : n.operator.isConstraint <;> simp [hlast, hc]

theorem push_literal (h : Built m asked sent) (hl : l.Sound) (hnew : m.constant? l.is = none) :
    Built (m.push l.node) asked sent := by
  have hformed : m.Formed l.node := by
    refine .plain ⟨?_, ?_⟩ ?_ ?_
    · cases l <;> exact Nat.le_refl 1
    · cases l <;> exact .cons hl .nil
    · cases l <;> rfl
    · cases l <;> simp [Literal.operator]
  rw [← extend_literal]
  have hname : l.node.name.isSome → l.node.operator.isVariable := by
    cases l <;> intro hname <;> cases hname
  refine h.extend hformed rfl rfl hname fun l' i n' hn' hl' hn'' => ?_
  rw [is_congr hl' l.is_node] at hn''
  have hfind : m.nodes.findIdx? l.is = none := by simpa [constant?] using hnew
  rw [Array.findIdx?_eq_none_iff] at hfind
  have := hfind n' (Array.mem_of_getElem? hn')
  simp [hn''] at this

theorem prepared (h : Built m asked sent) (hp : Prepared m m') : Built m' asked sent := by
  induction hp with
  | refl => exact h
  | push l _ hl hnew ih => exact ih.push_literal hl hnew

/-- A truth-valued node that joins the constraints. -/
theorem post (h : Built m asked sent) (hid : m.Is .boolean id) :
    Built (m.addTopLevel id) asked (sent ++ [id]) := by
  obtain ⟨n, hn, hkind⟩ := hid
  have hhas := has_of_node? hn
  have hnot : m.constrains id = false := by
    have : n.operator.isConstraint = false := by
      simp only [Expectation.accepts, Node.kind, beq_iff_eq] at hkind
      simp [Operator.isConstraint, hkind]
    simp [constrains, hn, this]
  obtain ⟨htag, -, htop, ho, hs⟩ :=
    use_frame { m with topLevel := m.topLevel.push id } id
  have hg : Grows m (m.addTopLevel id) := grows_addTopLevel
  have htop' : (m.addTopLevel id).topLevel.toList = m.topLevel.toList ++ [id] := by
    rw [addTopLevel, htop, Array.toList_push]
  refine h.of_keeps (h.toSound.addTopLevel hhas) hg.keeps hs ?_
    (fun id hid => hg.has (h.asked_has id hid)) (fun id hid => h.objective_asked id (ho ▸ hid)) ?_ ?_
    fun x hx => ?_
  · refine (h.marked.addTopLevel hhas).congr fun i _ => ?_
    rw [any_core hg hs, show (m.addTopLevel id).idAt i = m.idAt i by rw [idAt, idAt, hg.tag]]
  · rw [htop', List.filter_append]
    simp [hnot]
  · rw [htop', List.filter_append, h.others]
    simp [hnot]
  · obtain hx | hx := List.mem_append.1 hx
    · exact h.truth x hx
    · exact List.mem_singleton.1 hx ▸ ⟨n, hn, hkind⟩

/-- A node that becomes the objective. -/
theorem optimize (h : Built m asked sent) (hid : m.Has id) (sense : Sense) :
    Built { m.materialize id with objective := some ⟨sense, id⟩ } (fun x => asked x ∨ x = id)
      sent := by
  have hg : Grows m (m.materialize id) := grows_materialize
  refine h.of_keeps (h.toSound.optimize hid sense) ⟨hg.tag, hg.keeps.node⟩ size_materialize ?_
    (fun x hx => ?_) (fun x hx => ?_) ?_ ?_ h.truth
  · refine Marked.congr (m := m.materialize id) (h.marked.materialize id) fun i hi => ?_
    have hany := any_core (i := i) hg size_materialize
    have hidx : (m.materialize id).idAt i = m.idAt i := by rw [idAt, idAt, hg.tag]
    have heq : m.idAt i = id ↔ i = id.index := by rw [hid.eq_idAt, idAt_inj]; rfl
    show (asked ((m.materialize id).idAt i) ∨ (m.materialize id).idAt i = id) ∨
      ((m.materialize id).nodes[i]?).any _ ↔ _
    rw [hany, hidx, heq]
    exact or_right_comm
  · obtain hx | rfl := hx
    · exact hg.has (h.asked_has x hx)
    · exact hg.has hid
  · exact .inr (Option.some.inj hx).symm
  · exact congrArg (List.filter m.constrains ·.toList) materialize_topLevel
  · rw [← h.others]
    exact congrArg (List.filter (fun id => !m.constrains id) ·.toList) materialize_topLevel

theorem nameNode (h : Built m asked sent) (hid : m.Has id) (name : String) :
    Built ((m.renamed id name).materialize id) asked sent := by
  have hr : Keeps m (m.renamed id name) := keeps_renamed name
  have hg : Grows (m.renamed id name) ((m.renamed id name).materialize id) := grows_materialize
  have hk := hr.trans hg.keeps
  have hsize : (m.renamed id name).nodes.size = m.nodes.size := size_modify _
  have hmarked : Marked (m.renamed id name) _ := h.marked.modify (fun _ => rfl) fun _ => rfl
  refine h.of_keeps (h.toSound.nameNode hid name) hk (size_materialize.trans hsize) ?_
    (fun x hx => hk.has (h.asked_has x hx)) (fun x hx => ?_) ?_ ?_ h.truth
  · refine (hmarked.materialize id).congr fun i hi => ?_
    have hidx : ((m.renamed id name).materialize id).idAt i = m.idAt i := by
      rw [idAt, idAt, hk.tag]
    have hi : i < m.nodes.size := by rwa [size_materialize, hsize] at hi
    rw [hidx, any_core hg size_materialize, getElem?_renamed, Array.getElem?_eq_getElem hi,
      Option.map_some, Option.any_some, Option.any_some]
    by_cases hi' : id.index = i
    · simp [hi']
    · simp [hi', show i ≠ id.index from fun he => hi' he.symm]
  · rw [materialize_objective] at hx
    exact h.objective_asked x hx
  · rw [materialize_topLevel]
    rfl
  · rw [materialize_topLevel]
    exact h.others

theorem congr {asked' : NodeId → Prop} (h : Built m asked sent) (he : ∀ id, asked' id ↔ asked id) :
    Built m asked' sent := by
  have hasked : asked' = asked := funext fun id => propext (he id)
  rwa [hasked]

/-- What a step adds to the constraints besides the nodes that it builds. -/
def moved : Move → List NodeId
  | .post id => [id]
  | _ => []

theorem move (h : Built m asked sent) {v : Move} (hv : v.Allowed m) :
    Built (v.apply m) (fun id => asked id ∨ (v.apply m).objective.map Objective.expr = some id)
      (sent ++ moved v) := by
  have hsame {m' : Model} (ho : m'.objective = m.objective) (id : NodeId) :
      (asked id ∨ m'.objective.map Objective.expr = some id) ↔ asked id :=
    ⟨fun hid => hid.elim (fun h => h) fun hid => h.objective_asked id (ho ▸ hid), .inl⟩
  cases v with
  | constant l =>
    simp only [moved, List.append_nil]
    exact h.congr (hsame rfl)
  | add n =>
    obtain ⟨hn, hr, hu, hname, hc⟩ := hv
    have hadd := h.extend hn hr hu hname fun l i n' _ hl => by
      rw [operator_of_is hl] at hc
      cases l <;> simp [Literal.operator, Operator.isConstant] at hc
    simp only [moved, List.append_nil]
    exact hadd.congr (hsame extend_frame.2.2.1)
  | post id =>
    obtain ⟨-, -, -, ho, -⟩ := use_frame { m with topLevel := m.topLevel.push id } id
    exact (h.post hv).congr (hsame ho)
  | optimize sense expr =>
    simp only [moved, List.append_nil]
    refine (h.optimize hv.has sense).congr fun id => or_congr_right ?_
    exact ⟨fun hid => (Option.some.inj hid).symm, fun hid => congrArg some hid.symm⟩
  | nameNode id name =>
    simp only [moved, List.append_nil]
    exact (h.nameNode hv name).congr (hsame materialize_objective)
  | nameModel name =>
    simp only [moved, List.append_nil]
    refine (h.of_keeps (h.toSound.move (v := .nameModel name) hv) ⟨rfl, fun hn => ⟨_, hn, rfl⟩⟩ rfl
      h.marked (fun id hid => h.asked_has id hid) (fun id hid => h.objective_asked id hid) rfl
      h.others h.truth).congr (hsame rfl)

/-- What a call adds to the constraints is what its last step does. -/
theorem posts_eq {c : Call} {v : Move} {r : Option NodeId} (he : m.call c = (.ok r, v.apply m'))
    (hv : v.Allowed m') (hl : m'.Leads c v) : m.posts c = moved v := by
  cases c with
  | constraint a =>
    obtain ⟨id, hid, rfl⟩ := hl
    have hb : (m'.addTopLevel id).boolNode? a = some id := by
      cases a with
      | node x => exact hid
      | const b =>
        obtain ⟨-, -, -, -, hs⟩ :=
          use_frame { m' with topLevel := m'.topLevel.push id } id
        exact (grows_addTopLevel.keeps.constant? hs (.bool b)).trans hid
    simp only [posts, he]
    exact congrArg Option.toList hb
  | intConst i =>
    obtain rfl := hl
    rfl
  | floatConst x =>
    obtain rfl := hl
    rfl
  | boolConst b =>
    obtain rfl := hl
    rfl
  | optimize sense a =>
    obtain ⟨id, -, rfl⟩ := hl
    rfl
  | nameNode id name =>
    obtain rfl := hl
    rfl
  | nameModel name =>
    obtain rfl := hl
    rfl
  | _ =>
    obtain ⟨n, rfl⟩ := hl
    rfl

theorem call (h : Built m asked sent) (c : Call) :
    Built (m.call c).2
      (fun id => asked id ∨ (m.call c).2.objective.map Objective.expr = some id)
      (sent ++ m.posts c) := by
  obtain ⟨m', hp, ⟨v, he, hv, hl⟩ | ⟨e, he⟩⟩ := m.call_cases c
  · have he : m.call c = (.ok (v.result m'), v.apply m') := he
    rw [posts_eq he hv hl, he]
    exact (h.prepared hp).move hv
  · have he : m.call c = (.error e, m') := he
    have hposts : m.posts c = [] := by
      unfold posts
      rw [he]
      cases c <;> rfl
    have h' := h.prepared hp
    rw [hposts, he, List.append_nil]
    exact h'.congr fun id => ⟨fun hid => hid.elim (fun h => h) (h'.objective_asked id), .inl⟩

end Built

/-- A model that only calls have built tells what was called. -/
theorem built_calls (tag : Nat) (name : Option String) (cs : List Call) :
    Built ((empty tag name).calls cs) ((empty tag name).Optimized cs) ((empty tag name).posted cs) := by
  induction cs using List.reverseRecOn with
  | nil => exact (built_empty tag name).congr fun id => by simp [Optimized, calls, empty]
  | append_singleton cs c ih =>
    have hlast : (empty tag name).calls (cs ++ [c]) = (((empty tag name).calls cs).call c).2 := by
      rw [calls_append]
      rfl
    have hposted : (empty tag name).posted (cs ++ [c]) =
        (empty tag name).posted cs ++ ((empty tag name).calls cs).posts c := by
      rw [posted_append]
      simp [posted]
    rw [hposted, hlast]
    refine (ih.call c).congr fun id => ?_
    rw [optimized_snoc, hlast]

namespace Built

/-- A constant of the model is found by its value. -/
theorem constant_eq (h : Built m asked sent) {i : Nat} (hn : m.nodes[i]? = some n) (hl : l.is n) :
    m.constant? l.is = some (m.idAt i) := by
  cases hfind : m.nodes.findIdx? l.is with
  | none =>
    rw [Array.findIdx?_eq_none_iff] at hfind
    have := hfind n (Array.mem_of_getElem? hn)
    simp [hl] at this
  | some j =>
    obtain ⟨hj, hlj, -⟩ := Array.findIdx?_eq_some_iff_getElem.1 hfind
    obtain rfl := h.unique l i j n _ hn (Array.getElem?_eq_getElem hj) hl hlj
    rw [constant?, hfind, Option.map_some]

/-- A constant has the one argument that says which one it is. -/
theorem exists_literal (h : Built m asked sent) {i : Nat} (hn : m.nodes[i]? = some n)
    (hc : n.operator.isConstant) : ∃ l : Literal, n.operator = l.operator ∧ n.args = [l.arg] := by
  have hargs := (h.formed i n hn).args
  obtain ho | ho | ho := Operator.eq_of_isConstant hc <;> rw [ho] at hargs ⊢ <;>
    obtain ⟨a, ha, ht⟩ := hargs.single rfl rfl
  · cases a <;> first | exact ⟨.int _, rfl, ha⟩ | exact ht.elim
  · cases a <;> first | exact ⟨.float _, rfl, ha⟩ | exact ht.elim
  · cases a <;> first | exact ⟨.bool _, rfl, ha⟩ | exact ht.elim

end Built

end Model

end Scheduling
