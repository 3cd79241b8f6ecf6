import Mathlib.Algebra.GroupWithZero.Nat
import Scheduling.Proofs.Arena.Basic

/-!
# Coherence of the arena

Three properties of a model that every step of building keeps: operands stand before the nodes that
use them and all uses are counted (`Counted`), numbers and the list of numbered nodes are inverse to
each other (`Numbered`), and a node has a number exactly when it is used twice or was marked for one
(`Marked`). Between the elementary steps of one call some uses may still be due.
-/

namespace Scheduling

namespace Model

variable {m m' : Model} {id : NodeId} {i : Nat} {n : Node} {due : List NodeId} {marked : Nat → Prop}

/-! ### Occurrences -/

/-- How often a node stands among the operands of nodes and among the constraints. -/
def occurrences (m : Model) (id : NodeId) : Nat :=
  (m.nodes.toList.map fun n => n.operands.count id).sum + m.topLevel.toList.count id

theorem occurrences_push : (m.push n).occurrences id = m.occurrences id + n.operands.count id := by
  simp only [occurrences, push, Array.toList_push, List.map_append, List.sum_append, List.map_cons,
    List.map_nil, List.sum_cons, List.sum_nil]
  omega

theorem occurrences_pushTopLevel (top : NodeId) :
    ({ m with topLevel := m.topLevel.push top } : Model).occurrences id =
      m.occurrences id + [top].count id := by
  simp only [occurrences, Array.toList_push, List.count_append]
  omega

theorem map_operands_modify {f : Node → Node} (hf : ∀ n, (f n).operands = n.operands) :
    (m.modify i f).nodes.toList.map Node.operands = m.nodes.toList.map Node.operands := by
  refine List.ext_getElem? fun j => ?_
  simp only [List.getElem?_map, Array.getElem?_toList, getElem?_modify]
  split
  · cases m.nodes[j]? <;> simp [hf]
  · rfl

/-- Only operands and constraints count. -/
theorem occurrences_congr (ho : m'.nodes.toList.map Node.operands = m.nodes.toList.map Node.operands)
    (ht : m'.topLevel = m.topLevel) : m'.occurrences id = m.occurrences id := by
  have h := congrArg (fun l => (l.map fun ids : List NodeId => ids.count id).sum) ho
  simp only [List.map_map, Function.comp_def] at h
  simp [occurrences, h, ht]

theorem occurrences_modify {f : Node → Node} (hf : ∀ n, (f n).operands = n.operands) :
    (m.modify i f).occurrences id = m.occurrences id :=
  occurrences_congr (map_operands_modify hf) rfl

/-! ### Operands and uses -/

/-- Operands stand before the nodes that use them, constraints are nodes of the model, and every use
is counted, except those that are due. -/
structure Counted (m : Model) (due : List NodeId) : Prop where
  operand : ∀ {i : Nat} {n : Node}, m.nodes[i]? = some n →
    ∀ id ∈ n.operands, id.model = m.tag ∧ id.index < i
  topLevel : ∀ id ∈ m.topLevel, m.Has id
  uses : ∀ {i : Nat} {n : Node}, m.nodes[i]? = some n →
    n.uses + due.count (m.idAt i) = m.occurrences (m.idAt i)

namespace Counted

theorem operand_has (h : Counted m due) (hn : m.nodes[i]? = some n) (hid : id ∈ n.operands) :
    m.Has id :=
  ⟨(h.operand hn id hid).1, Nat.lt_trans (h.operand hn id hid).2 (lt_size_of_getElem? hn)⟩

theorem occurrences_eq_zero (h : Counted m due) (hid : ¬ m.Has id) : m.occurrences id = 0 := by
  have hops : ∀ n ∈ m.nodes.toList, n.operands.count id = 0 := by
    intro n hn
    obtain ⟨i, hi⟩ := List.mem_iff_getElem?.1 hn
    rw [Array.getElem?_toList] at hi
    exact List.count_eq_zero.2 fun hmem => hid (h.operand_has hi hmem)
  have htop : m.topLevel.toList.count id = 0 :=
    List.count_eq_zero.2 fun hmem => hid (h.topLevel id (Array.mem_toList_iff.1 hmem))
  rw [occurrences, htop, Nat.add_zero, List.sum_eq_zero_iff_forall_eq_nat]
  intro x hx
  obtain ⟨n, hn, rfl⟩ := List.mem_map.1 hx
  exact hops n hn

/-- A new node's uses of its operands are due. -/
theorem push (h : Counted m []) (hn : ∀ id ∈ n.operands, m.Has id) (hu : n.uses = 0) :
    Counted (m.push n) n.operands := by
  refine ⟨fun {i n'} hi id hid => ?_, fun id hid => ?_, fun {i n'} hi => ?_⟩
  · rw [getElem?_push] at hi
    split at hi
    · obtain rfl := Option.some.inj hi
      have := hn id hid
      exact ⟨this.1, by have := this.2; omega⟩
    · exact h.operand hi id hid
  · have := h.topLevel id hid
    exact ⟨this.1, by have := this.2; simp; omega⟩
  · show n'.uses + n.operands.count (m.idAt i) = (m.push n).occurrences (m.idAt i)
    rw [occurrences_push]
    rw [getElem?_push] at hi
    split at hi
    · obtain rfl := Option.some.inj hi
      rw [h.occurrences_eq_zero (by rw [has_idAt]; omega), hu]
    · have := h.uses hi
      simp only [List.count_nil] at this
      omega

/-- Only operands, uses and constraints matter. -/
theorem congr (h : Counted m due) (ht : m'.tag = m.tag) (htop : m'.topLevel = m.topLevel)
    (hn : ∀ i : Nat, (m'.nodes[i]?).map (fun n => (n.operands, n.uses)) =
      (m.nodes[i]?).map fun n => (n.operands, n.uses)) : Counted m' due := by
  have hid (i : Nat) : m'.idAt i = m.idAt i := by simp [idAt, ht]
  have hops : m'.nodes.toList.map Node.operands = m.nodes.toList.map Node.operands := by
    refine List.ext_getElem? fun j => ?_
    have := congrArg (Option.map Prod.fst) (hn j)
    simpa only [Option.map_map, Function.comp_def, List.getElem?_map, Array.getElem?_toList] using this
  have hhas {id : NodeId} (hm : m.Has id) : m'.Has id := by
    have : m'.nodes.size = m.nodes.size := by simpa using congrArg List.length hops
    exact ⟨hm.1.trans ht.symm, this ▸ hm.2⟩
  have hback {i : Nat} {n' : Node} (hi : m'.nodes[i]? = some n') :
      ∃ n, m.nodes[i]? = some n ∧ n'.operands = n.operands ∧ n'.uses = n.uses := by
    have := hn i
    rw [hi, Option.map_some, eq_comm, Option.map_eq_some_iff] at this
    obtain ⟨n, hn, he⟩ := this
    exact ⟨n, hn, (Prod.ext_iff.1 he.symm).1, (Prod.ext_iff.1 he.symm).2⟩
  refine ⟨fun hi id hid' => ?_, fun id hid' => hhas (h.topLevel id (htop ▸ hid')), fun hi => ?_⟩
  · obtain ⟨n, hn, ho, -⟩ := hback hi
    rw [ht]
    exact h.operand hn id (ho ▸ hid')
  · obtain ⟨n, hn, -, hu⟩ := hback hi
    rw [hid, occurrences_congr hops htop, hu]
    exact h.uses hn

theorem modify {f : Node → Node} (h : Counted m due) (hf : ∀ n, (f n).operands = n.operands)
    (hu : ∀ n, (f n).uses = n.uses) : Counted (m.modify i f) due := by
  refine h.congr rfl rfl fun j => ?_
  rw [getElem?_modify]
  split
  · cases m.nodes[j]? <;> simp [hf, hu]
  · rfl

theorem materialize (h : Counted m due) (id : NodeId) : Counted (m.materialize id) due := by
  cases hn : m.nodes[id.index]? with
  | none => simpa [Model.materialize, hn] using h
  | some n =>
    obtain ⟨-, he⟩ | ⟨-, he⟩ := materialize_cases hn
    · exact he.symm ▸ h
    · rw [he]
      have := h.modify (i := id.index) (f := fun n => { n with ref := some m.refs.size })
        (fun _ => rfl) fun _ => rfl
      exact this.congr rfl rfl fun _ => rfl

/-- A use that is due is counted. -/
theorem counted (h : Counted m (id :: due)) (hid : id.model = m.tag) :
    Counted (m.counted id) due := by
  have hsame : (m.counted id).nodes.toList.map Node.operands = m.nodes.toList.map Node.operands :=
    map_operands_modify fun _ => rfl
  refine ⟨fun {i n'} hi => ?_, fun x hx => ?_, fun {i n'} hi => ?_⟩
  · rw [getElem?_counted, Option.map_eq_some_iff] at hi
    obtain ⟨n, hn, rfl⟩ := hi
    exact fun x hx => h.operand hn x hx
  · exact grows_counted.has (h.topLevel x hx)
  · rw [getElem?_counted, Option.map_eq_some_iff] at hi
    obtain ⟨n, hn, rfl⟩ := hi
    have hu := h.uses hn
    rw [occurrences_congr hsame rfl]
    show n.uses + (if id.index = i then 1 else 0) + due.count (m.idAt i) = m.occurrences (m.idAt i)
    rw [List.count_cons] at hu
    have hiff : (id == m.idAt i) = true ↔ id.index = i := by
      obtain ⟨k, j⟩ := id
      simp_all [idAt]
    simp only [hiff] at hu
    omega

theorem use (h : Counted m (id :: due)) (hid : m.Has id) : Counted (m.use id) due := by
  obtain ⟨n, hn⟩ := hid.exists_node
  have hc := h.counted hid.1
  obtain ⟨-, he⟩ | ⟨-, he⟩ := use_cases (node?_eq_some.1 hn).2
  · exact he ▸ hc
  · exact he ▸ hc.materialize id

theorem uses_all {ids : List NodeId} (h : Counted m (ids ++ due)) (hids : ∀ id ∈ ids, m.Has id) :
    Counted (ids.foldl Model.use m) due :=
  uses_induction (P := fun ids m => Counted m (ids ++ due)) h hids fun _ _ _ h hid => h.use hid

theorem pushTopLevel (h : Counted m due) (hid : m.Has id) :
    Counted { m with topLevel := m.topLevel.push id } (id :: due) := by
  refine ⟨h.operand, fun x hx => ?_, fun {i n} hi => ?_⟩
  · obtain hx | rfl := Array.mem_push.1 hx
    · exact h.topLevel x hx
    · exact hid
  · have hu := h.uses hi
    rw [occurrences_pushTopLevel]
    show n.uses + (id :: due).count (m.idAt i) = m.occurrences (m.idAt i) + [id].count (m.idAt i)
    rw [List.count_cons, List.count_singleton]
    omega

theorem addTopLevel (h : Counted m due) (hid : m.Has id) : Counted (m.addTopLevel id) due :=
  (h.pushTopLevel hid).use hid

end Counted

/-! ### Numbers -/

/-- The list of numbered nodes and the numbers of nodes say the same. -/
def Numbered (m : Model) : Prop := ∀ (r : Nat) (id : NodeId), m.refs[r]? = some id ↔ m.ref? id = some r

theorem ref?_modify {f : Node → Node} (hf : ∀ n, (f n).ref = n.ref) :
    (m.modify i f).ref? id = m.ref? id := by
  simp only [ref?, node?, modify_tag, getElem?_modify]
  split
  · split
    · cases m.nodes[id.index]? <;> simp [hf]
    · rfl
  · rfl

theorem ref?_push (hr : n.ref = none) : (m.push n).ref? id = m.ref? id := by
  simp only [ref?, node?, push_tag, getElem?_push]
  split
  · split
    · have : m.nodes[id.index]? = none := Array.getElem?_eq_none (by omega)
      simp [this, hr]
    · rfl
  · rfl

theorem ref?_materialize (hid : m.Has id) (x : NodeId) :
    (m.materialize id).ref? x = if x = id then (m.ref? id).or (some m.refs.size) else m.ref? x := by
  obtain ⟨n, hn⟩ := hid.exists_node
  obtain ⟨ht, hi⟩ := node?_eq_some.1 hn
  have href : m.ref? id = n.ref := by simp [ref?, hn]
  obtain ⟨hs, he⟩ | ⟨hnone, he⟩ := materialize_cases hi
  · rw [he]
    split
    · subst x
      rw [href, Option.or_of_isSome hs]
    · rfl
  · rw [he]
    split
    · subst x
      simp [ref?, node?, ht, getElem?_modify, hi, hnone]
    · have hx : x.model = m.tag → id.index ≠ x.index := by
        intro hm hx'
        obtain ⟨k, j⟩ := id
        obtain ⟨k', j'⟩ := x
        simp_all
      simp only [ref?, node?, modify_tag, getElem?_modify]
      split
      · rw [if_neg (hx ‹_›)]
      · rfl

theorem refs_materialize (hid : m.Has id) :
    (m.materialize id).refs = if (m.ref? id).isSome then m.refs else m.refs.push id := by
  obtain ⟨n, hn⟩ := hid.exists_node
  have href : m.ref? id = n.ref := by simp [ref?, hn]
  obtain ⟨hs, he⟩ | ⟨hnone, he⟩ := materialize_cases (node?_eq_some.1 hn).2
  · rw [he, href, if_pos hs]
  · rw [he, href, hnone]
    rfl

namespace Numbered

theorem congr (h : Numbered m) (hr : m'.refs = m.refs) (hn : ∀ id, m'.ref? id = m.ref? id) :
    Numbered m' := fun r id => by rw [hr, hn]; exact h r id

theorem push (h : Numbered m) (hr : n.ref = none) : Numbered (m.push n) :=
  h.congr rfl fun _ => ref?_push hr

theorem modify {f : Node → Node} (h : Numbered m) (hf : ∀ n, (f n).ref = n.ref) :
    Numbered (m.modify i f) := h.congr rfl fun _ => ref?_modify hf

theorem ref_lt (h : Numbered m) {r : Nat} (hr : m.ref? id = some r) : r < m.refs.size :=
  (Array.getElem?_eq_some_iff.1 ((h r id).2 hr)).1

theorem materialize (h : Numbered m) (hid : m.Has id) : Numbered (m.materialize id) := by
  intro r x
  rw [refs_materialize hid, ref?_materialize hid]
  cases href : m.ref? id with
  | some r' =>
    rw [if_pos (Option.isSome_some ..)]
    split
    · subst x
      simpa [href] using h r id
    · exact h r x
  | none =>
    rw [if_neg (by simp), Array.getElem?_push]
    by_cases hr : r = m.refs.size
    · subst hr
      rw [if_pos rfl]
      by_cases hx : x = id
      · simp [hx]
      · rw [if_neg hx]
        refine ⟨fun he => absurd (Option.some.inj he).symm hx, fun he => ?_⟩
        exact absurd (h.ref_lt he) (Nat.lt_irrefl _)
    · rw [if_neg hr]
      by_cases hx : x = id
      · subst x
        rw [if_pos rfl, h r id, href]
        simp [eq_comm, hr]
      · rw [if_neg hx, h r x]

theorem use (h : Numbered m) (hid : m.Has id) : Numbered (m.use id) := by
  obtain ⟨n, hn⟩ := hid.exists_node
  have hc : Numbered (m.counted id) := h.modify fun _ => rfl
  obtain ⟨-, he⟩ | ⟨-, he⟩ := use_cases (node?_eq_some.1 hn).2
  · exact he ▸ hc
  · exact he ▸ hc.materialize (grows_counted.has hid)

theorem uses_all {ids : List NodeId} (h : Numbered m) (hids : ∀ id ∈ ids, m.Has id) :
    Numbered (ids.foldl Model.use m) :=
  uses_induction (P := fun _ m => Numbered m) h hids fun _ _ _ h hid => h.use hid

theorem addTopLevel (h : Numbered m) (hid : m.Has id) : Numbered (m.addTopLevel id) :=
  have h' : Numbered { m with topLevel := m.topLevel.push id } := h
  h'.use hid

end Numbered

/-! ### Marks -/

/-- A node has a number when it is used twice or marked, and only then. -/
def Marked (m : Model) (marked : Nat → Prop) : Prop :=
  ∀ (i : Nat) (n : Node), m.nodes[i]? = some n → (n.ref.isSome ↔ 2 ≤ n.uses ∨ marked i)

namespace Marked

theorem congr {marked' : Nat → Prop} (h : Marked m marked)
    (he : ∀ i < m.nodes.size, marked' i ↔ marked i) : Marked m marked' := by
  intro i n hn
  rw [h i n hn, he i (lt_size_of_getElem? hn)]

theorem push (h : Marked m marked) (hm : ¬ marked m.nodes.size) (hr : n.ref = none)
    (hu : n.uses = 0) : Marked (m.push n) marked := by
  intro i n' hi
  rw [getElem?_push] at hi
  split at hi
  · obtain rfl := Option.some.inj hi
    subst i
    simp [hr, hu, hm]
  · exact h i n' hi

theorem modify {f : Node → Node} (h : Marked m marked) (hr : ∀ n, (f n).ref = n.ref)
    (hu : ∀ n, (f n).uses = n.uses) : Marked (m.modify i f) marked := by
  intro j n' hj
  rw [getElem?_modify] at hj
  split at hj
  · obtain ⟨n, hn, rfl⟩ := Option.map_eq_some_iff.1 hj
    rw [hr, hu]
    exact h j n hn
  · exact h j n' hj

/-- Numbering marks. -/
theorem materialize (h : Marked m marked) (id : NodeId) :
    Marked (m.materialize id) fun i => marked i ∨ i = id.index := by
  intro i n' hi
  rw [getElem?_materialize, Option.map_eq_some_iff] at hi
  obtain ⟨n, hn, rfl⟩ := hi
  by_cases hid : id.index = i
  · subst hid
    cases n.ref <;> simp
  · have hid' : i ≠ id.index := fun he => hid he.symm
    simpa [hid, hid'] using h i n hn

/-- A second use numbers, so no mark is needed. -/
theorem use (h : Marked m marked) (hid : m.Has id) : Marked (m.use id) marked := by
  intro i n' hi
  rw [getElem?_use hid, Option.map_eq_some_iff] at hi
  obtain ⟨n, hn, rfl⟩ := hi
  have hmark := h i n hn
  by_cases hid : id.index = i
  · rw [if_pos hid]
    by_cases hu : n.uses = 0
    · simpa [hu] using hmark
    · have : 2 ≤ n.uses + 1 := by omega
      cases n.ref <;> simp [hu, this]
  · rwa [if_neg hid]

theorem uses_all {ids : List NodeId} (h : Marked m marked) (hids : ∀ id ∈ ids, m.Has id) :
    Marked (ids.foldl Model.use m) marked :=
  uses_induction (P := fun _ m => Marked m marked) h hids fun _ _ _ h hid => h.use hid

theorem addTopLevel (h : Marked m marked) (hid : m.Has id) : Marked (m.addTopLevel id) marked :=
  have h' : Marked { m with topLevel := m.topLevel.push id } marked := h
  h'.use hid

end Marked

/-! ### A new node -/

/-- The model after a node has joined it and uses its operands. -/
def extend (m : Model) (n : Node) : Model :=
  let used := n.operands.foldl use (m.push n)
  let numbered :=
    if n.operator.isVariable then used.materialize (m.idAt m.nodes.size) else used
  if n.operator.isConstraint then numbered.addTopLevel (m.idAt m.nodes.size) else numbered

theorem grows_extend : Grows (m.push n) (m.extend n) := by
  have hu := grows_uses (m := m.push n) n.operands
  unfold extend
  split <;> split
  · exact (hu.trans grows_materialize).trans grows_addTopLevel
  · exact hu.trans grows_materialize
  · exact hu.trans grows_addTopLevel
  · exact hu

/-- A new node leaves the rest of the model as it is, but for the constraints. -/
theorem extend_frame : (m.extend n).tag = m.tag ∧ (m.extend n).name = m.name ∧
    (m.extend n).objective = m.objective ∧ (m.extend n).nodes.size = m.nodes.size + 1 ∧
    (m.extend n).topLevel =
      if n.operator.isConstraint then m.topLevel.push (m.idAt m.nodes.size) else m.topLevel := by
  obtain ⟨ht, hname, htop, ho, hs⟩ := uses_frame (m := m.push n) n.operands
  have htopLevel (m : Model) (id : NodeId) : (m.addTopLevel id).tag = m.tag ∧
      (m.addTopLevel id).name = m.name ∧ (m.addTopLevel id).objective = m.objective ∧
      (m.addTopLevel id).nodes.size = m.nodes.size ∧
      (m.addTopLevel id).topLevel = m.topLevel.push id := by
    obtain ⟨ht, hname, htop, ho, hs⟩ :=
      use_frame { m with topLevel := m.topLevel.push id } id
    exact ⟨ht, hname, ho, hs, htop⟩
  unfold extend
  split <;> split <;> simp_all

/-- A new node keeps its operands before it and counts its uses of them. -/
theorem Counted.extend (h : Counted m []) (hn : ∀ id ∈ n.operands, m.Has id) (hu : n.uses = 0) :
    Counted (m.extend n) [] := by
  have hpush := h.push hn hu
  have hops : ∀ id ∈ n.operands, (m.push n).Has id := fun id hid => grows_push.has (hn id hid)
  have hused : Counted (n.operands.foldl Model.use (m.push n)) [] :=
    Counted.uses_all (by rwa [List.append_nil]) hops
  have hnew : (m.push n).Has (m.idAt m.nodes.size) := ⟨rfl, by simp [idAt]⟩
  have hnew' := (grows_uses n.operands).has hnew
  unfold Model.extend
  split <;> split
  · exact (hused.materialize _).addTopLevel (grows_materialize.has hnew')
  · exact hused.materialize _
  · exact hused.addTopLevel hnew'
  · exact hused

theorem Numbered.extend (h : Numbered m) (hn : ∀ id ∈ n.operands, m.Has id) (hr : n.ref = none) :
    Numbered (m.extend n) := by
  have hops : ∀ id ∈ n.operands, (m.push n).Has id := fun id hid => grows_push.has (hn id hid)
  have hused : Numbered (n.operands.foldl Model.use (m.push n)) := (h.push hr).uses_all hops
  have hnew : (m.push n).Has (m.idAt m.nodes.size) := ⟨rfl, by simp [idAt]⟩
  have hnew' := (grows_uses n.operands).has hnew
  unfold Model.extend
  split <;> split
  · exact (hused.materialize hnew').addTopLevel (grows_materialize.has hnew')
  · exact hused.materialize hnew'
  · exact hused.addTopLevel hnew'
  · exact hused

/-- A new variable is marked. -/
theorem Marked.extend (h : Marked m marked) (hm : ¬ marked m.nodes.size)
    (hn : ∀ id ∈ n.operands, m.Has id) (hr : n.ref = none) (hu : n.uses = 0) :
    Marked (m.extend n) fun i => marked i ∨ (i = m.nodes.size ∧ n.operator.isVariable) := by
  have hops : ∀ id ∈ n.operands, (m.push n).Has id := fun id hid => grows_push.has (hn id hid)
  have hused : Marked (n.operands.foldl Model.use (m.push n)) marked :=
    (h.push hm hr hu).uses_all hops
  have hnew : (m.push n).Has (m.idAt m.nodes.size) := ⟨rfl, by simp [idAt]⟩
  have hnew' := (grows_uses n.operands).has hnew
  unfold Model.extend
  split <;> split <;> rename_i hv _ <;> simp [hv]
  · exact (hused.materialize _).addTopLevel (grows_materialize.has hnew')
  · exact hused.materialize _
  · exact hused.addTopLevel hnew'
  · exact hused

end Model

end Scheduling
