import Mathlib.Data.List.Nodup
import Mathlib.Tactic.Common
import Scheduling.Model.Call

/-!
# The arena of a model

What the elementary steps of building do to the nodes of a model, position by position. A step
appends a node, numbers one, counts a use or changes what stands beside the nodes; apart from its
number and its uses no node ever changes, except when it is named (`Grows`).
-/

namespace Scheduling

theorem Arg.nodesOf_of_mem {a : Arg} {as : List Arg} (ha : a ∈ as) {x : NodeId} (hx : x ∈ a.nodes) :
    x ∈ nodesOf as := by
  induction as with
  | nil => exact nomatch ha
  | cons b rest ih =>
    obtain rfl | ha := List.mem_cons.1 ha
    · exact List.mem_append_left _ hx
    · exact List.mem_append_right _ (ih ha)

namespace Node

/-- The node without its number and its uses. -/
def bare (n : Node) : Node := { n with ref := none, uses := 0 }

theorem bare_eq_iff {n n' : Node} :
    n.bare = n'.bare ↔
      n.toAttributes = n'.toAttributes ∧ n.operator = n'.operator ∧ n.args = n'.args := by
  obtain ⟨⟨_, _, _, _⟩, _, _, _, _⟩ := n
  obtain ⟨⟨_, _, _, _⟩, _, _, _, _⟩ := n'
  simp only [bare, Node.mk.injEq, Attributes.mk.injEq, and_true]

theorem operator_eq_of_bare {n n' : Node} (h : n.bare = n'.bare) : n.operator = n'.operator :=
  (bare_eq_iff.1 h).2.1

theorem args_eq_of_bare {n n' : Node} (h : n.bare = n'.bare) : n.args = n'.args :=
  (bare_eq_iff.1 h).2.2

/-- The node without its number, its uses and its name. -/
def core (n : Node) : Node := { n with ref := none, uses := 0, name := none }

theorem core_eq_of_bare {n n' : Node} (h : n'.bare = n.bare) : n'.core = n.core :=
  (congrArg (fun n : Node => { n with name := none }) h :)

theorem operator_eq_of_core {n n' : Node} (h : n'.core = n.core) : n'.operator = n.operator :=
  (congrArg Node.operator h :)

theorem args_eq_of_core {n n' : Node} (h : n'.core = n.core) : n'.args = n.args :=
  (congrArg Node.args h :)

theorem values_eq_of_core {n n' : Node} (h : n'.core = n.core) : n'.values = n.values :=
  (congrArg (fun n : Node => n.values) h :)

theorem bounds_eq_of_core {n n' : Node} (h : n'.core = n.core) : n'.bounds = n.bounds :=
  (congrArg (fun n : Node => n.bounds) h :)

end Node

namespace Model

variable {m : Model} {id : NodeId} {i : Nat} {n : Node}

/-! ### Names of nodes -/

/-- The name is of a node of the model. -/
def Has (m : Model) (id : NodeId) : Prop := id.model = m.tag ∧ id.index < m.nodes.size

instance (m : Model) (id : NodeId) : Decidable (m.Has id) := inferInstanceAs (Decidable (_ ∧ _))

theorem Has.eq_idAt (h : m.Has id) : id = m.idAt id.index := by
  obtain ⟨k, i⟩ := id
  obtain ⟨rfl, _⟩ := h
  rfl

theorem has_idAt : m.Has (m.idAt i) ↔ i < m.nodes.size := by simp [Has, idAt]

theorem idAt_inj {j : Nat} : m.idAt i = m.idAt j ↔ i = j := by simp [idAt]

theorem node?_eq_some : m.node? id = some n ↔ id.model = m.tag ∧ m.nodes[id.index]? = some n := by
  unfold node?
  split <;> simp_all

theorem node?_idAt : m.node? (m.idAt i) = m.nodes[i]? := by simp [node?, idAt]

theorem Has.exists_node (h : m.Has id) : ∃ n, m.node? id = some n :=
  ⟨m.nodes.getInternal id.index h.2, node?_eq_some.2 ⟨h.1, Array.getElem?_eq_getElem h.2⟩⟩

theorem has_of_node? (h : m.node? id = some n) : m.Has id := by
  obtain ⟨h₁, h₂⟩ := node?_eq_some.1 h
  exact ⟨h₁, (Array.getElem?_eq_some_iff.1 h₂).1⟩

theorem lt_size_of_getElem? (h : m.nodes[i]? = some n) : i < m.nodes.size :=
  (Array.getElem?_eq_some_iff.1 h).1

theorem node_eq_ok : m.node id = .ok n ↔ m.node? id = some n := by
  unfold node
  split <;> simp_all

theorem ref?_eq_some {r : Nat} : m.ref? id = some r ↔ ∃ n, m.node? id = some n ∧ n.ref = some r := by
  simp [ref?, Option.bind_eq_some_iff]

theorem mem_ids : id ∈ m.ids ↔ m.Has id := by
  simp only [ids, List.mem_map, List.mem_range]
  constructor
  · rintro ⟨i, hi, rfl⟩
    exact has_idAt.2 hi
  · intro h
    exact ⟨id.index, h.2, h.eq_idAt.symm⟩

theorem nodup_ids : m.ids.Nodup :=
  List.Nodup.map_on (fun _ _ _ _ h => idAt_inj.1 h) List.nodup_range

/-! ### The nodes after a step -/

@[simp] theorem push_tag : (m.push n).tag = m.tag := rfl
@[simp] theorem push_name : (m.push n).name = m.name := rfl
@[simp] theorem push_refs : (m.push n).refs = m.refs := rfl
@[simp] theorem push_topLevel : (m.push n).topLevel = m.topLevel := rfl
@[simp] theorem push_objective : (m.push n).objective = m.objective := rfl
@[simp] theorem size_push : (m.push n).nodes.size = m.nodes.size + 1 := by simp [push]

theorem getElem?_push : (m.push n).nodes[i]? = if i = m.nodes.size then some n else m.nodes[i]? :=
  Array.getElem?_push

theorem getElem?_push_of_lt (h : i < m.nodes.size) : (m.push n).nodes[i]? = m.nodes[i]? := by
  rw [getElem?_push, if_neg (by omega)]

@[simp] theorem modify_tag (f : Node → Node) : (m.modify i f).tag = m.tag := rfl
@[simp] theorem modify_name (f : Node → Node) : (m.modify i f).name = m.name := rfl
@[simp] theorem modify_refs (f : Node → Node) : (m.modify i f).refs = m.refs := rfl
@[simp] theorem modify_topLevel (f : Node → Node) : (m.modify i f).topLevel = m.topLevel := rfl
@[simp] theorem modify_objective (f : Node → Node) : (m.modify i f).objective = m.objective := rfl
@[simp] theorem size_modify (f : Node → Node) : (m.modify i f).nodes.size = m.nodes.size := by
  simp [modify]

theorem getElem?_modify (f : Node → Node) {j : Nat} :
    (m.modify i f).nodes[j]? = if i = j then (m.nodes[j]?).map f else m.nodes[j]? := by
  simp only [modify, Array.getElem?_modify]

/-- What numbering a node does. -/
theorem materialize_cases (h : m.nodes[id.index]? = some n) :
    (n.ref.isSome ∧ m.materialize id = m) ∨
      (n.ref = none ∧ m.materialize id =
        { m.modify id.index (fun n => { n with ref := some m.refs.size }) with
          refs := m.refs.push id }) := by
  unfold materialize
  rw [h]
  cases hr : n.ref with
  | none => exact .inr ⟨rfl, by simp [hr]⟩
  | some r => exact .inl ⟨rfl, by simp [hr]⟩

theorem materialize_of_isSome (h : m.nodes[id.index]? = some n) (hr : n.ref.isSome) :
    m.materialize id = m := by
  obtain ⟨_, he⟩ | ⟨hn, _⟩ := materialize_cases h
  · exact he
  · simp [hn] at hr

theorem getElem?_materialize (j : Nat) :
    (m.materialize id).nodes[j]? = (m.nodes[j]?).map fun n =>
      if id.index = j then { n with ref := n.ref.or (some m.refs.size) } else n := by
  cases h : m.nodes[id.index]? with
  | none =>
    have he : m.materialize id = m := by simp [materialize, h]
    rw [he]
    by_cases hj : id.index = j
    · simp [← hj, h]
    · simp [hj]
  | some n =>
    obtain ⟨hs, he⟩ | ⟨hnone, he⟩ := materialize_cases h
    · rw [he]
      by_cases hj : id.index = j
      · obtain ⟨r, hr⟩ := Option.isSome_iff_exists.1 hs
        simp [← hj, h, hr]
        rw [← hr]
      · simp [hj]
    · rw [he]
      show (m.modify id.index _).nodes[j]? = _
      rw [getElem?_modify]
      by_cases hj : id.index = j
      · simp [← hj, h, hnone]
      · simp [hj]

/-- A count of one more use. -/
def counted (m : Model) (id : NodeId) : Model :=
  m.modify id.index fun n => { n with uses := n.uses + 1 }

theorem getElem?_counted (j : Nat) :
    (m.counted id).nodes[j]? =
      (m.nodes[j]?).map fun n => { n with uses := n.uses + if id.index = j then 1 else 0 } := by
  rw [counted, getElem?_modify]
  split <;> simp

/-- The model with another name for a node. -/
def renamed (m : Model) (id : NodeId) (name : String) : Model :=
  m.modify id.index fun n => { n with name := some name }

theorem getElem?_renamed (name : String) (j : Nat) :
    (m.renamed id name).nodes[j]? =
      (m.nodes[j]?).map fun n => if id.index = j then { n with name := some name } else n := by
  rw [renamed, getElem?_modify]
  split <;> simp

/-- A use counts one more, and numbers the node from the second one on. -/
theorem use_cases (h : m.nodes[id.index]? = some n) :
    (n.uses = 0 ∧ m.use id = m.counted id) ∨
      (1 ≤ n.uses ∧ m.use id = (m.counted id).materialize id) := by
  have hc : (m.counted id).nodes[id.index]? = some { n with uses := n.uses + 1 } := by
    simp [getElem?_counted, h]
  have hu : m.use id =
      if ((m.counted id).nodes[id.index]?).any (fun n => 2 ≤ n.uses) then
        (m.counted id).materialize id else m.counted id := rfl
  rw [hu, hc]
  by_cases h1 : n.uses = 0
  · exact .inl ⟨h1, by simp [h1]⟩
  · exact .inr ⟨by omega, by simp; omega⟩

theorem getElem?_use (hid : m.Has id) (j : Nat) :
    (m.use id).nodes[j]? = (m.nodes[j]?).map fun n =>
      if id.index = j then
        { n with uses := n.uses + 1, ref := if n.uses = 0 then n.ref else n.ref.or (some m.refs.size) }
      else n := by
  obtain ⟨n, hn⟩ := hid.exists_node
  have hn := (node?_eq_some.1 hn).2
  obtain ⟨hu, he⟩ | ⟨hu, he⟩ := use_cases hn
  · rw [he, getElem?_counted]
    by_cases hj : id.index = j
    · simp [← hj, hn, hu]
    · simp [hj]
  · rw [he, getElem?_materialize, getElem?_counted]
    by_cases hj : id.index = j
    · have : n.uses ≠ 0 := by omega
      simp [← hj, hn, this]
      rfl
    · simp [hj]

/-! ### What stays -/

@[simp] theorem materialize_tag : (m.materialize id).tag = m.tag := by
  unfold materialize
  split <;> [split; skip] <;> rfl

@[simp] theorem materialize_name : (m.materialize id).name = m.name := by
  unfold materialize
  split <;> [split; skip] <;> rfl

@[simp] theorem materialize_topLevel : (m.materialize id).topLevel = m.topLevel := by
  unfold materialize
  split <;> [split; skip] <;> rfl

@[simp] theorem materialize_objective : (m.materialize id).objective = m.objective := by
  unfold materialize
  split <;> [split; skip] <;> rfl

@[simp] theorem size_materialize : (m.materialize id).nodes.size = m.nodes.size := by
  unfold materialize
  split <;> [split; skip] <;> simp

/-- A use leaves everything but the nodes and the numbers as it is. -/
theorem use_frame (m : Model) (id : NodeId) : (m.use id).tag = m.tag ∧ (m.use id).name = m.name ∧
    (m.use id).topLevel = m.topLevel ∧ (m.use id).objective = m.objective ∧
    (m.use id).nodes.size = m.nodes.size := by
  have hu : m.use id =
      if ((m.counted id).nodes[id.index]?).any (fun n => 2 ≤ n.uses) then
        (m.counted id).materialize id else m.counted id := rfl
  rw [hu]
  split <;> simp [counted]

theorem uses_frame (ids : List NodeId) : (ids.foldl use m).tag = m.tag ∧
    (ids.foldl use m).name = m.name ∧ (ids.foldl use m).topLevel = m.topLevel ∧
    (ids.foldl use m).objective = m.objective ∧
    (ids.foldl use m).nodes.size = m.nodes.size := by
  induction ids generalizing m with
  | nil => exact ⟨rfl, rfl, rfl, rfl, rfl⟩
  | cons id ids ih =>
    have h := ih (m := m.use id)
    obtain ⟨ht, hn, htop, ho, hs⟩ := use_frame m id
    rwa [ht, hn, htop, ho, hs] at h

/-! ### Growth -/

/-- The nodes of a model stand in a later one: they keep all but their uses, which never decrease,
and those with a number keep it. -/
structure Grows (m m' : Model) : Prop where
  tag : m'.tag = m.tag
  node : ∀ {i : Nat} {n : Node}, m.nodes[i]? = some n → ∃ n', m'.nodes[i]? = some n' ∧
    n'.bare = n.bare ∧ (∀ r, n.ref = some r → n'.ref = some r) ∧ n.uses ≤ n'.uses

namespace Grows

variable {m m' m'' : Model} {id : NodeId} {n : Node}

theorem refl (m : Model) : Grows m m := ⟨rfl, fun h => ⟨_, h, rfl, fun _ hr => hr, Nat.le_refl _⟩⟩

theorem trans (h : Grows m m') (h' : Grows m' m'') : Grows m m'' := by
  refine ⟨h'.tag.trans h.tag, fun hn => ?_⟩
  obtain ⟨n', hn', hb', hr', hu'⟩ := h.node hn
  obtain ⟨n'', hn'', hb'', hr'', hu''⟩ := h'.node hn'
  exact ⟨n'', hn'', hb''.trans hb', fun r hr => hr'' r (hr' r hr), Nat.le_trans hu' hu''⟩

theorem node? (h : Grows m m') (hn : m.node? id = some n) :
    ∃ n', m'.node? id = some n' ∧ n'.bare = n.bare ∧ (∀ r, n.ref = some r → n'.ref = some r) ∧
      n.uses ≤ n'.uses := by
  obtain ⟨ht, hi⟩ := node?_eq_some.1 hn
  obtain ⟨n', hn', h'⟩ := h.node hi
  exact ⟨n', node?_eq_some.2 ⟨ht.trans h.tag.symm, hn'⟩, h'⟩

theorem has (h : Grows m m') (hid : m.Has id) : m'.Has id := by
  obtain ⟨n, hn⟩ := hid.exists_node
  obtain ⟨n', hn', _⟩ := h.node? hn
  exact has_of_node? hn'

theorem size_le (h : Grows m m') : m.nodes.size ≤ m'.nodes.size := by
  by_contra hlt
  obtain ⟨n, hn⟩ := (has_idAt (m := m)).2 (show m.nodes.size - 1 < m.nodes.size by omega) |>.exists_node
  obtain ⟨n', hn', _⟩ := h.node? hn
  have := (has_of_node? hn').2
  simp only [idAt] at this
  omega

/-- Without new nodes, every node of the later model stands in the earlier one. -/
theorem node_back (h : Grows m m') (hs : m'.nodes.size = m.nodes.size) {i : Nat} {n' : Node}
    (hn' : m'.nodes[i]? = some n') : ∃ n, m.nodes[i]? = some n ∧ n'.bare = n.bare := by
  have hi := lt_size_of_getElem? hn'
  obtain ⟨n'', hn'', hb, -⟩ := h.node (Array.getElem?_eq_getElem (hs ▸ hi))
  obtain rfl : n' = n'' := Option.some.inj (hn'.symm.trans hn'')
  exact ⟨_, Array.getElem?_eq_getElem (hs ▸ hi), hb⟩

end Grows

theorem grows_push : Grows m (m.push n) := by
  refine ⟨rfl, fun {i n'} h => ⟨n', ?_, rfl, fun _ hr => hr, Nat.le_refl _⟩⟩
  rw [getElem?_push_of_lt (lt_size_of_getElem? h), h]

theorem grows_counted : Grows m (m.counted id) := by
  refine ⟨rfl, fun {i n} h => ?_⟩
  refine ⟨{ n with uses := n.uses + if id.index = i then 1 else 0 }, ?_, rfl, fun _ hr => hr, ?_⟩
  · rw [getElem?_counted, h, Option.map_some]
  · exact Nat.le_add_right _ _

theorem grows_materialize : Grows m (m.materialize id) := by
  cases h : m.nodes[id.index]? with
  | none => simpa [materialize, h] using Grows.refl m
  | some n₀ =>
    obtain ⟨_, he⟩ | ⟨hr, he⟩ := materialize_cases h
    · rw [he]; exact .refl m
    · rw [he]
      refine ⟨rfl, fun {i n} hi => ?_⟩
      by_cases hi' : id.index = i
      · subst hi'
        obtain rfl : n₀ = n := Option.some.inj (h.symm.trans hi)
        refine ⟨{ n₀ with ref := some m.refs.size }, ?_, rfl, by simp [hr], Nat.le_refl _⟩
        simp [getElem?_modify, h]
      · exact ⟨n, by simpa [getElem?_modify, hi'] using hi, rfl, fun _ h => h, Nat.le_refl _⟩

theorem grows_use : Grows m (m.use id) := by
  cases h : m.nodes[id.index]? with
  | none =>
    have hc : (m.counted id).nodes[id.index]? = none := by simp [getElem?_counted, h]
    have : m.use id = m.counted id := by
      show (if ((m.counted id).nodes[id.index]?).any _ then _ else m.counted id) = _
      simp [hc]
    exact this ▸ grows_counted
  | some n =>
    obtain ⟨_, he⟩ | ⟨_, he⟩ := use_cases h
    · exact he ▸ grows_counted
    · exact he ▸ grows_counted.trans grows_materialize

theorem grows_uses (ids : List NodeId) : Grows m (ids.foldl use m) := by
  induction ids generalizing m with
  | nil => exact .refl m
  | cons id ids ih => exact grows_use.trans ih

/-- What is kept when one more of the nodes that are due is used holds when all are used. -/
theorem uses_induction {P : List NodeId → Model → Prop} {ids : List NodeId} (h : P ids m)
    (hids : ∀ id ∈ ids, m.Has id)
    (step : ∀ m id due, P (id :: due) m → m.Has id → P due (m.use id)) :
    P [] (ids.foldl use m) := by
  induction ids generalizing m with
  | nil => exact h
  | cons id ids ih =>
    refine ih (step m id ids h (hids id List.mem_cons_self)) fun x hx => ?_
    exact grows_use.has (hids x (List.mem_cons_of_mem _ hx))

theorem grows_addTopLevel : Grows m (m.addTopLevel id) := by
  have h : Grows m { m with topLevel := m.topLevel.push id } :=
    ⟨rfl, fun h => ⟨_, h, rfl, fun _ hr => hr, Nat.le_refl _⟩⟩
  exact h.trans grows_use

end Model

end Scheduling
