import Mathlib.Data.List.Forall2
import Scheduling.Listing.Execute
import Scheduling.Proofs.Arena.History
import Scheduling.Proofs.Floats

/-!
# Rebuilt models

When a model is rebuilt from another one (`Model.Rebuilt`): the nodes that are no constants are the
same ones in the same order, where arguments are compared by number if they are constants and by
their place otherwise (`Model.SameItem`). What is the same stays so while the second model grows.
-/

namespace Scheduling

/-- A number, written out or the value of a constant. A truth value is 0 or 1. -/
inductive Number where
  | int (v : Int)
  | float (x : Float)
deriving DecidableEq

namespace Literal

/-- The number of a constant. -/
def number : Literal → Number
  | int v => .int v
  | float x => .float x
  | bool b => .int (ofTruth b)

/-- The value as it stands in a listing. -/
def term : Literal → Listing.Term
  | int v => .int v
  | float x => .float x
  | bool b => .bool b

/-- The value as an operand. -/
def operand : Literal → Listing.Operand
  | int v => .int v
  | float x => .float x
  | bool b => .bool b

end Literal

/-- The value of a constant. -/
def Node.literal? (n : Node) : Option Literal :=
  match n.operator, n.args with
  | .intConst, .int v :: _ => some (.int v)
  | .floatConst, .float x :: _ => some (.float x)
  | .boolConst, .bool b :: _ => some (.bool b)
  | _, _ => none

namespace Model

/-! ### What is the same -/

/-- The value of a node that is a constant. -/
def literal? (m : Model) (id : NodeId) : Option Literal := (m.node? id).bind Node.literal?

/-- The number that an argument is, or that it names. -/
def number? (m : Model) : Arg → Option Number
  | .int v => some (.int v)
  | .float x => some (.float x)
  | .bool b => some (.int (ofTruth b))
  | .node id => (m.literal? id).map Literal.number
  | .list _ => none

/-- Whether a node of the model is no constant. -/
def binds (m : Model) (id : NodeId) : Bool := (m.node? id).any fun n => !n.operator.isConstant

/-- The nodes that are no constants, in the order built: those that a listing binds. -/
def boundIds (m : Model) : List NodeId := m.ids.filter m.binds

/-- Two nodes have the same place among the nodes that are no constants. -/
def Peers (m m' : Model) (x y : NodeId) : Prop :=
  ∃ j : Nat, m.boundIds[j]? = some x ∧ m'.boundIds[j]? = some y

/-- Two arguments that are no lists say the same: they are one number, or nodes at one place. -/
def SameItem (m m' : Model) (a b : Arg) : Prop :=
  (∃ v, m.number? a = some v ∧ m'.number? b = some v) ∨
    ∃ x y, a = .node x ∧ b = .node y ∧ m.Peers m' x y

/-- Two arguments say the same. -/
inductive SameArg (m m' : Model) : Arg → Arg → Prop where
  | item {a b : Arg} : m.SameItem m' a b → SameArg m m' a b
  | list {as bs : List Arg} : List.Forall₂ (m.SameItem m') as bs → SameArg m m' (.list as) (.list bs)

/-- Two nodes say the same. -/
structure SameNode (m m' : Model) (n n' : Node) : Prop where
  attributes : n'.toAttributes = n.toAttributes
  operator : n'.operator = n.operator
  args : List.Forall₂ (m.SameArg m') n.args n'.args

/-- Two objectives say the same. -/
def SameObjective (m m' : Model) : Option Objective → Option Objective → Prop
  | none, none => True
  | some o, some o' => o'.sense = o.sense ∧ m.SameItem m' (.node o.expr) (.node o'.expr)
  | _, _ => False

/-- A model is rebuilt in another one. -/
structure Rebuilt (m m' : Model) : Prop where
  name : m'.name = m.name
  nodes : List.Forall₂ (fun x y => ∃ n n', m.node? x = some n ∧ m'.node? y = some n' ∧
    m.SameNode m' n n') m.boundIds m'.boundIds
  /-- No name is lost, and a node that is no constant keeps its own. -/
  named : ∀ n ∈ m.nodes, n.name.isSome → ∃ n' ∈ m'.nodes, n'.name = n.name
  /-- The constraints and the expressions among them, in some order. -/
  topLevel : ∃ top : List NodeId, top.Perm m'.topLevel.toList ∧
    List.Forall₂ (fun x y => m.SameItem m' (.node x) (.node y)) m.topLevel.toList top
  objective : m.SameObjective m' m.objective m'.objective

/-! ### Constants -/

variable {m m' m'' : Model} {asked : NodeId → Prop} {sent : List NodeId} {x y id : NodeId}
  {n n' n'' : Node} {a b : Arg} {l : Literal}

theorem SameArg.int (v : Int) : m.SameArg m' (.int v) (.int v) := .item (.inl ⟨.int v, rfl, rfl⟩)

theorem SameArg.float (v : Float) : m.SameArg m' (.float v) (.float v) :=
  .item (.inl ⟨.float v, rfl, rfl⟩)

theorem literal?_eq_some : m.literal? x = some l ↔ ∃ n, m.node? x = some n ∧ n.literal? = some l :=
  Option.bind_eq_some_iff

/-- A constant of a model that calls have built has a value, and any other node has none. -/
theorem Built.literal?_cases (h : Built m asked sent) (hx : m.node? x = some n) :
    (∃ l, m.literal? x = some l ∧ n.operator = l.operator ∧ n.args = [l.arg]) ∨
      n.operator.isConstant = false := by
  by_cases hc : n.operator.isConstant
  · obtain ⟨l, ho, ha⟩ := h.exists_literal (node?_eq_some.1 hx).2 hc
    refine .inl ⟨l, literal?_eq_some.2 ⟨n, hx, ?_⟩, ho, ha⟩
    rw [Node.literal?, ho, ha]
    cases l <;> rfl
  · exact .inr (by simpa using hc)

theorem literal?_of_is (hl : l.is n) : n.literal? = some l := by
  cases l <;> simp only [Literal.is, Node.isIntConst, Node.isFloatConst, Node.isBoolConst] at hl <;>
    split at hl <;> simp_all [Node.literal?, toBits_injective.eq_iff]

theorem literal?_of_constant? (h : m.constant? l.is = some x) : m.literal? x = some l := by
  obtain ⟨n, hn, hl⟩ := isConst_of_constant? h
  exact literal?_eq_some.2 ⟨n, hn, literal?_of_is hl⟩

theorem mem_boundIds : x ∈ m.boundIds ↔ ∃ n, m.node? x = some n ∧ n.operator.isConstant = false := by
  rw [boundIds, List.mem_filter, binds, Option.any_eq_true]
  constructor
  · rintro ⟨-, n, hn, hc⟩
    exact ⟨n, hn, by simpa using hc⟩
  · rintro ⟨n, hn, hc⟩
    exact ⟨mem_ids.2 (has_of_node? hn), n, hn, by simp [hc]⟩

/-! ### Growth -/

namespace Keeps

theorem literal? (h : Keeps m m') (hl : m.literal? x = some l) : m'.literal? x = some l := by
  obtain ⟨n, hn, hl⟩ := literal?_eq_some.1 hl
  obtain ⟨n', hn', hc⟩ := h.node? hn
  refine literal?_eq_some.2 ⟨n', hn', ?_⟩
  rwa [Node.literal?, Node.operator_eq_of_core hc, Node.args_eq_of_core hc]

theorem number? (h : Keeps m m') {v : Number} (ha : m.number? a = some v) :
    m'.number? a = some v := by
  cases a with
  | node id =>
    obtain ⟨l, hl, rfl⟩ := Option.map_eq_some_iff.1 ha
    rw [Model.number?, h.literal? hl, Option.map_some]
  | _ => exact ha

theorem binds (h : Keeps m m') (hx : m.Has x) : m'.binds x = m.binds x := by
  obtain ⟨n, hn⟩ := hx.exists_node
  obtain ⟨n', hn', hc⟩ := h.node? hn
  simp [Model.binds, hn, hn', Node.operator_eq_of_core hc]

theorem size_le (h : Keeps m m') : m.nodes.size ≤ m'.nodes.size := by
  by_contra hlt
  have hlast : m.Has (m.idAt (m.nodes.size - 1)) := has_idAt.2 (by omega)
  have := (h.has hlast).2
  simp only [idAt] at this
  omega

/-- The nodes of the earlier model come first. -/
theorem exists_ids (h : Keeps m m') : ∃ later, m'.ids = m.ids ++ later ∧
    (m'.nodes.size = m.nodes.size → later = []) := by
  have hid : m'.idAt = m.idAt := funext fun i => by rw [idAt, idAt, h.tag]
  obtain ⟨k, hk⟩ := Nat.exists_eq_add_of_le h.size_le
  refine ⟨((List.range k).map (m.nodes.size + ·)).map m.idAt, ?_, fun hs => ?_⟩
  · rw [ids, ids, hid, hk, List.range_add, List.map_append]
  · obtain rfl : k = 0 := by omega
    rfl

theorem boundIds_prefix (h : Keeps m m') : m.boundIds <+: m'.boundIds := by
  obtain ⟨later, hids, -⟩ := h.exists_ids
  rw [boundIds, boundIds, hids, List.filter_append,
    List.filter_congr fun x hx => h.binds (mem_ids.1 hx)]
  exact List.prefix_append ..

theorem boundIds_eq (h : Keeps m m') (hs : m'.nodes.size = m.nodes.size) :
    m'.boundIds = m.boundIds := by
  obtain ⟨later, hids, hlater⟩ := h.exists_ids
  rw [boundIds, boundIds, hids, hlater hs, List.append_nil]
  exact List.filter_congr fun x hx => h.binds (mem_ids.1 hx)

variable {m₀ : Model}

theorem peers (h : Keeps m m') (hp : m₀.Peers m x y) : m₀.Peers m' x y := by
  obtain ⟨j, hx, hy⟩ := hp
  obtain ⟨later, hlater⟩ := h.boundIds_prefix
  refine ⟨j, hx, ?_⟩
  rw [← hlater, List.getElem?_append_left (List.getElem?_eq_some_iff.1 hy).1, hy]

theorem sameItem (h : Keeps m m') (hab : m₀.SameItem m a b) : m₀.SameItem m' a b := by
  obtain ⟨v, ha, hb⟩ | ⟨x, y, ha, hb, hp⟩ := hab
  · exact .inl ⟨v, ha, h.number? hb⟩
  · exact .inr ⟨x, y, ha, hb, h.peers hp⟩

theorem sameArg (h : Keeps m m') (hab : m₀.SameArg m a b) : m₀.SameArg m' a b := by
  cases hab with
  | item hab => exact .item (h.sameItem hab)
  | list hall => exact .list (hall.imp fun _ _ => h.sameItem)

theorem sameObjective (h : Keeps m m') {o o' : Option Objective} (ho : m₀.SameObjective m o o') :
    m₀.SameObjective m' o o' := by
  cases o <;> cases o' <;> first | exact ho | exact ⟨ho.1, h.sameItem ho.2⟩

theorem sameNode (h : Keeps m m') (hs : m₀.SameNode m n n') (hb : n''.bare = n'.bare) :
    m₀.SameNode m' n n'' := by
  obtain ⟨ha, ho, hargs⟩ := Node.bare_eq_iff.1 hb
  refine ⟨ha.trans hs.attributes, ho.trans hs.operator, ?_⟩
  rw [hargs]
  exact hs.args.imp fun _ _ => h.sameArg

end Keeps

theorem boundIds_push : (m.push n).boundIds =
    m.boundIds ++ if n.operator.isConstant then [] else [m.idAt m.nodes.size] := by
  have hk : Keeps m (m.push n) := grows_push.keeps
  have hids : (m.push n).ids = m.ids ++ [m.idAt m.nodes.size] := by
    rw [ids, ids, size_push, List.range_succ, List.map_append]
    rfl
  have hlast : (m.push n).binds (m.idAt m.nodes.size) = !n.operator.isConstant := by
    have hn : (m.push n).node? (m.idAt m.nodes.size) = some n :=
      node?_eq_some.2 ⟨rfl, by rw [getElem?_push]; exact if_pos rfl⟩
    rw [binds, hn, Option.any_some]
  rw [boundIds, boundIds, hids, List.filter_append,
    List.filter_congr fun x hx => hk.binds (mem_ids.1 hx)]
  congr 1
  cases hc : n.operator.isConstant <;> simp [hlast, hc]

/-- Constants do not change what a listing binds. -/
theorem Prepared.boundIds (h : Prepared m m') : m'.boundIds = m.boundIds := by
  induction h with
  | refl => rfl
  | push l _ _ _ ih =>
    have hc : l.node.operator.isConstant := by cases l <;> rfl
    rw [boundIds_push, if_pos hc, List.append_nil, ih]

/-! ### Nodes that are named -/

theorem Peers.has (h : m.Peers m' x y) : m'.Has y := by
  obtain ⟨j, -, hy⟩ := h
  obtain ⟨n, hn, -⟩ := mem_boundIds.1 (List.mem_of_getElem? hy)
  exact has_of_node? hn

theorem SameItem.has (h : m.SameItem m' a b) : ∀ y ∈ b.nodes, m'.Has y := by
  intro y hy
  cases b with
  | node z =>
    obtain rfl : y = z := by simpa [Arg.nodes] using hy
    obtain ⟨v, -, hb⟩ | ⟨x, z, -, hz, hp⟩ := h
    · obtain ⟨l, hl, -⟩ := Option.map_eq_some_iff.1 hb
      obtain ⟨n, hn, -⟩ := literal?_eq_some.1 hl
      exact has_of_node? hn
    · obtain rfl := Arg.node.inj hz
      exact hp.has
  | list items =>
    obtain ⟨v, -, hb⟩ | ⟨x, z, -, hz, -⟩ := h
    · cases hb
    · cases hz
  | _ => simp [Arg.nodes] at hy

theorem forall_nodesOf {R : Arg → Arg → Prop} {P : NodeId → Prop} {as bs : List Arg}
    (h : List.Forall₂ R as bs) (hR : ∀ a b, R a b → ∀ y ∈ b.nodes, P y) :
    ∀ y ∈ Arg.nodesOf bs, P y := by
  induction h with
  | nil => simp [Arg.nodesOf]
  | cons hab _ ih =>
    intro y hy
    obtain hy | hy := List.mem_append.1 hy
    · exact hR _ _ hab y hy
    · exact ih y hy

theorem SameArg.has (h : m.SameArg m' a b) : ∀ y ∈ b.nodes, m'.Has y := by
  cases h with
  | item hab => exact hab.has
  | list hall => exact forall_nodesOf hall fun _ _ hab => hab.has

/-- Nodes at the same place of a model and the rebuilt one say the same. -/
theorem Rebuilt.sameNode (h : m.Rebuilt m') (hp : m.Peers m' x y) :
    ∃ n n', m.node? x = some n ∧ m'.node? y = some n' ∧ m.SameNode m' n n' := by
  obtain ⟨j, hx, hy⟩ := hp
  obtain ⟨hj, rfl⟩ := List.getElem?_eq_some_iff.1 hx
  obtain ⟨hj', rfl⟩ := List.getElem?_eq_some_iff.1 hy
  exact (List.forall₂_iff_get.1 h.nodes).2 j hj hj'

end Model

end Scheduling
