import Scheduling.Proofs.Arena.Basic
import Scheduling.Record.Decode

/-!
# Well-formed nodes

What the modeling vocabulary lets stand in a node: for each operator the arguments it takes, the
table it carries, and which attributes it may have (`Model.Formed`). A node stays well-formed while
the model grows, and reading a record never refuses one (`Formed.accepted`).
-/

namespace Scheduling

/-! ### Arguments -/

/-- What an argument of a node can be. -/
inductive Input where
  /-- A node of some kind. -/
  | node (e : Expectation)
  /-- Any node of the model. -/
  | anyNode
  /-- A list of nodes of some kind. -/
  | nodes (e : Expectation)
  /-- A list of interval variables, or a sequence variable. -/
  | intervals
  /-- An integer, written out or computed. -/
  | amount
  | int
  | float
  | bool

/-- The arguments that an operator takes. -/
def Operator.inputs : Operator → List Input
  | intVar | boolVar | floatVar | intervalVar | stepFunction => []
  | sequenceVar => [.nodes .interval]
  | intConst => [.int]
  | floatConst => [.float]
  | boolConst => [.bool]
  | int _ => [.node .integral, .node .integral]
  | intNeg | intAbs => [.node .integral]
  | intAggregate _ => [.nodes .integral]
  | intGuard => [.node .integral, .int]
  | float _ | identity | compare _ => [.node .numeric, .node .numeric]
  | floatNeg | floatAbs => [.node .numeric]
  | floatAggregate _ => [.nodes .numeric]
  | floatGuard => [.node .numeric, .float]
  | presence => [.anyNode]
  | inRange => [.node .numeric, .float, .float]
  | connect _ => [.node .boolean, .node .boolean]
  | not => [.node .boolean]
  | measure _ => [.node .interval]
  | measureOr _ => [.node .interval, .int]
  | precedence _ => [.node .interval, .node .interval, .amount]
  | alternative | span => [.node .interval, .nodes .interval]
  | noOverlap => [.intervals]
  | intervalStep _ => [.node .interval, .amount]
  | stepAt => [.int, .amount]
  | cumulPlus | cumulMinus => [.node .cumulative, .node .cumulative]
  | cumulNeg => [.node .cumulative]
  | cumulSum => [.nodes .cumulative]
  | cumulBound _ => [.node .cumulative, .int]
  | stepFunctionEval => [.node .stepFunction, .node .integral]
  | stepFunctionSum => [.node .stepFunction, .node .interval]
  | forbid _ => [.node .interval, .node .stepFunction]

/-- Whether a variable can be left out of solutions; a sequence is always in them. -/
def Operator.hasPresence : Operator → Bool
  | intVar | boolVar | floatVar | intervalVar => true
  | _ => false

theorem Operator.isVariable_of_hasPresence {op : Operator} (h : op.hasPresence) :
    op.isVariable := by
  cases op <;> first | rfl | exact nomatch h

theorem Operator.length_inputs (op : Operator) : op.inputs.length = op.arity.2 := by
  cases op <;> rfl

theorem Operator.eq_of_isConstant {op : Operator} (h : op.isConstant) :
    op = .intConst ∨ op = .floatConst ∨ op = .boolConst := by
  cases op <;> simp_all [isConstant]

namespace Model

variable {m m' : Model} {id : NodeId} {e : Expectation} {n n' : Node}

/-- A node of the model is of a kind. -/
def Is (m : Model) (e : Expectation) (id : NodeId) : Prop :=
  ∃ n, m.node? id = some n ∧ e.accepts n.kind

theorem eq_sequenceVar {op : Operator} (h : Expectation.sequence.accepts op.kind) :
    op = .sequenceVar := by
  cases op <;> first | rfl | exact nomatch h

theorem eq_intervalVar {op : Operator} (h : Expectation.interval.accepts op.kind) :
    op = .intervalVar := by
  cases op <;> first | rfl | exact nomatch h

/-- An argument is as asked. -/
def Takes (m : Model) : Input → Arg → Prop
  | .node e, .node id => m.Is e id
  | .anyNode, .node id => m.Has id
  | .nodes e, .list items => ∃ ids : List NodeId, items = ids.map Arg.node ∧ ∀ id ∈ ids, m.Is e id
  | .intervals, .list items =>
    ∃ ids : List NodeId, items = ids.map Arg.node ∧ ∀ id ∈ ids, m.Is .interval id
  | .intervals, .node id => m.Is .sequence id
  | .amount, .int _ => True
  | .amount, .node id => m.Is .integral id
  | .int, .int _ => True
  | .float, .float x => x.isFinite
  | .bool, .bool _ => True
  | _, _ => False

/-- Arguments are as an operator takes them; those at the end may be left out. -/
def TakesAll (m : Model) (op : Operator) (args : List Arg) : Prop :=
  op.arity.1 ≤ args.length ∧ List.Forall₂ m.Takes (op.inputs.take args.length) args

theorem exists_of_forall₂ {α β : Type} {R : α → β → Prop} {as : List α} {bs : List β}
    (h : List.Forall₂ R as bs) {b : β} (hb : b ∈ bs) : ∃ a ∈ as, R a b := by
  induction h with
  | nil => exact (List.not_mem_nil hb).elim
  | @cons a b' as bs hab _ ih =>
    obtain rfl | hb := List.mem_cons.1 hb
    · exact ⟨a, List.mem_cons_self, hab⟩
    · obtain ⟨a', ha', hab'⟩ := ih hb
      exact ⟨a', List.mem_cons_of_mem _ ha', hab'⟩

namespace TakesAll

variable {op : Operator} {i j k : Input} {args : List Arg}

/-- When none may be left out, all are there. -/
theorem all (h : m.TakesAll op args) (hle : op.arity.1 = op.inputs.length) :
    List.Forall₂ m.Takes op.inputs args := by
  obtain ⟨hlen, hall⟩ := h
  rwa [List.take_of_length_le (by omega)] at hall

theorem single (h : m.TakesAll op args) (hin : op.inputs = [i]) (hle : op.arity.1 = 1) :
    ∃ a, args = [a] ∧ m.Takes i a := by
  have hall := h.all (by rw [hin, hle]; rfl)
  rw [hin] at hall
  obtain ⟨a, rest, ha, hrest, rfl⟩ := List.forall₂_cons_left_iff.1 hall
  obtain rfl := List.forall₂_nil_left_iff.1 hrest
  exact ⟨a, rfl, ha⟩

theorem pair (h : m.TakesAll op args) (hin : op.inputs = [i, j]) (hle : op.arity.1 = 2) :
    ∃ a b, args = [a, b] ∧ m.Takes i a ∧ m.Takes j b := by
  have hall := h.all (by rw [hin, hle]; rfl)
  rw [hin] at hall
  obtain ⟨a, rest, ha, hrest, rfl⟩ := List.forall₂_cons_left_iff.1 hall
  obtain ⟨b, last, hb, hlast, rfl⟩ := List.forall₂_cons_left_iff.1 hrest
  obtain rfl := List.forall₂_nil_left_iff.1 hlast
  exact ⟨a, b, rfl, ha, hb⟩

/-- The last of three arguments may be left out. -/
theorem triple (h : m.TakesAll op args) (hin : op.inputs = [i, j, k]) (hle : 2 ≤ op.arity.1) :
    ∃ a b, m.Takes i a ∧ m.Takes j b ∧
      (args = [a, b] ∧ op.arity.1 = 2 ∨ ∃ c, args = [a, b, c] ∧ m.Takes k c) := by
  obtain ⟨hlen, hall⟩ := h
  rw [hin] at hall
  match args, hlen with
  | [], hlen | [_], hlen => simp at hlen; omega
  | [a, b], hlen =>
    obtain ⟨ha, hb⟩ : m.Takes i a ∧ m.Takes j b := by simpa using hall
    refine ⟨a, b, ha, hb, .inl ⟨rfl, ?_⟩⟩
    simp at hlen
    omega
  | a :: b :: c :: rest, _ =>
    obtain ⟨ha, hb, hc, hrest⟩ : m.Takes i a ∧ m.Takes j b ∧ m.Takes k c ∧ rest = [] := by
      simpa using hall
    exact ⟨a, b, ha, hb, .inr ⟨c, by rw [hrest], hc⟩⟩

end TakesAll

/-! ### Tables and bounds -/

/-- How many rows a matrix of a no-overlap has, given its arguments. -/
def matrixSize? (m : Model) (args : List Arg) : Option Nat :=
  match args.head? with
  | some (.list items) => some items.length
  | some (.node seq) => (m.node? seq).map Node.transitionSize
  | _ => none

/-- The table of a node is as its operator asks. -/
def Table (m : Model) (n : Node) : Prop :=
  match n.operator with
  | .stepFunction => ∃ points, n.values = some points ∧ checkStepPoints points = .ok ()
  | .noOverlap => ∀ matrix, n.values = some matrix →
      ∃ size, m.matrixSize? n.args = some size ∧ checkTransitions matrix size = .ok ()
  | .sequenceVar => ∀ rows, n.values = some rows → ∃ types, rows = [types] ∧
      types.length = ((n.args.head?.bind Arg.list?).getD []).length ∧ ∀ t ∈ types, 0 ≤ t
  | _ => n.values = none

/-- A lower and an upper bound lie within their limits and leave room for a value. -/
def Limited (least greatest : Int) (low high : Option Int) : Prop :=
  (∀ v ∈ low, least ≤ v ∧ v ≤ greatest) ∧ (∀ v ∈ high, least ≤ v ∧ v ≤ greatest) ∧
    ∀ l ∈ low, ∀ h ∈ high, l ≤ h

/-- The bounds of a node are those that its operator may have. -/
def Bounded (n : Node) : Prop :=
  match n.operator with
  | .intVar => ∃ low high, Limited (-intVarMax) intVarMax low high ∧
      n.bounds = { Bounds.none with min := low.map Float.ofInt, max := high.map Float.ofInt }
  | .floatVar => ∃ low high : Option Float, (∀ x ∈ low, x.isFinite) ∧ (∀ x ∈ high, x.isFinite) ∧
      (∀ l ∈ low, ∀ h ∈ high, ¬ h < l) ∧ n.bounds = { Bounds.none with min := low, max := high }
  | .intervalVar =>
      Limited (-intervalMax) intervalMax n.bounds.startMin n.bounds.startMax ∧
      Limited (-intervalMax) intervalMax n.bounds.endMin n.bounds.endMax ∧
      Limited 0 lengthMax n.bounds.lengthMin n.bounds.lengthMax
  | _ => n.bounds = .none

/-- A node is one that the modeling vocabulary can build over the nodes of the model. -/
structure Formed (m : Model) (n : Node) : Prop where
  args : m.TakesAll n.operator n.args
  table : m.Table n
  bounds : Bounded n
  presence : n.presence.isSome → n.operator.hasPresence

/-- A node that only has arguments, of an operator that needs nothing else. -/
theorem Formed.plain {op : Operator} {args : List Arg} (h : m.TakesAll op args)
    (hv : op.isVariable = false) (hs : op ≠ .stepFunction) : m.Formed (.plain op args) := by
  refine ⟨h, ?_, ?_, by simp [Node.plain, Node.fresh, Attributes.none]⟩
  · cases op <;> simp_all [Table, Node.plain, Node.fresh, Attributes.none]
  · cases op <;> simp_all [Bounded, Node.plain, Node.fresh, Attributes.none, Operator.isVariable]

/-! ### Operands -/

theorem Is.has (h : m.Is e id) : m.Has id := by
  obtain ⟨n, hn, -⟩ := h
  exact has_of_node? hn

theorem nodesOf_map_node (ids : List NodeId) : Arg.nodesOf (ids.map Arg.node) = ids := by
  induction ids with
  | nil => rfl
  | cons id ids ih => simp [Arg.nodesOf, Arg.nodes, ih]

theorem Takes.has {input : Input} {a : Arg} (h : m.Takes input a) : ∀ id ∈ a.nodes, m.Has id := by
  intro x hx
  cases a with
  | node id =>
    obtain rfl : x = id := by simpa [Arg.nodes] using hx
    cases input <;> first | exact h | exact Is.has h | exact h.elim
  | list items =>
    have hids : ∃ (e : Expectation) (ids : List NodeId), items = ids.map Arg.node ∧
        ∀ id ∈ ids, m.Is e id := by
      cases input <;> first | exact ⟨_, h⟩ | exact h.elim
    obtain ⟨e, ids, rfl, hall⟩ := hids
    rw [Arg.nodes, nodesOf_map_node] at hx
    exact (hall x hx).has
  | _ => simp [Arg.nodes] at hx

theorem Formed.has (h : m.Formed n) : ∀ id ∈ n.operands, m.Has id := by
  have hall {inputs : List Input} {args : List Arg} (h : List.Forall₂ m.Takes inputs args) :
      ∀ id ∈ Arg.nodesOf args, m.Has id := by
    induction h with
    | nil => simp [Arg.nodesOf]
    | cons ha _ ih =>
      intro id hid
      obtain hid | hid := List.mem_append.1 hid
      · exact ha.has id hid
      · exact ih id hid
  exact hall h.args.2

theorem transitionSize_eq_of_core (h : n'.core = n.core) : n'.transitionSize = n.transitionSize := by
  rw [Node.transitionSize, Node.transitionSize, Node.types?, Node.types?, Node.args_eq_of_core h,
    Node.values_eq_of_core h]

theorem Formed.of_core (h : n'.core = n.core) (hn : m.Formed n) : m.Formed n' := by
  have hcore : m.Formed n'.core := h ▸ ⟨hn.args, hn.table, hn.bounds, hn.presence⟩
  exact ⟨hcore.args, hcore.table, hcore.bounds, hcore.presence⟩

/-! ### Growth -/

/-- The nodes of a model stand in a later one with their arguments and all that belongs to them;
only numbers, uses and names may differ. -/
structure Keeps (m m' : Model) : Prop where
  tag : m'.tag = m.tag
  node : ∀ {i : Nat} {n : Node}, m.nodes[i]? = some n → ∃ n', m'.nodes[i]? = some n' ∧
    n'.core = n.core

theorem Grows.keeps (h : Grows m m') : Keeps m m' :=
  ⟨h.tag, fun hn => by
    obtain ⟨n', hn', hb, -⟩ := h.node hn
    exact ⟨n', hn', Node.core_eq_of_bare hb⟩⟩

theorem keeps_renamed (name : String) : Keeps m (m.renamed id name) := by
  refine ⟨rfl, fun {i n} hn => ?_⟩
  rw [getElem?_renamed, hn]
  refine ⟨_, rfl, ?_⟩
  split <;> rfl

namespace Keeps

variable {m'' : Model}

theorem refl (m : Model) : Keeps m m := ⟨rfl, fun h => ⟨_, h, rfl⟩⟩

theorem trans (h : Keeps m m') (h' : Keeps m' m'') : Keeps m m'' := by
  refine ⟨h'.tag.trans h.tag, fun hn => ?_⟩
  obtain ⟨n', hn', he⟩ := h.node hn
  obtain ⟨n'', hn'', he'⟩ := h'.node hn'
  exact ⟨n'', hn'', he'.trans he⟩

theorem node? (h : Keeps m m') (hn : m.node? id = some n) :
    ∃ n', m'.node? id = some n' ∧ n'.core = n.core := by
  obtain ⟨ht, hi⟩ := node?_eq_some.1 hn
  obtain ⟨n', hn', he⟩ := h.node hi
  exact ⟨n', node?_eq_some.2 ⟨ht.trans h.tag.symm, hn'⟩, he⟩

/-- Without new nodes, every node of the later model stands in the earlier one. -/
theorem node_back (h : Keeps m m') (hs : m'.nodes.size = m.nodes.size) {i : Nat} {n' : Node}
    (hn' : m'.nodes[i]? = some n') : ∃ n, m.nodes[i]? = some n ∧ n'.core = n.core := by
  have hi := lt_size_of_getElem? hn'
  obtain ⟨n'', hn'', hc⟩ := h.node (Array.getElem?_eq_getElem (hs ▸ hi))
  obtain rfl : n' = n'' := Option.some.inj (hn'.symm.trans hn'')
  exact ⟨_, Array.getElem?_eq_getElem (hs ▸ hi), hc⟩

theorem has (h : Keeps m m') (hid : m.Has id) : m'.Has id := by
  obtain ⟨n, hn⟩ := hid.exists_node
  obtain ⟨n', hn', -⟩ := h.node? hn
  exact has_of_node? hn'

theorem is (h : Keeps m m') (hid : m.Is e id) : m'.Is e id := by
  obtain ⟨n, hn, hk⟩ := hid
  obtain ⟨n', hn', hc⟩ := h.node? hn
  exact ⟨n', hn', by rw [Node.kind, Node.operator_eq_of_core hc]; exact hk⟩

theorem takes (h : Keeps m m') {input : Input} {a : Arg} (ha : m.Takes input a) :
    m'.Takes input a := by
  cases input <;> cases a <;> first
    | exact ha
    | exact h.is ha
    | exact h.has ha
    | obtain ⟨ids, rfl, hall⟩ := ha
      exact ⟨ids, rfl, fun id hid => h.is (hall id hid)⟩

theorem takesAll (h : Keeps m m') {op : Operator} {args : List Arg} (ha : m.TakesAll op args) :
    m'.TakesAll op args :=
  ⟨ha.1, ha.2.imp fun _ _ => h.takes⟩

theorem matrixSize? (h : Keeps m m') {args : List Arg} {size : Nat}
    (hs : m.matrixSize? args = some size) : m'.matrixSize? args = some size := by
  unfold Model.matrixSize? at hs ⊢
  split at hs
  · exact hs
  · obtain ⟨seq, hseq, rfl⟩ := Option.map_eq_some_iff.1 hs
    obtain ⟨seq', hseq', hc⟩ := h.node? hseq
    rw [hseq', Option.map_some, transitionSize_eq_of_core hc]
  · exact hs

theorem table (h : Keeps m m') (hn : m.Table n) : m'.Table n := by
  by_cases ho : n.operator = .noOverlap
  · simp only [Table, ho] at hn ⊢
    intro matrix hm
    obtain ⟨size, hs, hc⟩ := hn matrix hm
    exact ⟨size, h.matrixSize? hs, hc⟩
  · cases hop : n.operator <;> simp_all [Table]

theorem formed (h : Keeps m m') (hn : m.Formed n) : m'.Formed n :=
  ⟨h.takesAll hn.args, h.table hn.table, hn.bounds, hn.presence⟩

end Keeps

/-! ### Acceptance -/

/-- A record with the node passes the checks of reading. -/
structure Accepts (m : Model) (n : Node) : Prop where
  least : n.operator.arity.1 ≤ n.args.length
  greatest : n.args.length ≤ n.operator.arity.2
  values : Restoring.checkValues m (.mk n.operator [] n.toAttributes) n.args = .ok ()

theorem Formed.accepted (h : m.Formed n) : m.Accepts n := by
  refine ⟨h.args.1, ?_, ?_⟩
  · have := h.args.2.length_eq
    rw [List.length_take, Operator.length_inputs] at this
    omega
  · have ht := h.table
    simp only [Restoring.checkValues, NodeRecord.attributes, NodeRecord.operator]
    split
    · rfl
    · rename_i values hv
      unfold Table at ht
      split at ht
      · rename_i ho
        obtain ⟨points, hp, hc⟩ := ht
        rw [ho]
        rw [hv] at hp
        exact Option.some.inj hp ▸ hc
      · rename_i ho
        obtain ⟨size, hs, hc⟩ := ht values hv
        rw [ho]
        unfold matrixSize? at hs
        simp only
        split at hs
        · simp_all
        · rename_i seq hseq
          obtain ⟨s, hnode, rfl⟩ := Option.map_eq_some_iff.1 hs
          simp only [hseq, node_eq_ok.2 hnode, hc]
        · exact absurd hs (by simp)
      · rename_i ho
        rw [ho]
      · simp [hv] at ht

theorem Accepts.of_core (h : n'.core = n.core) (hn : m.Accepts n) : m.Accepts n' := by
  have hcore : m.Accepts n'.core := h ▸ ⟨hn.least, hn.greatest, hn.values⟩
  exact ⟨hcore.least, hcore.greatest, hcore.values⟩

theorem Keeps.accepts (h : Keeps m m') (hn : m.Accepts n) : m'.Accepts n := by
  refine ⟨hn.least, hn.greatest, ?_⟩
  have hv := hn.values
  simp only [Restoring.checkValues, NodeRecord.attributes, NodeRecord.operator] at hv ⊢
  split
  · rfl
  · rename_i values hvs
    rw [hvs] at hv
    cases ho : n.operator <;> simp only [ho] at hv ⊢
    case stepFunction => exact hv
    case noOverlap =>
      cases ha : n.args.head? with
      | none => simpa [ha] using hv
      | some a =>
        cases a <;> simp only [ha] at hv ⊢ <;> try exact hv
        rename_i seq
        cases hseq : m.node? seq with
        | none => simp [Model.node, hseq] at hv
        | some s =>
          obtain ⟨s', hs', hc⟩ := h.node? hseq
          simp only [node_eq_ok.2 hseq] at hv
          simp only [node_eq_ok.2 hs']
          rwa [transitionSize_eq_of_core hc]

end Model

end Scheduling
