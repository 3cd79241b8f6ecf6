import Scheduling.Proofs.Record.Numbering

/-!
# What records denote

Which node of a model a node of a record denotes, given the nodes of the numbers: the node says the
same beside its arguments, and its arguments are denoted by those of the record
(`NodeRecord.Denotes`). The relation survives growth (`NodeRecord.Denotes.later`), and each number
inside a node of a record has a node before the one that is denoted (`NodeRecord.Denotes.before`).
Whether the table of a node fits can be read off the record (`NodeRecord.Proper.checked`).
-/

namespace Scheduling

/-! ### Numbers and tables of records -/

mutual

/-- The numbers that an argument refers to, also inside lists and nodes. -/
def ArgRecord.numbers : ArgRecord → List Nat
  | .ref number => [number]
  | .inline n => n.numbers
  | .list items => ArgRecord.numbersOf items
  | _ => []

/-- The numbers that arguments refer to, from left to right. -/
def ArgRecord.numbersOf : List ArgRecord → List Nat
  | [] => []
  | a :: rest => a.numbers ++ ArgRecord.numbersOf rest

/-- The numbers that a node refers to, also inside lists and the nodes that are written in it. -/
def NodeRecord.numbers : NodeRecord → List Nat
  | .mk _ args _ => ArgRecord.numbersOf args

end

theorem ArgRecord.mem_numbersOf {k : Nat} {as : List ArgRecord} :
    k ∈ ArgRecord.numbersOf as ↔ ∃ a ∈ as, k ∈ a.numbers := by
  induction as with
  | nil => simp [ArgRecord.numbersOf]
  | cons a rest ih => simp [ArgRecord.numbersOf, ih]

/-- The items of a list. -/
def ArgRecord.list? : ArgRecord → Option (List ArgRecord)
  | .list items => some items
  | _ => none

/-- Whether the argument is a node, written out or by its number. -/
def ArgRecord.IsNode : ArgRecord → Prop
  | .ref _ | .inline _ => True
  | _ => False

namespace NodeRecord

/-- How many rows a matrix over a sequence has. -/
def transitionSize (w : NodeRecord) : Nat :=
  match w.attributes.values.bind List.head? with
  | some types =>
    match types.max? with
    | some t => (t.emod (wordMax + 1)).toNat + 1
    | none => 0
  | none => ((w.args.head?.bind ArgRecord.list?).map List.length).getD 0

/-- How many rows the matrix of a no-overlap has; there is no telling when its sequence is a number
that the record does not have. -/
def matrixSize? (refs : List NodeRecord) (w : NodeRecord) : Option Nat :=
  match w.args.head? with
  | some (.list items) => some items.length
  | some (.inline seq) => some seq.transitionSize
  | some (.ref number) => (refs[number]?).map transitionSize
  | _ => some 0

/-- The node has as many arguments as its operator takes and a table as its operator asks. -/
structure Proper (refs : List NodeRecord) (w : NodeRecord) : Prop where
  least : w.operator.arity.1 ≤ w.args.length
  greatest : w.args.length ≤ w.operator.arity.2
  table : ∀ values, w.attributes.values = some values →
    (w.operator = .stepFunction → checkStepPoints values = .ok ()) ∧
    (w.operator = .noOverlap → ∀ size, w.matrixSize? refs = some size →
      checkTransitions values size = .ok ())

end NodeRecord

/-! ### Denotation -/

mutual

/-- The argument of a node is the one that the record gives. -/
def ArgRecord.Denotes (m : Model) (named : Nat → NodeId → Prop) : ArgRecord → Arg → Prop
  | .ref number, v => ∃ id, v = .node id ∧ named number id
  | .inline w, v => ∃ id, v = .node id ∧ w.Denotes m named id
  | .bool b, v => v = .bool b
  | .int i, v => v = .int i
  | .float x, v => v = .float x
  | .list items, v => ∃ vs, v = .list vs ∧ ArgRecord.DenoteAll m named items vs

/-- The arguments of a node are those that the record gives. -/
def ArgRecord.DenoteAll (m : Model) (named : Nat → NodeId → Prop) :
    List ArgRecord → List Arg → Prop
  | [], vs => vs = []
  | a :: rest, vs => ∃ v vs', vs = v :: vs' ∧ a.Denotes m named v ∧
      ArgRecord.DenoteAll m named rest vs'

/-- The node of a model is the one that the record gives. -/
def NodeRecord.Denotes (m : Model) (named : Nat → NodeId → Prop) : NodeRecord → NodeId → Prop
  | .mk operator args attributes, id => ∃ n, m.node? id = some n ∧ n.operator = operator ∧
      n.toAttributes = attributes ∧ ArgRecord.DenoteAll m named args n.args

end

section Later

variable {m m' : Model} {named named' : Nat → NodeId → Prop}

mutual

theorem ArgRecord.Denotes.later (hm : ∀ {id n}, m.node? id = some n →
      ∃ n', m'.node? id = some n' ∧ n'.bare = n.bare)
    (hnamed : ∀ {k id}, named k id → named' k id) :
    (a : ArgRecord) → ∀ {v : Arg}, a.Denotes m named v → a.Denotes m' named' v
  | .ref _, _, h => by
    obtain ⟨id, hv, hid⟩ := h
    exact ⟨id, hv, hnamed hid⟩
  | .inline w, _, h => by
    obtain ⟨id, hv, hid⟩ := h
    exact ⟨id, hv, NodeRecord.Denotes.later hm hnamed w hid⟩
  | .bool _, _, h | .int _, _, h | .float _, _, h => h
  | .list items, _, h => by
    obtain ⟨vs, hv, hvs⟩ := h
    exact ⟨vs, hv, ArgRecord.DenoteAll.later hm hnamed items hvs⟩

theorem ArgRecord.DenoteAll.later (hm : ∀ {id n}, m.node? id = some n →
      ∃ n', m'.node? id = some n' ∧ n'.bare = n.bare)
    (hnamed : ∀ {k id}, named k id → named' k id) :
    (as : List ArgRecord) → ∀ {vs : List Arg}, ArgRecord.DenoteAll m named as vs →
      ArgRecord.DenoteAll m' named' as vs
  | [], _, h => h
  | a :: rest, _, h => by
    obtain ⟨v, vs, hvs, ha, hrest⟩ := h
    exact ⟨v, vs, hvs, ArgRecord.Denotes.later hm hnamed a ha,
      ArgRecord.DenoteAll.later hm hnamed rest hrest⟩

/-- What a node of a record denotes stays the same while nodes only gain numbers and uses. -/
theorem NodeRecord.Denotes.later (hm : ∀ {id n}, m.node? id = some n →
      ∃ n', m'.node? id = some n' ∧ n'.bare = n.bare)
    (hnamed : ∀ {k id}, named k id → named' k id) :
    (w : NodeRecord) → ∀ {id : NodeId}, w.Denotes m named id → w.Denotes m' named' id
  | .mk _ args _, _, h => by
    obtain ⟨n, hn, ho, ha, hargs⟩ := h
    obtain ⟨n', hn', hb⟩ := hm hn
    obtain ⟨ha', ho', hargs'⟩ := Node.bare_eq_iff.1 hb
    refine ⟨n', hn', ho'.trans ho, ha'.trans ha, ?_⟩
    rw [hargs']
    exact ArgRecord.DenoteAll.later hm hnamed args hargs

end

end Later

section Before

variable {m : Model} {named : Nat → NodeId → Prop} {k : Nat}

mutual

theorem ArgRecord.Denotes.before
    (hops : ∀ {id n}, m.node? id = some n → ∀ x ∈ n.operands, x.index < id.index) :
    (a : ArgRecord) → ∀ {v : Arg} {i : Nat}, a.Denotes m named v → k ∈ a.numbers →
      (∀ x ∈ v.nodes, x.index < i) → ∃ x, named k x ∧ x.index < i
  | .ref number, _, _, h, hk, hi => by
    obtain ⟨id, rfl, hid⟩ := h
    obtain rfl := List.mem_singleton.1 hk
    exact ⟨id, hid, hi id (List.mem_singleton_self id)⟩
  | .inline w, _, _, h, hk, hi => by
    obtain ⟨id, rfl, hid⟩ := h
    obtain ⟨x, hx, hlt⟩ := NodeRecord.Denotes.before hops w hid hk
    exact ⟨x, hx, hlt.trans (hi id (List.mem_singleton_self id))⟩
  | .bool _, _, _, _, hk, _ | .int _, _, _, _, hk, _ | .float _, _, _, _, hk, _ => nomatch hk
  | .list items, _, _, h, hk, hi => by
    obtain ⟨vs, rfl, hvs⟩ := h
    exact ArgRecord.DenoteAll.before hops items hvs hk hi

theorem ArgRecord.DenoteAll.before
    (hops : ∀ {id n}, m.node? id = some n → ∀ x ∈ n.operands, x.index < id.index) :
    (as : List ArgRecord) → ∀ {vs : List Arg} {i : Nat}, ArgRecord.DenoteAll m named as vs →
      k ∈ ArgRecord.numbersOf as → (∀ x ∈ Arg.nodesOf vs, x.index < i) →
      ∃ x, named k x ∧ x.index < i
  | [], _, _, _, hk, _ => nomatch hk
  | a :: rest, _, _, h, hk, hi => by
    obtain ⟨v, vs, rfl, ha, hrest⟩ := h
    obtain hk | hk := List.mem_append.1 hk
    · exact ArgRecord.Denotes.before hops a ha hk fun x hx => hi x (List.mem_append_left _ hx)
    · exact ArgRecord.DenoteAll.before hops rest hrest hk
        fun x hx => hi x (List.mem_append_right _ hx)

/-- What a number inside a node names stands before what the node denotes. -/
theorem NodeRecord.Denotes.before
    (hops : ∀ {id n}, m.node? id = some n → ∀ x ∈ n.operands, x.index < id.index) :
    (w : NodeRecord) → ∀ {id : NodeId}, w.Denotes m named id → k ∈ w.numbers →
      ∃ x, named k x ∧ x.index < id.index
  | .mk _ args _, _, h, hk => by
    obtain ⟨n, hn, -, -, hargs⟩ := h
    exact ArgRecord.DenoteAll.before hops args hargs hk (hops hn)

end

end Before

section Facts

variable {m : Model} {named : Nat → NodeId → Prop} {refs : List NodeRecord}

theorem ArgRecord.DenoteAll.length {as : List ArgRecord} {vs : List Arg}
    (h : DenoteAll m named as vs) : vs.length = as.length := by
  induction as generalizing vs with
  | nil =>
    obtain rfl : vs = [] := h
    rfl
  | cons a rest ih =>
    obtain ⟨v, vs, rfl, -, hrest⟩ := h
    rw [List.length_cons, List.length_cons, ih hrest]

theorem ArgRecord.DenoteAll.head {as : List ArgRecord} {vs : List Arg}
    (h : DenoteAll m named as vs) :
    (as.head? = none ∧ vs.head? = none) ∨
      ∃ a v, as.head? = some a ∧ vs.head? = some v ∧ a.Denotes m named v := by
  cases as with
  | nil =>
    obtain rfl : vs = [] := h
    exact .inl ⟨rfl, rfl⟩
  | cons a rest =>
    obtain ⟨v, vs, rfl, ha, -⟩ := h
    exact .inr ⟨a, v, rfl, rfl, ha⟩

/-- A list has as many items as the record says, and what is no list in the record is none. -/
theorem ArgRecord.Denotes.list? {a : ArgRecord} {v : Arg} (h : a.Denotes m named v) :
    v.list?.map List.length = a.list?.map List.length := by
  cases a with
  | ref number | inline w =>
    obtain ⟨id, rfl, -⟩ := h
    rfl
  | list items =>
    obtain ⟨vs, rfl, hvs⟩ := h
    exact congrArg some (ArgRecord.DenoteAll.length hvs)
  | bool b | int v | float x =>
    obtain rfl := h
    rfl

theorem NodeRecord.Denotes.exists_node {w : NodeRecord} {id : NodeId} (h : w.Denotes m named id) :
    ∃ n, m.node? id = some n ∧ w.Describes n ∧ ArgRecord.DenoteAll m named w.args n.args := by
  obtain ⟨op, args, attributes⟩ := w
  obtain ⟨n, hn, ho, ha, hargs⟩ := h
  exact ⟨n, hn, ⟨ho, ha⟩, hargs⟩

/-- A sequence has the size that the record says. -/
theorem NodeRecord.Denotes.transitionSize {w : NodeRecord} {id : NodeId} {n : Node}
    (h : w.Denotes m named id) (hn : m.node? id = some n) :
    n.transitionSize = w.transitionSize := by
  obtain ⟨n', hn', hd, hargs⟩ := h.exists_node
  obtain rfl := Option.some.inj (hn.symm.trans hn')
  have hlength : (n.args.head?.bind Arg.list?).map List.length =
      (w.args.head?.bind ArgRecord.list?).map List.length := by
    obtain ⟨ha, hv⟩ | ⟨a, v, ha, hv, hd⟩ := hargs.head
    · rw [ha, hv]
      rfl
    · rw [ha, hv]
      exact hd.list?
  rw [Node.transitionSize, Node.types?, hd.2, hlength]
  rfl

/-- What reading checks of a table is what the record says of it. -/
theorem NodeRecord.Proper.checked {op : Operator} {items : List ArgRecord} {attributes : Attributes}
    {vs : List Arg} (h : Proper refs (.mk op items attributes))
    (hvs : ArgRecord.DenoteAll m named items vs)
    (hnamed : ∀ k id, named k id → ∃ w, refs[k]? = some w ∧ w.Denotes m named id) :
    Restoring.checkValues m (.mk op items attributes) vs = .ok () := by
  rw [Restoring.checkValues]
  simp only [NodeRecord.attributes, NodeRecord.operator]
  cases hvalues : attributes.values with
  | none => rfl
  | some values =>
    obtain ⟨hpoints, hmatrix⟩ := h.table values hvalues
    dsimp only
    split
    · exact hpoints rfl
    · have hmatrix := hmatrix rfl
      simp only [matrixSize?, NodeRecord.args] at hmatrix
      obtain ⟨ha, hv⟩ | ⟨a, v, ha, hv, hd⟩ := hvs.head
      · rw [hv]
        exact hmatrix 0 (by rw [ha])
      · rw [hv]
        rw [ha] at hmatrix
        cases a with
        | ref number =>
          obtain ⟨id, rfl, hid⟩ := hd
          obtain ⟨w, hw, hd⟩ := hnamed number id hid
          obtain ⟨n, hn, -⟩ := hd.exists_node
          simp only [Model.node_eq_ok.2 hn]
          rw [hd.transitionSize hn]
          exact hmatrix _ (congrArg (Option.map transitionSize) hw)
        | inline w =>
          obtain ⟨id, rfl, hd⟩ := hd
          obtain ⟨n, hn, -⟩ := hd.exists_node
          simp only [Model.node_eq_ok.2 hn]
          rw [hd.transitionSize hn]
          exact hmatrix _ rfl
        | list items =>
          obtain ⟨vs, rfl, hvs⟩ := hd
          show checkTransitions values vs.length = _
          rw [hvs.length]
          exact hmatrix _ rfl
        | bool b | int v | float x =>
          obtain rfl := hd
          exact hmatrix 0 rfl
    · rfl

end Facts

end Scheduling
