import Scheduling.Model.Table
import Scheduling.Record.Error

/-!
# Models and solutions of records

A record becomes a model by building every node after its operands. A number may refer to any node
of the record, also to a later one, as long as no node needs itself.
-/

namespace Scheduling

/-- What is known about a number of a record. -/
inductive Slot where
  /-- Nothing was built for it yet. -/
  | pending
  /-- Its operands are being built. -/
  | visiting
  /-- It is built. -/
  | built (id : NodeId)
deriving DecidableEq, Repr, Inhabited

/-- A model that is being built from a record. -/
structure Restoring where
  model : Model
  slots : Array Slot

namespace Restoring

/-- A step of building a model from a record. -/
abbrev Step (α : Type) := StateT Restoring (Except ProtocolError) α

/-- Fails. -/
def fail {α : Type} (e : ProtocolError) : Step α := throw e

/-- A check of the model's own rules. -/
def check (result : Except ModelError Unit) : Step Unit :=
  match result with
  | .ok () => pure ()
  | .error e => fail (.model e)

/-- Checks the table of a node. -/
def checkValues (m : Model) (n : NodeRecord) (args : List Arg) : Except ModelError Unit :=
  match n.attributes.values with
  | none => .ok ()
  | some values =>
    match n.operator with
    | .stepFunction => checkStepPoints values
    | .noOverlap =>
      match args.head? with
      | some (.list items) => checkTransitions values items.length
      | some (.node seq) =>
        match m.node seq with
        | .ok seq => checkTransitions values seq.transitionSize
        | .error e => .error e
      | _ => checkTransitions values 0
    | _ => .ok ()

/-- Counts a use without numbering. -/
def countUse (m : Model) (id : NodeId) : Model :=
  m.modify id.index fun n => { n with uses := n.uses + 1 }

/-- Appends a node whose operands stand in the model. -/
def insert (m : Model) (n : Node) : Model := n.operands.foldl countUse (m.push n)

mutual

/-- Builds what an argument needs, given how a number is resolved. -/
def arg (resolve : Nat → Step NodeId) : ArgRecord → Step Arg
  | .ref number => Arg.node <$> resolve number
  | .inline n => Arg.node <$> node resolve n
  | .bool b => pure (.bool b)
  | .int v => pure (.int v)
  | .float x => pure (.float x)
  | .list items => Arg.list <$> args resolve items

/-- Builds what arguments need, from left to right. -/
def args (resolve : Nat → Step NodeId) : List ArgRecord → Step (List Arg)
  | [] => pure []
  | a :: rest => do
    let a ← arg resolve a
    let rest ← args resolve rest
    pure (a :: rest)

/-- Builds a node after its operands. -/
def node (resolve : Nat → Step NodeId) : NodeRecord → Step NodeId
  | .mk operator items attributes => do
    let operands ← args resolve items
    let (least, greatest) := operator.arity
    if operands.length < least ∨ greatest < operands.length then
      fail (.model (.arity operator least operands.length))
    let m := (← get).model
    check (checkValues m (.mk operator items attributes) operands)
    let id := m.idAt m.nodes.size
    modify fun r => { r with model := insert r.model (.fresh operator operands attributes) }
    pure id

end

/-- Builds the node of a number unless it is built. At most `fuel` numbers are still pending. -/
def resolve (refs : Array NodeRecord) : (fuel : Nat) → Nat → Step NodeId
  | fuel, number => do
    match (← get).slots[number]? with
    | none => fail (.danglingRef number)
    | some (.built id) => pure id
    | some .visiting => fail (.cycle number)
    | some .pending =>
      match fuel, refs[number]? with
      | fuel + 1, some n => do
        modify fun r => { r with slots := r.slots.setIfInBounds number .visiting }
        let id ← node (resolve refs fuel) n
        modify fun r => { r with slots := r.slots.setIfInBounds number (.built id) }
        pure id
      | _, _ => fail (.danglingRef number)

/-- Builds an argument that has to be a node. -/
def nodeArg (resolve : Nat → Step NodeId) (a : ArgRecord) : Step NodeId := do
  match ← arg resolve a with
  | .node id => pure id
  | found => fail (.notReference found)

/-- Numbers nodes in the order given. -/
def numberRefs (m : Model) : (number : Nat) → List NodeId → Model
  | _, [] => m
  | number, id :: rest =>
    numberRefs (m.modify id.index fun n => { n with ref := some number }) (number + 1) rest

/-- Numbers the nodes that have a name but no number. -/
def numberNamed (m : Model) : Model :=
  m.ids.foldl
    (fun m id => if (m.node? id).any fun n => n.name.isSome then m.materialize id else m) m

/-- Builds the whole model of a record. -/
def restore (r : ModelRecord) : Step Unit := do
  let refs := r.refs.toArray
  let resolve := resolve refs refs.size
  let ids ← (List.range refs.size).mapM resolve
  modify fun s => { s with model := { numberRefs s.model 0 ids with refs := ids.toArray } }
  r.topLevel.forM fun a => do
    let id ← nodeArg resolve a
    modify fun s =>
      { s with model := { countUse s.model id with topLevel := s.model.topLevel.push id } }
  if let some o := r.objective then
    let expr ← nodeArg resolve o.expr
    modify fun s =>
      { s with model := { s.model.materialize expr with objective := some ⟨o.sense, expr⟩ } }
  modify fun s => { s with model := numberNamed s.model }

end Restoring

/-- The model of a record; its nodes get a tag. -/
def Model.ofRecord (tag : Nat) (r : ModelRecord) : Except ProtocolError Model :=
  match (Restoring.restore r).run ⟨.empty tag r.name, Array.replicate r.refs.length .pending⟩ with
  | .ok ((), s) => .ok s.model
  | .error e => .error e

namespace Model

/-- The variable with a number, and its operator. -/
def variableAt (m : Model) (number : Nat) : Except ProtocolError (NodeId × Operator) :=
  match m.byRef? number with
  | none => .error (.unknownId number)
  | some id =>
    match m.node id with
    | .error e => .error (.model e)
    | .ok n => if n.operator.isVariable then .ok (id, n.operator) else .error (.unknownId number)

/-- A value as one of the variable's kind: an integer stands for a float or for a truth value. -/
def adapted : Operator → SolutionValue → SolutionValue
  | .floatVar, .int v => .float (.ofInt v)
  | .boolVar, .int v => .bool (v ≠ 0)
  | _, v => v

/-- Sets the values of a record, the last one of each variable. -/
def withValues (m : Model) (s : Solution) :
    List (Nat × SolutionValue) → Except ProtocolError Solution
  | [] => .ok s
  | (number, v) :: rest =>
    match m.variableAt number with
    | .ok (id, operator) => m.withValues (s.set id (adapted operator v)) rest
    | .error e => .error e

/-- The solution of a record. -/
def solution (m : Model) (r : SolutionRecord) : Except ProtocolError Solution := do
  let s ← m.withValues .empty r.values
  pure { s with objective := r.objective }

/-- The domains of records, the last one of each variable. -/
def withDomains (m : Model) (ds : ModelDomains) :
    List (Nat × Domain) → Except ProtocolError ModelDomains
  | [] => .ok ds
  | (number, d) :: rest =>
    match m.variableAt number with
    | .ok (id, _) => m.withDomains (ds.insert id d) rest
    | .error e => .error e

end Model

end Scheduling
