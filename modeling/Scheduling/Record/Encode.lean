import Scheduling.Record.Error

/-!
# Records of models and solutions

A model becomes a record by writing every node with a number once, in the order of the numbers, and
every other node where it is used.
-/

namespace Scheduling

namespace Model

mutual

/-- The record of an argument, given the record of a node that is used. -/
def argRecord (reference : NodeId → Except ProtocolError ArgRecord) :
    Arg → Except ProtocolError ArgRecord
  | .int v => .ok (.int v)
  | .float x => .ok (.float x)
  | .bool b => .ok (.bool b)
  | .node id => reference id
  | .list items =>
    match argRecords reference items with
    | .ok items => .ok (.list items)
    | .error e => .error e

/-- The records of arguments, from left to right. -/
def argRecords (reference : NodeId → Except ProtocolError ArgRecord) :
    List Arg → Except ProtocolError (List ArgRecord)
  | [] => .ok []
  | a :: rest =>
    match argRecord reference a with
    | .error e => .error e
    | .ok a =>
      match argRecords reference rest with
      | .error e => .error e
      | .ok rest => .ok (a :: rest)

end

/-- The record of a node, given the records of nodes that it uses. -/
def nodeRecord (reference : NodeId → Except ProtocolError ArgRecord) (n : Node) :
    Except ProtocolError NodeRecord :=
  match argRecords reference n.args with
  | .ok args => .ok (.mk n.operator args n.toAttributes)
  | .error e => .error e

/-- The record of a use of a node that stands among the first `depth` nodes: its number, or the node
itself. -/
def referenceBelow (m : Model) : (depth : Nat) → NodeId → Except ProtocolError ArgRecord
  | 0, id => .error (.model (.unknownNode id))
  | depth + 1, id =>
    match m.node id with
    | .error e => .error (.model e)
    | .ok n =>
      match n.ref with
      | some number => .ok (.ref number)
      | none =>
        match nodeRecord (m.referenceBelow depth) n with
        | .ok n => .ok (.inline n)
        | .error e => .error e

/-- The record of a use of a node. -/
def reference (m : Model) (id : NodeId) : Except ProtocolError ArgRecord :=
  m.referenceBelow m.nodes.size id

/-- The record of a node with a number. -/
def refRecord (m : Model) (id : NodeId) : Except ProtocolError NodeRecord :=
  match m.node id with
  | .ok n => nodeRecord m.reference n
  | .error e => .error (.model e)

/-- The record of the model. -/
def record (m : Model) : Except ProtocolError ModelRecord := do
  let refs ← m.refs.toList.mapM m.refRecord
  let topLevel ← m.topLevel.toList.mapM m.reference
  let objective ← m.objective.mapM fun o => do
    let expr ← m.reference o.expr
    pure (ObjectiveRecord.mk o.sense expr)
  pure ⟨m.name, refs, topLevel, objective⟩

/-- The number of a variable. -/
def variableRef (m : Model) (id : NodeId) : Except ProtocolError Nat :=
  match m.node id with
  | .error e => .error (.model e)
  | .ok n =>
    match n.ref with
    | some number => if n.operator.isVariable then .ok number else .error (.notVariable id)
    | none => .error (.notVariable id)

/-- The record of a solution of the model. -/
def solutionRecord (m : Model) (s : Solution) : Except ProtocolError SolutionRecord := do
  let values ← s.values.entries.mapM fun (id, v) => do
    let number ← m.variableRef id
    pure (number, v)
  pure ⟨s.objective, values⟩

/-- The records of the domains of variables. -/
def domainRecords (m : Model) (d : ModelDomains) : Except ProtocolError (List (Nat × Domain)) :=
  d.entries.mapM fun (id, d) => do
    let number ← m.variableRef id
    pure (number, d)

end Model

end Scheduling
