import Scheduling.Eval.Node

/-!
# Evaluation

The values of nodes under a solution. `Model.value` finds a value from scratch; `Evaluator.value`
remembers the values that it finds, so that a shared node is evaluated once.
-/

namespace Scheduling

namespace Model

/-- The value of a node that stands among the first `depth` nodes. -/
def valueBelow (m : Model) (s : Solution) : (depth : Nat) → NodeId → Except EvalError Value
  | 0, id => .error (.model (.unknownNode id))
  | depth + 1, id =>
    match m.node id with
    | .error e => .error (.model e)
    | .ok n => (m.nodeValue s depth id n).resolve (m.valueBelow s depth)

/-- The value of a node. -/
def value (m : Model) (s : Solution) (id : NodeId) : Except EvalError Value :=
  m.valueBelow s m.nodes.size id

/-- The value of an argument. -/
def argValue (m : Model) (s : Solution) (a : Arg) : Except EvalError Value :=
  a.value.resolve (m.value s)

/-- Whether a constraint or a truth-valued node holds; `none` when it is absent. -/
def holds (m : Model) (s : Solution) (id : NodeId) : Except EvalError (Option Bool) :=
  (m.holdsQuery m.nodes.size id).resolve (m.value s)

end Model

/-! ## Remembered values -/

namespace Evaluator

open Query

/-- No value is remembered yet. -/
def start (m : Model) : Memory := Array.replicate m.nodes.size none

/-- The remembered value of a node of the model. -/
def recalled? (m : Model) (memory : Memory) (id : NodeId) : Option Value :=
  if id.model = m.tag then (memory[id.index]?).join else none

/-- The value of a node that stands among the first `depth` nodes. -/
def valueBelow (m : Model) (s : Solution) : (depth : Nat) → NodeId → Remembering Value
  | 0, id => fun memory => (.error (.model (.unknownNode id)), memory)
  | depth + 1, id => fun memory =>
    match recalled? m memory id with
    | some v => (.ok v, memory)
    | none =>
      match m.node id with
      | .error e => (.error (.model e), memory)
      | .ok n =>
        match (m.nodeValue s depth id n).resolveWith (valueBelow m s depth) memory with
        | (.ok v, memory) => (.ok v, memory.setIfInBounds id.index (some v))
        | (.error e, memory) => (.error e, memory)

/-- The value of a node. -/
def value (m : Model) (s : Solution) (id : NodeId) : Remembering Value :=
  valueBelow m s m.nodes.size id

/-- The value of an argument. -/
def argValue (m : Model) (s : Solution) (a : Arg) : Remembering Value :=
  a.value.resolveWith (value m s)

/-- Whether a constraint or a truth-valued node holds; `none` when it is absent. -/
def holds (m : Model) (s : Solution) (id : NodeId) : Remembering (Option Bool) :=
  (m.holdsQuery m.nodes.size id).resolveWith (value m s)

end Evaluator

/-- The value of a node, found with an evaluator of its own. -/
def Model.eval (m : Model) (s : Solution) (id : NodeId) : Except EvalError Value :=
  (Evaluator.value m s id (Evaluator.start m)).1

/-- Whether a node holds, found with an evaluator of its own. -/
def Model.evalConstraint (m : Model) (s : Solution) (id : NodeId) :
    Except EvalError (Option Bool) :=
  (Evaluator.holds m s id (Evaluator.start m)).1

end Scheduling
