import Scheduling.Model.Basic

/-!
# Building

Steps that extend a model. A step that fails keeps what it had already done, at most constants for
operands that came before the bad one, so the model after a failed step is part of its outcome.
-/

namespace Scheduling

/-- A step that extends a model, and may fail. -/
abbrev Building (α : Type) := ExceptT ModelError (StateM Model) α

/-- An integer operand: a literal or a node. -/
inductive IntOperand where
  | const (v : Int)
  | node (id : NodeId)
deriving DecidableEq, Repr

/-- A numeric operand: a literal or a node. An integer literal stays an integer. -/
inductive FloatOperand where
  | int (v : Int)
  | float (x : Float)
  | node (id : NodeId)
deriving DecidableEq, Repr

/-- A truth-valued operand: a literal or a node. -/
inductive BoolOperand where
  | const (b : Bool)
  | node (id : NodeId)
deriving DecidableEq, Repr

namespace Building

/-! ## Checks -/

/-- Fails without changing the model. -/
def fail {α : Type} (e : ModelError) : Building α := throw e

/-- A result or an error of a check that does not change the model. -/
def check {α : Type} (result : Except ModelError α) : Building α :=
  match result with
  | .ok a => pure a
  | .error e => fail e

/-- A node of the model. -/
def node (id : NodeId) : Building Node := do check ((← get).node id)

/-- Checks the kind of a node. -/
def expect (expected : Expectation) (id : NodeId) : Building Unit := do
  let n ← node id
  if expected.accepts n.kind then pure () else fail (.kindMismatch id expected n.kind)

/-- Checks the kinds of nodes, from left to right. -/
def expectAll (expected : Expectation) : List NodeId → Building Unit
  | [] => pure ()
  | id :: rest => do
    expect expected id
    expectAll expected rest

/-- A float that is finite, as every literal has to be. -/
def finite (what : String) (x : Float) : Building Float :=
  if x.isFinite then pure x
  else fail (.outOfRange what x (-1.7976931348623157e308) 1.7976931348623157e308)

/-! ## Nodes -/

/-- Appends a node without counting uses. -/
def append (n : Node) : Building NodeId := do
  let m ← get
  set (m.push n)
  pure (m.idAt m.nodes.size)

/-- The constant, built unless the model has it already. -/
def constant (is : Node → Bool) (operator : Operator) (value : Arg) : Building NodeId := do
  match (← get).constant? is with
  | some id => pure id
  | none => append (.plain operator [value])

/-- The constant of an integer. -/
def intConst (v : Int) : Building NodeId := constant (Node.isIntConst v) .intConst (.int v)

/-- The constant of a finite float. -/
def floatConst (x : Float) : Building NodeId := do
  let x ← finite "floatConst" x
  constant (Node.isFloatConst x) .floatConst (.float x)

/-- The constant of a truth value. -/
def boolConst (b : Bool) : Building NodeId := constant (Node.isBoolConst b) .boolConst (.bool b)

/-- Appends a node that uses its operands. A variable is numbered at once, and a constraint joins
the constraints of the model. -/
def add (n : Node) : Building NodeId := do
  n.operands.forM fun id => discard (node id)
  let id ← append n
  modify fun m => n.operands.foldl Model.use m
  if n.operator.isVariable then modify (·.materialize id)
  if n.operator.isConstraint then modify (·.addTopLevel id)
  pure id

/-! ## Operands -/

/-- The node of an integer operand. -/
def intOperand : IntOperand → Building NodeId
  | .const v => intConst v
  | .node id => do
    expect .integral id
    pure id

/-- The node of a numeric operand. -/
def floatOperand : FloatOperand → Building NodeId
  | .int v => intConst v
  | .float x => floatConst x
  | .node id => do
    expect .numeric id
    pure id

/-- The node of a truth-valued operand. -/
def boolOperand : BoolOperand → Building NodeId
  | .const b => boolConst b
  | .node id => do
    expect .boolean id
    pure id

/-- An integer argument, where a literal stays a literal. -/
def intArg : IntOperand → Building Arg
  | .const v => pure (.int v)
  | .node id => do
    expect .integral id
    pure (.node id)

/-- The nodes of integer operands, from left to right. -/
def intOperands : List IntOperand → Building (List NodeId)
  | [] => pure []
  | a :: rest => do
    let id ← intOperand a
    let ids ← intOperands rest
    pure (id :: ids)

/-- The nodes of numeric operands, from left to right. -/
def floatOperands : List FloatOperand → Building (List NodeId)
  | [] => pure []
  | a :: rest => do
    let id ← floatOperand a
    let ids ← floatOperands rest
    pure (id :: ids)

end Building

end Scheduling
