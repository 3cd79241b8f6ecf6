import Scheduling.Model.Table
import Scheduling.Model.Variable

/-!
# The modeling vocabulary

Every way to extend a model, as data. A sequence of calls is a program that builds a model;
`Call.run` carries out one of them.
-/

namespace Scheduling

/-- A call that extends a model. -/
inductive Call where
  | intVar (v : IntVarSpec)
  | boolVar (v : BoolVarSpec)
  | floatVar (v : FloatVarSpec)
  | intervalVar (v : IntervalVarSpec)
  | sequenceVar (v : SequenceVarSpec)
  | intConst (v : Int)
  | floatConst (x : Float)
  | boolConst (b : Bool)
  | int (op : Arithmetic) (a b : IntOperand)
  | intNeg (a : IntOperand)
  | intAbs (a : IntOperand)
  | intAggregate (op : Aggregate) (items : List IntOperand)
  | intGuard (a : IntOperand) (default : Int)
  | float (op : Arithmetic) (a b : FloatOperand)
  | floatNeg (a : FloatOperand)
  | floatAbs (a : FloatOperand)
  | floatAggregate (op : Aggregate) (items : List FloatOperand)
  | floatGuard (a : FloatOperand) (default : Float)
  | presence (id : NodeId)
  | identity (a b : FloatOperand)
  | compare (c : Comparison) (a b : FloatOperand)
  | inRange (a : FloatOperand) (least greatest : Float)
  | connect (c : Connective) (a b : BoolOperand)
  | not (a : BoolOperand)
  | measure (m : Measure) (interval : NodeId)
  | measureOr (m : Measure) (interval : NodeId) (default : Int)
  | precedence (p : Precedence) (a b : NodeId) (delay : IntOperand)
  | alternative (main : NodeId) (options : List NodeId)
  | span (main : NodeId) (covered : List NodeId)
  | noOverlap (intervals : List NodeId) (transitions : Option (List (List Int)))
  | noOverlapSequence (sequence : NodeId) (transitions : Option (List (List Int)))
  | intervalStep (s : IntervalStep) (interval : NodeId) (height : IntOperand)
  | stepAt (time : Int) (height : IntOperand)
  | cumulPlus (a b : NodeId)
  | cumulMinus (a b : NodeId)
  | cumulNeg (a : NodeId)
  | cumulSum (items : List NodeId)
  | cumulBound (b : Bounding) (f : NodeId) (bound : Int)
  | stepFunction (points : List (Int × Int))
  | stepFunctionEval (f : NodeId) (time : IntOperand)
  | stepFunctionSum (f interval : NodeId)
  | forbid (what : Forbidden) (interval f : NodeId)
  | constraint (a : BoolOperand)
  | optimize (sense : Sense) (a : FloatOperand)
  | nameNode (id : NodeId) (name : String)
  | nameModel (name : String)
deriving Repr

namespace Building

/-- A node whose arguments are other nodes. -/
def addOver (operator : Operator) (ids : List NodeId) : Building NodeId :=
  add (.plain operator (ids.map Arg.node))

/-- A node over a list of intervals, with an interval before the list if there is one. -/
def overIntervals (operator : Operator) (main : List NodeId) (items : List NodeId) :
    Building NodeId := do
  expectAll .interval main
  expectAll .interval items
  add (.plain operator (main.map Arg.node ++ [.list (items.map Arg.node)]))

/-- Relates two intervals. No delay is recorded when it is the literal zero. -/
def precedence (p : Precedence) (a b : NodeId) (delay : IntOperand) : Building NodeId := do
  expect .interval a
  expect .interval b
  let delay ← intArg delay
  let tail :=
    match delay with
    | .int 0 => []
    | d => [d]
  add (.plain (.precedence p) ([.node a, .node b] ++ tail))

/-- Keeps the present intervals of a list apart. -/
def noOverlap (intervals : List NodeId) (transitions : Option (List (List Int))) :
    Building NodeId := do
  expectAll .interval intervals
  if let some matrix := transitions then check (checkTransitions matrix intervals.length)
  add { Node.plain .noOverlap [.list (intervals.map Arg.node)] with values := transitions }

/-- Keeps the present intervals of a sequence apart. -/
def noOverlapSequence (sequence : NodeId) (transitions : Option (List (List Int))) :
    Building NodeId := do
  let seq ← node sequence
  if seq.operator ≠ .sequenceVar then fail (.kindMismatch sequence .sequence seq.kind)
  if let some matrix := transitions then check (checkTransitions matrix seq.transitionSize)
  add { Node.plain .noOverlap [.node sequence] with values := transitions }

/-- A step function through points. -/
def stepFunction (points : List (Int × Int)) : Building NodeId := do
  let values := points.map fun (x, y) => [x, y]
  check (checkStepPoints values)
  add { Node.plain .stepFunction [] with values := some values }

/-- Adds a truth-valued expression to the constraints. -/
def constraint (a : BoolOperand) : Building Unit := do
  let id ← boolOperand a
  modify (·.addTopLevel id)

/-- Makes an expression the objective. -/
def optimize (sense : Sense) (a : FloatOperand) : Building Unit := do
  let expr ← floatOperand a
  modify fun m => { m.materialize expr with objective := some ⟨sense, expr⟩ }

/-- Names a node, which numbers it. -/
def nameNode (id : NodeId) (name : String) : Building Unit := do
  let _ ← node id
  modify fun m => (m.modify id.index fun n => { n with name := some name }).materialize id

end Building

namespace Call

open Building

/-- Carries out a call. The result is the node that it returns, for a call that returns one. -/
def run : Call → Building (Option NodeId)
  | .intVar v => some <$> Building.intVar v
  | .boolVar v => some <$> Building.boolVar v
  | .floatVar v => some <$> Building.floatVar v
  | .intervalVar v => some <$> Building.intervalVar v
  | .sequenceVar v => some <$> Building.sequenceVar v
  | .intConst v => some <$> Building.intConst v
  | .floatConst x => some <$> Building.floatConst x
  | .boolConst b => some <$> Building.boolConst b
  | .int op a b => do
    let a ← intOperand a
    let b ← intOperand b
    some <$> addOver (.int op) [a, b]
  | .intNeg a => do
    let a ← intOperand a
    some <$> addOver .intNeg [a]
  | .intAbs a => do
    let a ← intOperand a
    some <$> addOver .intAbs [a]
  | .intAggregate op items => do
    let ids ← intOperands items
    some <$> add (.plain (.intAggregate op) [.list (ids.map Arg.node)])
  | .intGuard a default => do
    let a ← intOperand a
    some <$> add (.plain .intGuard [.node a, .int default])
  | .float op a b => do
    let a ← floatOperand a
    let b ← floatOperand b
    some <$> addOver (.float op) [a, b]
  | .floatNeg a => do
    let a ← floatOperand a
    some <$> addOver .floatNeg [a]
  | .floatAbs a => do
    let a ← floatOperand a
    some <$> addOver .floatAbs [a]
  | .floatAggregate op items => do
    let ids ← floatOperands items
    some <$> add (.plain (.floatAggregate op) [.list (ids.map Arg.node)])
  | .floatGuard a default => do
    let default ← finite "floatGuard" default
    let a ← floatOperand a
    some <$> add (.plain .floatGuard [.node a, .float default])
  | .presence id => do
    let _ ← node id
    some <$> addOver .presence [id]
  | .identity a b => do
    let a ← floatOperand a
    let b ← floatOperand b
    some <$> addOver .identity [a, b]
  | .compare c a b => do
    let a ← floatOperand a
    let b ← floatOperand b
    some <$> addOver (.compare c) [a, b]
  | .inRange a least greatest => do
    let least ← finite "inRange" least
    let greatest ← finite "inRange" greatest
    let a ← floatOperand a
    some <$> add (.plain .inRange [.node a, .float least, .float greatest])
  | .connect c a b => do
    let a ← boolOperand a
    let b ← boolOperand b
    some <$> addOver (.connect c) [a, b]
  | .not a => do
    let a ← boolOperand a
    some <$> addOver .not [a]
  | .measure m interval => do
    expect .interval interval
    some <$> addOver (.measure m) [interval]
  | .measureOr m interval default => do
    expect .interval interval
    some <$> add (.plain (.measureOr m) [.node interval, .int default])
  | .precedence p a b delay => some <$> Building.precedence p a b delay
  | .alternative main options => some <$> overIntervals .alternative [main] options
  | .span main covered => some <$> overIntervals .span [main] covered
  | .noOverlap intervals transitions => some <$> Building.noOverlap intervals transitions
  | .noOverlapSequence sequence transitions =>
    some <$> Building.noOverlapSequence sequence transitions
  | .intervalStep s interval height => do
    expect .interval interval
    let height ← intArg height
    some <$> add (.plain (.intervalStep s) [.node interval, height])
  | .stepAt time height => do
    let height ← intArg height
    some <$> add (.plain .stepAt [.int time, height])
  | .cumulPlus a b => do
    expectAll .cumulative [a, b]
    some <$> addOver .cumulPlus [a, b]
  | .cumulMinus a b => do
    expectAll .cumulative [a, b]
    some <$> addOver .cumulMinus [a, b]
  | .cumulNeg a => do
    expect .cumulative a
    some <$> addOver .cumulNeg [a]
  | .cumulSum items => do
    expectAll .cumulative items
    some <$> add (.plain .cumulSum [.list (items.map Arg.node)])
  | .cumulBound b f bound => do
    expect .cumulative f
    some <$> add (.plain (.cumulBound b) [.node f, .int bound])
  | .stepFunction points => some <$> Building.stepFunction points
  | .stepFunctionEval f time => do
    expect .stepFunction f
    let x ← intOperand time
    some <$> addOver .stepFunctionEval [f, x]
  | .stepFunctionSum f interval => do
    expect .stepFunction f
    expect .interval interval
    some <$> addOver .stepFunctionSum [f, interval]
  | .forbid what interval f => do
    expect .stepFunction f
    expect .interval interval
    some <$> addOver (.forbid what) [interval, f]
  | .constraint a => do
    Building.constraint a
    pure none
  | .optimize sense a => do
    Building.optimize sense a
    pure none
  | .nameNode id name => do
    Building.nameNode id name
    pure none
  | .nameModel name => do
    modify fun m => { m with name := some name }
    pure none

end Call

/-- Carries out a call on a model: its outcome and the model after it. -/
def Model.call (m : Model) (c : Call) : Except ModelError (Option NodeId) × Model := c.run m

/-- The model after calls, whether they succeed or fail. -/
def Model.calls (m : Model) (cs : List Call) : Model := cs.foldl (fun m c => (m.call c).2) m

end Scheduling
