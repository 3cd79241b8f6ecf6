import Scheduling.Arith
import Scheduling.Decimal.Layout
import Scheduling.Model.Node

/-!
# Errors of building

Why a model refuses a call.
-/

namespace Scheduling

/-- What a call asks of a node. -/
inductive Expectation where
  | integral
  | numeric
  | boolean
  | interval
  | sequence
  | cumulative
  | stepFunction
deriving DecidableEq, Repr

namespace Expectation

/-- What the node should have been. -/
def name : Expectation → String
  | integral => "integer expression"
  | numeric => "numeric expression"
  | boolean => "boolean expression"
  | interval => "interval variable"
  | sequence => "sequence variable"
  | cumulative => "cumulative expression"
  | stepFunction => "step function"

/-- Whether a kind is as asked. -/
def accepts : Expectation → Kind → Bool
  | integral, k => k.isIntegral
  | numeric, k => k.isNumeric
  | boolean, k => k == .bool
  | interval, k => k == .interval
  | sequence, k => k == .sequence
  | cumulative, k => k == .cumul
  | stepFunction, k => k == .stepFunction

end Expectation

/-- Why a model refuses a call. -/
inductive ModelError where
  /-- A number is not finite or outside what a variable can have. -/
  | outOfRange (what : String) (value least greatest : Float)
  /-- A lower bound is above its upper bound. -/
  | invalidBounds (what : String) (least greatest : Float)
  /-- A record gives an operator too few or too many arguments. -/
  | arity (operator : Operator) (expected actual : Nat)
  /-- A matrix has the wrong number of rows. -/
  | transitionRows (expected found : Nat)
  /-- A row of a matrix has the wrong number of columns. -/
  | transitionColumns (expected row found : Nat)
  /-- An entry of a matrix is negative. -/
  | negativeTransition (row col : Nat) (value : Int)
  /-- The points of a step function do not increase. -/
  | stepFunctionOrder (previous x : Int)
  /-- The node is of another model, or there is none. -/
  | unknownNode (id : NodeId)
  /-- The node is of another kind. -/
  | kindMismatch (id : NodeId) (expected : Expectation) (actual : Kind)
  /-- A sequence has not one type for each interval. -/
  | sequenceTypeCount (intervals types : Nat)
  /-- A type of a sequence is negative. -/
  | sequenceTypeNegative (type : Int)
  /-- A point of a step function is not a pair. -/
  | stepPointShape (point : List Int)
deriving DecidableEq, Repr

/-- The text of a list of integers. -/
def listText (items : List Int) : String :=
  "[" ++ ", ".intercalate (items.map intText) ++ "]"

namespace ModelError

/-- The beginning of every message about the shape of a matrix. -/
def transitionText (expected : Nat) : String :=
  "transition matrix must be " ++ Nat.repr expected ++ "x" ++ Nat.repr expected ++ ": "

/-- The wording of an error. -/
def message : ModelError → String
  | outOfRange what value least greatest =>
    what ++ " value " ++ Layout.plain.write value ++ " is out of range ["
      ++ Layout.plain.write least ++ ", " ++ Layout.plain.write greatest ++ "]"
  | invalidBounds what least greatest =>
    "invalid " ++ what ++ " bounds: " ++ Layout.plain.write least ++ " > "
      ++ Layout.plain.write greatest
  | arity operator expected actual =>
    operator.tag ++ " expects " ++ Nat.repr expected ++ " argument(s), got " ++ Nat.repr actual
  | transitionRows expected found =>
    transitionText expected ++ "found " ++ Nat.repr found ++ " rows"
  | transitionColumns expected row found =>
    transitionText expected ++ "row " ++ Nat.repr row ++ " has " ++ Nat.repr found ++ " columns"
  | negativeTransition row col value =>
    "negative transition time " ++ intText value ++ " at [" ++ Nat.repr row ++ "]["
      ++ Nat.repr col ++ "]"
  | stepFunctionOrder previous x =>
    "step function points must be strictly increasing, found x=" ++ intText x ++ " after x="
      ++ intText previous
  | unknownNode id => "node " ++ id.describe ++ " does not belong to this model"
  | kindMismatch id expected actual =>
    "node " ++ id.describe ++ " is a " ++ actual.name ++ ", expected " ++ expected.name
  | sequenceTypeCount intervals types =>
    "invalid argument: sequence has " ++ Nat.repr intervals ++ " intervals but " ++ Nat.repr types
      ++ " types"
  | sequenceTypeNegative type =>
    "invalid argument: sequence type " ++ intText type ++ " is negative"
  | stepPointShape point =>
    "invalid argument: step function point must be [x, y], got " ++ listText point

end ModelError

end Scheduling
