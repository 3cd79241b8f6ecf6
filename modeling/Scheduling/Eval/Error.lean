import Scheduling.Model.Error
import Scheduling.Solution

/-!
# Errors of evaluation

Why a node has no value under a solution, and what a check of a solution finds.
-/

namespace Scheduling

/-- What is wrong with a node. -/
inductive NodeFlaw where
  | missingArgument (i : Nat)
  | notList (i : Nat)
  | notIntegral (i : Nat)
  | notNumeric (i : Nat)
  | notBoolean (i : Nat)
  | notNode (i : Nat)
  | operandNotIntegral
  | operandNotNumeric
  | notInterval
  | notBooleanExpression
  | noScalarValue
  | sequenceWithoutIntervals
  | notIntervalsOrSequence
  | notStepFunction
  | stepPointShape
  | notCumulative
  | sumItemNotNode
  | boundNotIntegral
deriving DecidableEq, Repr

namespace NodeFlaw

/-- The wording of a flaw. -/
def message : NodeFlaw → String
  | missingArgument i => "missing argument " ++ Nat.repr i
  | notList i => "argument " ++ Nat.repr i ++ " is not a list"
  | notIntegral i => "argument " ++ Nat.repr i ++ " is not integral"
  | notNumeric i => "argument " ++ Nat.repr i ++ " is not numeric"
  | notBoolean i => "argument " ++ Nat.repr i ++ " is not boolean"
  | notNode i => "argument " ++ Nat.repr i ++ " is not a node"
  | operandNotIntegral => "operand is not integral"
  | operandNotNumeric => "operand is not numeric"
  | notInterval => "expected an interval"
  | notBooleanExpression => "not a boolean expression"
  | noScalarValue => "node has no scalar value"
  | sequenceWithoutIntervals => "sequence without intervals"
  | notIntervalsOrSequence => "expected intervals or a sequence"
  | notStepFunction => "expected a step function"
  | stepPointShape => "step point is not [x, y]"
  | notCumulative => "not a cumulative expression"
  | sumItemNotNode => "cumulSum item is not a node"
  | boundNotIntegral => "bound is not integral"

end NodeFlaw

/-- How a value lies outside the domain of its variable. -/
inductive DomainFlaw where
  | wrongValue (value : SolutionValue) (kind : Kind)
  | presentIsAbsent
  | absentIsPresent
  | outside (what : String) (value least greatest : Int)
  | outsideFloat (value least greatest : Float)
  | lengthOverflow (start finish : Int)
deriving DecidableEq, Repr

/-- The full text of a value. -/
def SolutionValue.describe : SolutionValue → String
  | absent => "Absent"
  | bool b => "Bool(" ++ (if b then "true" else "false") ++ ")"
  | int v => "Int(" ++ intText v ++ ")"
  | float x => "Float(" ++ Layout.literal.write x ++ ")"
  | interval start finish =>
    "Interval \x7b start: " ++ intText start ++ ", end: " ++ intText finish ++ " \x7d"

/-- The full text of the value of an objective. -/
def ObjectiveValue.describe : ObjectiveValue → String
  | undefined => "Undefined"
  | absent => "Absent"
  | value x => "Value(" ++ Layout.literal.write x ++ ")"

namespace DomainFlaw

/-- The wording of a flaw. -/
def message : DomainFlaw → String
  | wrongValue value kind => value.describe ++ " is not a value of a " ++ kind.name
  | presentIsAbsent => "present variable is absent"
  | absentIsPresent => "absent variable is present"
  | outside what value least greatest =>
    what ++ " " ++ intText value ++ " outside [" ++ intText least ++ ", " ++ intText greatest ++ "]"
  | outsideFloat value least greatest =>
    "value " ++ Layout.plain.write value ++ " outside [" ++ Layout.plain.write least ++ ", "
      ++ Layout.plain.write greatest ++ "]"
  | lengthOverflow start finish =>
    "length of [" ++ intText start ++ ", " ++ intText finish ++ ") overflows"

end DomainFlaw

/-- Why an evaluation or a check fails. -/
inductive EvalError where
  | model (e : ModelError)
  | missingValue (id : NodeId)
  | malformed (id : NodeId) (operator : Operator) (flaw : NodeFlaw)
  | listAsScalar
  | domain (id : NodeId) (flaw : DomainFlaw)
  | violated (id : NodeId) (operator : Operator)
  | objective (reported actual : ObjectiveValue)
  /-- A height, its negation or the width of a piece does not fit in 64 bits. -/
  | overflow
deriving DecidableEq, Repr

namespace EvalError

/-- The wording of an error. -/
def message : EvalError → String
  | model e => e.message
  | missingValue id => "variable " ++ id.short ++ " has no value in the solution"
  | malformed id operator flaw =>
    "node " ++ id.short ++ " (" ++ operator.tag ++ ") is malformed: " ++ flaw.message
  | listAsScalar => "list argument used where a scalar is expected"
  | domain id flaw =>
    "value of variable " ++ id.short ++ " violates its domain: " ++ flaw.message
  | violated id operator => "constraint " ++ id.short ++ " (" ++ operator.tag ++ ") is violated"
  | objective reported actual =>
    "reported objective " ++ reported.describe ++ " differs from evaluated " ++ actual.describe
  | overflow => "arithmetic overflow"

end EvalError

end Scheduling
