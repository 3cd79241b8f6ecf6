/-!
# Operators

What a node of a model computes: its tag in records, the kind of its value and how many arguments it
takes. Operators that differ only in one choice, such as the eight precedences, are one constructor
with that choice as data.
-/

namespace Scheduling

/-! ## Kinds -/

/-- The kind of value that a node stands for. -/
inductive Kind where
  | bool
  | int
  | float
  | interval
  | sequence
  | cumul
  | stepFunction
  | constraint
deriving DecidableEq, Repr

namespace Kind

/-- What a value of the kind is called. -/
def name : Kind → String
  | bool => "bool expression"
  | int => "int expression"
  | float => "float expression"
  | interval => "interval variable"
  | sequence => "sequence variable"
  | cumul => "cumulative expression"
  | stepFunction => "step function"
  | constraint => "constraint"

/-- Whether the values are integers; a truth value is 0 or 1. -/
def isIntegral : Kind → Bool
  | bool | int => true
  | _ => false

/-- Whether the values are numbers. -/
def isNumeric : Kind → Bool
  | bool | int | float => true
  | _ => false

end Kind

/-! ## Choices within operators -/

/-- Arithmetic on two numbers. -/
inductive Arithmetic where
  | plus
  | minus
  | times
  | div
  | min2
  | max2
deriving DecidableEq, Repr

/-- A fold over a list of numbers. -/
inductive Aggregate where
  | sum
  | min
  | max
deriving DecidableEq, Repr

/-- A comparison of two numbers. -/
inductive Comparison where
  | eq
  | ne
  | lt
  | le
  | gt
  | ge
deriving DecidableEq, Repr

/-- A connective of two truth values. -/
inductive Connective where
  | and
  | or
  | implies
deriving DecidableEq, Repr

/-- A measure of an interval. -/
inductive Measure where
  | start
  | finish
  | length
deriving DecidableEq, Repr

/-- A precedence between two intervals: which endpoints it relates, and whether the first one comes
exactly the delay before the second or at least that. -/
structure Precedence where
  /-- The end of the first interval rather than its start. -/
  firstEnd : Bool
  /-- The end of the second interval rather than its start. -/
  secondEnd : Bool
  /-- Exactly the delay. -/
  exact : Bool
deriving DecidableEq, Repr

/-- How an interval changes a cumulative function. -/
inductive IntervalStep where
  /-- Up at the start and down again at the end. -/
  | pulse
  /-- Up at the start. -/
  | atStart
  /-- Up at the end. -/
  | atEnd
deriving DecidableEq, Repr

/-- A side on which a cumulative function is bounded. -/
inductive Bounding where
  | atMost
  | atLeast
deriving DecidableEq, Repr

/-- What of an interval may not meet a zero of a step function. -/
inductive Forbidden where
  | extent
  | start
  | finish
deriving DecidableEq, Repr

/-! ## Operators -/

/-- What a node computes. -/
inductive Operator where
  | intVar
  | boolVar
  | floatVar
  | intervalVar
  | sequenceVar
  | intConst
  | floatConst
  | boolConst
  | int (op : Arithmetic)
  | intNeg
  | intAbs
  | intAggregate (op : Aggregate)
  | intGuard
  | float (op : Arithmetic)
  | floatNeg
  | floatAbs
  | floatAggregate (op : Aggregate)
  | floatGuard
  | presence
  | identity
  | compare (c : Comparison)
  | inRange
  | connect (c : Connective)
  | not
  | measure (m : Measure)
  | measureOr (m : Measure)
  | precedence (p : Precedence)
  | alternative
  | span
  | noOverlap
  | intervalStep (s : IntervalStep)
  | stepAt
  | cumulPlus
  | cumulMinus
  | cumulNeg
  | cumulSum
  | cumulBound (b : Bounding)
  | stepFunction
  | stepFunctionEval
  | stepFunctionSum
  | forbid (f : Forbidden)
deriving DecidableEq, Repr

namespace Arithmetic

/-- All arithmetic operators. -/
def all : List Arithmetic := [plus, minus, times, div, min2, max2]

/-- The name of the operator after the name of its numbers. -/
def suffix : Arithmetic → String
  | plus => "Plus"
  | minus => "Minus"
  | times => "Times"
  | div => "Div"
  | min2 => "Min2"
  | max2 => "Max2"

end Arithmetic

namespace Aggregate

/-- All aggregates. -/
def all : List Aggregate := [sum, min, max]

/-- The name of the aggregate after the name of its numbers. -/
def suffix : Aggregate → String
  | sum => "Sum"
  | min => "Min"
  | max => "Max"

end Aggregate

namespace Comparison

/-- All comparisons. -/
def all : List Comparison := [eq, ne, lt, le, gt, ge]

/-- The name of the comparison. -/
def tag : Comparison → String
  | eq => "eq"
  | ne => "ne"
  | lt => "lt"
  | le => "le"
  | gt => "gt"
  | ge => "ge"

end Comparison

namespace Measure

/-- All measures. -/
def all : List Measure := [start, finish, length]

/-- The name of the measure. -/
def tag : Measure → String
  | start => "start"
  | finish => "end"
  | length => "length"

end Measure

namespace Precedence

/-- All precedences, the inequalities first. -/
def all : List Precedence :=
  [⟨true, false, false⟩, ⟨true, true, false⟩, ⟨false, false, false⟩, ⟨false, true, false⟩,
    ⟨true, false, true⟩, ⟨true, true, true⟩, ⟨false, false, true⟩, ⟨false, true, true⟩]

/-- The name of the precedence. -/
def tag (p : Precedence) : String :=
  (if p.firstEnd then "end" else "start") ++ (if p.exact then "At" else "Before")
    ++ (if p.secondEnd then "End" else "Start")

end Precedence

namespace Operator

/-- All operators, in the order in which they are listed. -/
def all : List Operator :=
  [intVar, boolVar, floatVar, intervalVar, sequenceVar, intConst, floatConst, boolConst,
    int .plus, int .minus, int .times, int .div, intNeg, intAbs, int .min2, int .max2,
    intAggregate .sum, intAggregate .min, intAggregate .max, intGuard,
    float .plus, float .minus, float .times, float .div, floatNeg, floatAbs, float .min2,
    float .max2, floatAggregate .sum, floatAggregate .min, floatAggregate .max, floatGuard,
    presence, identity]
  ++ Comparison.all.map compare
  ++ [inRange, connect .and, connect .or, not, connect .implies]
  ++ Measure.all.map measure ++ Measure.all.map measureOr ++ Precedence.all.map precedence
  ++ [alternative, span, noOverlap, intervalStep .pulse, intervalStep .atStart, intervalStep .atEnd,
    stepAt, cumulPlus, cumulMinus, cumulNeg, cumulSum, cumulBound .atMost, cumulBound .atLeast,
    stepFunction, stepFunctionEval, stepFunctionSum, forbid .extent, forbid .start, forbid .finish]

/-- The name of the operator in records. -/
def tag : Operator → String
  | intVar => "intVar"
  | boolVar => "boolVar"
  | floatVar => "floatVar"
  | intervalVar => "intervalVar"
  | sequenceVar => "sequenceVar"
  | intConst => "intConst"
  | floatConst => "floatConst"
  | boolConst => "boolConst"
  | int op => "int" ++ op.suffix
  | intNeg => "intNeg"
  | intAbs => "intAbs"
  | intAggregate op => "int" ++ op.suffix
  | intGuard => "intGuard"
  | float op => "float" ++ op.suffix
  | floatNeg => "floatNeg"
  | floatAbs => "floatAbs"
  | floatAggregate op => "float" ++ op.suffix
  | floatGuard => "floatGuard"
  | presence => "presence"
  | identity => "identity"
  | compare c => c.tag
  | inRange => "inRange"
  | connect .and => "boolAnd"
  | connect .or => "boolOr"
  | connect .implies => "boolImplies"
  | not => "boolNot"
  | measure m => m.tag ++ "Of"
  | measureOr m => m.tag ++ "Or"
  | precedence p => p.tag
  | alternative => "alternative"
  | span => "span"
  | noOverlap => "noOverlap"
  | intervalStep .pulse => "pulse"
  | intervalStep .atStart => "stepAtStart"
  | intervalStep .atEnd => "stepAtEnd"
  | stepAt => "stepAt"
  | cumulPlus => "cumulPlus"
  | cumulMinus => "cumulMinus"
  | cumulNeg => "cumulNeg"
  | cumulSum => "cumulSum"
  | cumulBound .atMost => "cumulLe"
  | cumulBound .atLeast => "cumulGe"
  | stepFunction => "intStepFunction"
  | stepFunctionEval => "stepFunctionEval"
  | stepFunctionSum => "stepFunctionSum"
  | forbid .extent => "forbidExtent"
  | forbid .start => "forbidStart"
  | forbid .finish => "forbidEnd"

/-- The operator of a name. -/
def ofTag? (tag : String) : Option Operator := all.find? fun op => op.tag == tag

/-- The kind of value that a node with the operator stands for. -/
def kind : Operator → Kind
  | intVar | intConst | int _ | intNeg | intAbs | intAggregate _ | intGuard => .int
  | boolVar | boolConst | presence | identity | compare _ | inRange | connect _ | not => .bool
  | floatVar | floatConst | float _ | floatNeg | floatAbs | floatAggregate _ | floatGuard => .float
  | intervalVar => .interval
  | sequenceVar => .sequence
  | measure _ | measureOr _ | stepFunctionEval | stepFunctionSum => .int
  | precedence _ | alternative | span | noOverlap | cumulBound _ | forbid _ => .constraint
  | intervalStep _ | stepAt | cumulPlus | cumulMinus | cumulNeg | cumulSum => .cumul
  | stepFunction => .stepFunction

/-- The least and the greatest number of arguments. -/
def arity : Operator → Nat × Nat
  | intVar | boolVar | floatVar | intervalVar | stepFunction => (0, 0)
  | sequenceVar | intConst | floatConst | boolConst | intNeg | intAbs | intAggregate _ | floatNeg
  | floatAbs | floatAggregate _ | presence | not | measure _ | noOverlap | cumulNeg | cumulSum =>
    (1, 1)
  | inRange => (3, 3)
  | precedence _ => (2, 3)
  | _ => (2, 2)

/-- Whether a node with the operator is a decision variable. -/
def isVariable : Operator → Bool
  | intVar | boolVar | floatVar | intervalVar | sequenceVar => true
  | _ => false

/-- Whether a node with the operator is a constant. -/
def isConstant : Operator → Bool
  | intConst | floatConst | boolConst => true
  | _ => false

/-- Whether a node with the operator is a constraint, which a model holds as soon as it is built. -/
def isConstraint (op : Operator) : Bool := op.kind == .constraint

end Operator

end Scheduling
