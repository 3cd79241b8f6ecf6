import Scheduling.Eval.Query
import Scheduling.Eval.StepPoints

/-!
# The value of a node

What a node asks of its operands, and what it makes of their values. Absence of an operand makes
most nodes absent; guards, presence, identity, the measures with a default and the folds over lists
do without it. A constraint that is absent counts as satisfied.
-/

namespace Scheduling

/-! ## Arithmetic -/

/-- The smaller of two floats; one that is not a number gives way. -/
def lesser (a b : Float) : Float := if a.isNaN then b else if b < a then b else a

/-- The greater of two floats; one that is not a number gives way. -/
def greater (a b : Float) : Float := if a.isNaN then b else if a < b then b else a

namespace Arithmetic

/-- The result on integers, unless it does not fit in 64 bits or divides by zero. -/
def ints? : Arithmetic → Int → Int → Option Int
  | plus, a, b => checked (a + b)
  | minus, a, b => checked (a - b)
  | times, a, b => checked (a * b)
  | div, a, b => checkedDiv a b
  | min2, a, b => some (min a b)
  | max2, a, b => some (max a b)

/-- The result on floats, unless it divides by zero. -/
def floats? : Arithmetic → Float → Float → Option Float
  | plus, a, b => some (a + b)
  | minus, a, b => some (a - b)
  | times, a, b => some (a * b)
  | div, a, b => if b == 0.0 then none else some (a / b)
  | min2, a, b => some (lesser a b)
  | max2, a, b => some (greater a b)

end Arithmetic

namespace Aggregate

/-- The sum of integers from left to right, unless a partial sum does not fit in 64 bits. -/
def sumInts? : (total : Int) → List Int → Option Int
  | total, [] => some total
  | total, v :: rest =>
    match checked (total + v) with
    | some t => sumInts? t rest
    | none => none

/-- The result on the integers that are present. -/
def ints? : Aggregate → List Int → Option Int
  | sum, vs => sumInts? 0 vs
  | min, vs => vs.min?
  | max, vs => vs.max?

/-- The first float combined with the others from left to right. -/
def reduce? (f : Float → Float → Float) : List Float → Option Float
  | [] => none
  | x :: rest => some (rest.foldl f x)

/-- The result on the floats that are present. A sum starts from negative zero, which changes no
other term. -/
def floats? : Aggregate → List Float → Option Float
  | sum, xs => some (xs.foldl (· + ·) (-0.0))
  | min, xs => reduce? lesser xs
  | max, xs => reduce? greater xs

end Aggregate

namespace Comparison

/-- Whether a comparison holds. Integers are compared as floats. -/
def holds : Comparison → Float → Float → Bool
  | eq, a, b => a == b
  | ne, a, b => !(a == b)
  | lt, a, b => decide (a < b)
  | le, a, b => decide (a ≤ b)
  | gt, a, b => decide (b < a)
  | ge, a, b => decide (b ≤ a)

end Comparison

/-- Whether two floats are equal or both absent. -/
def identical : Option Float → Option Float → Bool
  | some a, some b => a == b
  | none, none => true
  | _, _ => false

namespace Connective

/-- Whether a connective holds. -/
def holds : Connective → Bool → Bool → Bool
  | and, a, b => a && b
  | or, a, b => a || b
  | implies, a, b => !a || b

end Connective

namespace Measure

/-- The measure of an interval, unless it does not fit in 64 bits. -/
def of? : Measure → Int × Int → Option Int
  | start, (s, _) => some s
  | finish, (_, e) => some e
  | length, (s, e) => checked (e - s)

end Measure

namespace Precedence

/-- Whether a precedence holds for two intervals and a delay. An endpoint that the delay moves out
of 64 bits comes too late. -/
def holds (p : Precedence) (a b : Int × Int) (delay : Int) : Bool :=
  match checked ((if p.firstEnd then a.2 else a.1) + delay) with
  | none => false
  | some first =>
    let second := if p.secondEnd then b.2 else b.1
    if p.exact then first = second else first ≤ second

end Precedence

namespace Bounding

/-- Whether a level is within a bound. -/
def within : Bounding → (bound level : Int) → Bool
  | atMost, bound, level => level ≤ bound
  | atLeast, bound, level => bound ≤ level

end Bounding

namespace Forbidden

/-- Whether an interval keeps clear of the zeros of a step function. An interval without length only
has its start. -/
def clear : Forbidden → StepPoints → Int × Int → Bool
  | start, f, (s, _) => f.heightAt s ≠ 0
  | finish, f, (_, e) =>
    match checked (e - 1) with
    | some t => f.heightAt t ≠ 0
    | none => false
  | extent, f, (s, e) => if e ≤ s then f.heightAt s ≠ 0 else f.nonzeroOver s e

end Forbidden

/-! ## Arguments -/

namespace Node

/-- A failure of the node. -/
def flawed {α : Type} (id : NodeId) (n : Node) (flaw : NodeFlaw) : Query α :=
  .fail (.malformed id n.operator flaw)

/-- The argument at a position. -/
def arg (id : NodeId) (n : Node) (i : Nat) : Query Arg :=
  match n.args[i]? with
  | some a => .answer a
  | none => n.flawed id (.missingArgument i)

/-- The list at a position. -/
def listArg (id : NodeId) (n : Node) (i : Nat) : Query (List Arg) := do
  match (← n.arg id i).list? with
  | some items => .answer items
  | none => n.flawed id (.notList i)

end Node

/-- The value of an argument. -/
def Arg.value : Arg → Query Value
  | int v => .answer (.int v)
  | float x => .answer (.float x)
  | bool b => .answer (.bool b)
  | node id => .value id
  | list _ => .fail .listAsScalar

namespace Node

/-- The value of the argument at a position, read in some way; `none` when it is absent. -/
def readArg {α : Type} (read : Value → Option α) (flaw : Nat → NodeFlaw) (id : NodeId) (n : Node)
    (i : Nat) : Query (Option α) := do
  let v ← (← n.arg id i).value
  if v.isAbsent then .answer none
  else
    match read v with
    | some a => .answer (some a)
    | none => n.flawed id (flaw i)

/-- The integer at a position. -/
def intAt : NodeId → Node → Nat → Query (Option Int) := readArg Value.int? .notIntegral

/-- The float at a position. -/
def floatAt : NodeId → Node → Nat → Query (Option Float) := readArg Value.float? .notNumeric

/-- The truth value at a position. -/
def boolAt : NodeId → Node → Nat → Query (Option Bool) := readArg Value.bool? .notBoolean

/-- The interval that an argument stands for; `none` when it is absent. -/
def intervalOf (id : NodeId) (n : Node) (a : Arg) : Query (Option (Int × Int)) := do
  match ← a.value with
  | .absent => .answer none
  | .interval start finish => .answer (some (start, finish))
  | _ => n.flawed id .notInterval

/-- The interval at a position. -/
def intervalAt (id : NodeId) (n : Node) (i : Nat) : Query (Option (Int × Int)) := do
  n.intervalOf id (← n.arg id i)

/-- The intervals that arguments stand for, from left to right. -/
def intervalsOf (id : NodeId) (n : Node) : List Arg → Query (List (Option (Int × Int)))
  | [] => .answer []
  | a :: rest => do
    let interval ← n.intervalOf id a
    let intervals ← n.intervalsOf id rest
    .answer (interval :: intervals)

/-- The values of arguments that are present, read in some way, from left to right. -/
def presentOf {α : Type} (read : Value → Option α) (flaw : NodeFlaw) (id : NodeId) (n : Node) :
    List Arg → Query (List α)
  | [] => .answer []
  | a :: rest => do
    let v ← a.value
    match read v with
    | some x =>
      let xs ← n.presentOf read flaw id rest
      .answer (x :: xs)
    | none => if v.isAbsent then n.presentOf read flaw id rest else n.flawed id flaw

end Node

namespace Model

/-- A node of the model. -/
def lookup (m : Model) (id : NodeId) : Query Node :=
  match m.node id with
  | .ok n => .answer n
  | .error e => .fail (.model e)

/-! ## Variables -/

/-- The value of a variable: the solution's value, as one of the variable's kind. -/
def variableValue (s : Solution) (id : NodeId) (n : Node) : Query Value :=
  match s.value? id with
  | none => .fail (.missingValue id)
  | some v =>
    match n.operator, v with
    | _, .absent => .answer .absent
    | .intVar, .int v => .answer (.int v)
    | .intVar, .bool b => .answer (.int (ofTruth b))
    | .boolVar, .bool b => .answer (.bool b)
    | .boolVar, .int v => .answer (.bool (v ≠ 0))
    | .floatVar, .float x => .answer (.float x)
    | .floatVar, .int v => .answer (.float (.ofInt v))
    | .intervalVar, .interval start finish => .answer (.interval start finish)
    | _, v => .fail (.domain id (.wrongValue v n.kind))

/-! ## Step functions -/

/-- The pairs of a table. -/
def pairs (id : NodeId) (n : Node) : List (List Int) → Query (List (Int × Int))
  | [] => .answer []
  | [x, y] :: rest => do
    let ps ← pairs id n rest
    .answer ((x, y) :: ps)
  | _ :: _ => n.flawed id .stepPointShape

/-- The step function that an argument names. -/
def stepPoints (m : Model) : Arg → Query StepPoints
  | .node id => do
    let n ← m.lookup id
    if n.operator ≠ .stepFunction then n.flawed id .notStepFunction
    else
      let ps ← pairs id n (n.values.getD [])
      .answer ⟨ps.toArray⟩
  | _ => .fail .listAsScalar

/-! ## Cumulative functions -/

/-- A change of level: when, and by how much. -/
abbrev Change := Int × Int

/-- The changes with their signs turned. -/
def negated : List Change → Query (List Change)
  | [] => .answer []
  | (t, d) :: rest => do
    let d ← Query.fitting (-d)
    let cs ← negated rest
    .answer ((t, d) :: cs)

/-- The changes of cumulative functions, one after the other. -/
def changesOfAll (changes : NodeId → Query (List Change)) (id : NodeId) (n : Node) :
    List Arg → Query (List Change)
  | [] => .answer []
  | .node child :: rest => do
    let cs ← changes child
    let others ← changesOfAll changes id n rest
    .answer (cs ++ others)
  | _ :: _ => n.flawed id .sumItemNotNode

/-- The changes of the cumulative function at a position. -/
def changesAt (changes : NodeId → Query (List Change)) (id : NodeId) (n : Node) (i : Nat) :
    Query (List Change) := do
  match ← n.arg id i with
  | .node child => changes child
  | _ => n.flawed id (.notNode i)

/-- The changes of a cumulative function whose parts stand among the first `depth` nodes. -/
def changes (m : Model) : (depth : Nat) → NodeId → Query (List Change)
  | 0, id => .fail (.model (.unknownNode id))
  | depth + 1, id => do
    let n ← m.lookup id
    match n.operator with
    | .intervalStep step =>
      let interval ← n.intervalAt id 0
      match interval with
      | none => do
        let _ ← (← n.arg id 1).value
        .answer []
      | some (start, finish) =>
        match (← (← n.arg id 1).value).int? with
        | none => .answer []
        | some h =>
          match step with
          | .pulse => do
            let down ← Query.fitting (-h)
            .answer [(start, h), (finish, down)]
          | .atStart => .answer [(start, h)]
          | .atEnd => .answer [(finish, h)]
    | .stepAt =>
      let t ← (← n.arg id 0).value
      let h ← (← n.arg id 1).value
      match t.int?, h.int? with
      | some t, some h => .answer [(t, h)]
      | _, _ => .answer []
    | .cumulPlus =>
      let a ← changesAt (changes m depth) id n 0
      let b ← changesAt (changes m depth) id n 1
      .answer (a ++ b)
    | .cumulMinus =>
      let a ← changesAt (changes m depth) id n 0
      let b ← changesAt (changes m depth) id n 1
      let b ← negated b
      .answer (a ++ b)
    | .cumulNeg =>
      let a ← changesAt (changes m depth) id n 0
      negated a
    | .cumulSum =>
      let items ← n.listArg id 0
      changesOfAll (changes m depth) id n items
    | _ => n.flawed id .notCumulative

/-- Whether every level is within a bound, once all changes at its time are made. The changes are in
order of time. -/
def staysWithin (within : Int → Bool) : (level : Int) → List Change → Bool
  | _, [] => true
  | level, [(_, d)] => within (saturated (level + d))
  | level, (t, d) :: (u, e) :: rest =>
    let level := saturated (level + d)
    (t = u || within level) && staysWithin within level ((u, e) :: rest)

/-- Whether a cumulative function keeps its bound, also before its first change. -/
def cumulBoundHolds (m : Model) (depth : Nat) (id : NodeId) (n : Node) (b : Bounding) :
    Query Bool := do
  match ← n.arg id 0 with
  | .node f =>
    let bound ← (← n.arg id 1).value
    if bound.isAbsent then .answer true
    else
      match bound.int? with
      | none => n.flawed id .boundNotIntegral
      | some bound =>
        if b.within bound 0 then do
          let cs ← m.changes depth f
          .answer (staysWithin (b.within bound) 0 (cs.mergeSort fun c d => decide (c.1 ≤ d.1)))
        else .answer false
  | _ => n.flawed id (.notNode 0)

/-! ## Intervals -/

/-- Whether exactly one option is present and is the main interval, or nothing is present. -/
def alternativeHolds (main : Option (Int × Int)) (options : List (Option (Int × Int))) : Bool :=
  let present := options.filterMap id
  match main with
  | none => present.isEmpty
  | some main => present == [main]

/-- Whether the main interval is the hull of the present ones, or nothing is present. -/
def spanHolds (main : Option (Int × Int)) (covered : List (Option (Int × Int))) : Bool :=
  let present := covered.filterMap id
  match main with
  | none => present.isEmpty
  | some (start, finish) =>
    (present.map Prod.fst).min? == some start && (present.map Prod.snd).max? == some finish

/-- The row or column of a matrix for a position: its type, or itself without types. -/
def transitionIndex (types : Option (List Int)) (i : Nat) : Nat :=
  match types.bind (·[i]?) with
  | some t => if 0 ≤ t then t.toNat else i
  | none => i

/-- The least gap when the interval at one position comes before the one at another. -/
def transitionGap (matrix : Option (List (List Int))) (types : Option (List Int)) (i j : Nat) :
    Int :=
  ((matrix.bind (·[transitionIndex types i]?)).bind (·[transitionIndex types j]?)).getD 0

/-- Whether one interval ends at least a gap before another one starts. -/
def endsBefore (a b : Int × Int) (gap : Int) : Bool :=
  match checked (a.2 + gap) with
  | some e => e ≤ b.1
  | none => false

/-- Whether the interval at a position is apart from those at later positions. -/
def apartFrom (gap : Nat → Nat → Int) (i : Nat) (a : Int × Int) :
    (j : Nat) → List (Option (Int × Int)) → Bool
  | _, [] => true
  | j, none :: rest => apartFrom gap i a (j + 1) rest
  | j, some b :: rest =>
    (endsBefore a b (gap i j) || endsBefore b a (gap j i)) && apartFrom gap i a (j + 1) rest

/-- Whether the present intervals are apart, pair by pair. -/
def pairwiseApart (gap : Nat → Nat → Int) : (i : Nat) → List (Option (Int × Int)) → Bool
  | _, [] => true
  | i, none :: rest => pairwiseApart gap (i + 1) rest
  | i, some a :: rest => apartFrom gap i a (i + 1) rest && pairwiseApart gap (i + 1) rest

/-- The intervals and the types that a no-overlap is about. -/
def noOverlapItems (m : Model) (id : NodeId) (n : Node) : Query (List Arg × Option (List Int)) := do
  match ← n.arg id 0 with
  | .list items => .answer (items, none)
  | .node seqId =>
    let seq ← m.lookup seqId
    match seq.args.head?.bind Arg.list? with
    | some items => .answer (items, seq.types?)
    | none => seq.flawed seqId .sequenceWithoutIntervals
  | _ => n.flawed id .notIntervalsOrSequence

/-! ## Constraints and expressions -/

/-- Whether a constraint holds; `none` when it is absent, and for a node that is no constraint. -/
def constraintValue (m : Model) (depth : Nat) (id : NodeId) (n : Node) : Query (Option Bool) :=
  match n.operator with
  | .precedence p => do
    let a ← n.intervalAt id 0
    let b ← n.intervalAt id 1
    match a, b with
    | some a, some b =>
      match n.args[2]? with
      | none => .answer (some (p.holds a b 0))
      | some delay =>
        match (← delay.value).int? with
        | some d => .answer (some (p.holds a b d))
        | none => .answer none
    | _, _ => .answer none
  | .alternative => do
    let main ← n.intervalAt id 0
    let options ← n.intervalsOf id (← n.listArg id 1)
    .answer (some (alternativeHolds main options))
  | .span => do
    let main ← n.intervalAt id 0
    let covered ← n.intervalsOf id (← n.listArg id 1)
    .answer (some (spanHolds main covered))
  | .noOverlap => do
    let (items, types) ← m.noOverlapItems id n
    let intervals ← n.intervalsOf id items
    .answer (some (pairwiseApart (transitionGap n.values types) 0 intervals))
  | .cumulBound b => some <$> m.cumulBoundHolds depth id n b
  | .forbid what => do
    let interval ← n.intervalAt id 0
    let f ← m.stepPoints (← n.arg id 1)
    .answer (interval.map (what.clear f))
  | _ => .answer none

/-- The value of an operator on two arguments that are both present, otherwise absent. -/
def binary {α : Type} (read : NodeId → Node → Nat → Query (Option α)) (f : α → α → Value)
    (id : NodeId) (n : Node) : Query Value := do
  let a ← read id n 0
  let b ← read id n 1
  match a, b with
  | some a, some b => .answer (f a b)
  | _, _ => .answer .absent

/-- The value of an operator on one argument that is present, otherwise absent. -/
def unary {α : Type} (read : NodeId → Node → Nat → Query (Option α)) (f : α → Value)
    (id : NodeId) (n : Node) : Query Value := do
  match ← read id n 0 with
  | some a => .answer (f a)
  | none => .answer .absent

/-- The value of a node whose operands stand among the first `depth` nodes. -/
def nodeValue (m : Model) (s : Solution) (depth : Nat) (id : NodeId) (n : Node) : Query Value :=
  match n.operator with
  | .intVar | .boolVar | .floatVar | .intervalVar => variableValue s id n
  | .intConst | .floatConst | .boolConst => do (← n.arg id 0).value
  | .int op => binary Node.intAt (fun a b => .ofInt? (op.ints? a b)) id n
  | .intNeg => unary Node.intAt (fun a => .ofInt? (checked (-a))) id n
  | .intAbs => unary Node.intAt (fun a => .ofInt? (checked a.natAbs)) id n
  | .intAggregate op => do
    let vs ← n.presentOf Value.int? .operandNotIntegral id (← n.listArg id 0)
    .answer (.ofInt? (op.ints? vs))
  | .float op => binary Node.floatAt (fun a b => .ofFloat? (op.floats? a b)) id n
  | .floatNeg => unary Node.floatAt (fun a => .float (-a)) id n
  | .floatAbs => unary Node.floatAt (fun a => .float a.abs) id n
  | .floatAggregate op => do
    let xs ← n.presentOf Value.float? .operandNotNumeric id (← n.listArg id 0)
    .answer (.ofFloat? (op.floats? xs))
  | .intGuard | .floatGuard => do
    let v ← (← n.arg id 0).value
    if v.isAbsent then (← n.arg id 1).value else .answer v
  | .presence => do
    let v ← (← n.arg id 0).value
    .answer (.bool !v.isAbsent)
  | .identity => do
    let a ← n.floatAt id 0
    let b ← n.floatAt id 1
    .answer (.bool (identical a b))
  | .compare c => binary Node.floatAt (fun a b => .bool (c.holds a b)) id n
  | .inRange => do
    match ← n.floatAt id 0 with
    | none => .answer .absent
    | some x =>
      let least := (← n.floatAt id 1).getD (-1.0 / 0.0)
      let greatest := (← n.floatAt id 2).getD (1.0 / 0.0)
      .answer (.bool (decide (least ≤ x) && decide (x ≤ greatest)))
  | .connect c => binary Node.boolAt (fun a b => .bool (c.holds a b)) id n
  | .not => unary Node.boolAt (fun a => .bool !a) id n
  | .measure measure => do
    match ← n.intervalAt id 0 with
    | some interval => .answer (.ofInt? (measure.of? interval))
    | none => .answer .absent
  | .measureOr measure => do
    match ← n.intervalAt id 0 with
    | some interval => .answer (.ofInt? (measure.of? interval))
    | none => (← n.arg id 1).value
  | .stepFunctionEval => do
    let f ← m.stepPoints (← n.arg id 0)
    match ← n.intAt id 1 with
    | some t => .answer (.int (f.heightAt t))
    | none => .answer .absent
  | .stepFunctionSum => do
    let f ← m.stepPoints (← n.arg id 0)
    match ← n.intervalAt id 1 with
    | none => .answer .absent
    | some (start, finish) =>
      match f.sum? start finish with
      | some total => .answer (.int total)
      | none => .fail .overflow
  | .precedence _ | .alternative | .span | .noOverlap | .cumulBound _ | .forbid _ => do
    .answer (.ofBool? (← m.constraintValue depth id n))
  | .sequenceVar | .stepFunction | .intervalStep _ | .stepAt | .cumulPlus | .cumulMinus | .cumulNeg
  | .cumulSum => n.flawed id .noScalarValue

/-- Whether a constraint or a truth-valued node holds; `none` when it is absent. -/
def holdsQuery (m : Model) (depth : Nat) (id : NodeId) : Query (Option Bool) := do
  let n ← m.lookup id
  if n.operator.isConstraint then m.constraintValue depth id n
  else
    let v ← Query.value id
    if v.isAbsent then .answer none
    else
      match v.bool? with
      | some b => .answer (some b)
      | none => n.flawed id .notBooleanExpression

end Model

end Scheduling
