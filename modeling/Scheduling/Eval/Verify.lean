import Scheduling.Eval.Basic
import Scheduling.Model.Variable

/-!
# Checking solutions

A solution is good when every variable has a value in its domain, no constraint fails, and the value
of the objective is as reported, up to a millionth.
-/

namespace Scheduling

namespace Model

/-- Checks that an integer lies within its bounds. -/
def checkWithin (id : NodeId) (what : String) (v : Int) (low high : Option Int)
    (least greatest : Int) : Query Unit :=
  let low := low.getD least
  let high := high.getD greatest
  if v < low ∨ high < v then .fail (.domain id (.outside what v low high)) else .answer ()

/-- Checks a value that is present against the bounds of its variable. -/
def checkBounds (id : NodeId) (n : Node) (v : Value) : Query Unit :=
  let b := n.bounds
  match n.operator, v with
  | .intVar, .int v =>
    checkWithin id "value" v (b.min.map boundInt) (b.max.map boundInt) (-intVarMax) intVarMax
  | .floatVar, .float x =>
    let low := b.min.getD (-floatMax)
    let high := b.max.getD floatMax
    if x < low ∨ high < x then .fail (.domain id (.outsideFloat x low high)) else .answer ()
  | .intervalVar, .interval start finish => do
    checkWithin id "start" start b.startMin b.startMax (-intervalMax) intervalMax
    checkWithin id "end" finish b.endMin b.endMax (-intervalMax) intervalMax
    match checked (finish - start) with
    | none => .fail (.domain id (.lengthOverflow start finish))
    | some length => checkWithin id "length" length b.lengthMin b.lengthMax 0 lengthMax
  | _, _ => .answer ()

/-- Checks that a variable has a value in its domain. A variable is present unless it says
otherwise; a sequence has no value of its own. -/
def domainQuery (m : Model) (id : NodeId) : Query Unit := do
  let n ← m.lookup id
  if n.operator = .sequenceVar then .answer ()
  else
    let v ← Query.value id
    match n.presence.getD .present, v.isAbsent with
    | .present, true => .fail (.domain id .presentIsAbsent)
    | .absent, false => .fail (.domain id .absentIsPresent)
    | _, true => .answer ()
    | _, false => checkBounds id n v

/-- Checks that a constraint does not fail. -/
def constraintQuery (m : Model) (id : NodeId) : Query Unit := do
  match ← m.holdsQuery m.nodes.size id with
  | some false =>
    let n ← m.lookup id
    .fail (.violated id n.operator)
  | _ => .answer ()

/-- Whether a reported value of the objective agrees with the evaluated one. -/
def agrees : (reported actual : ObjectiveValue) → Bool
  | .value a, .value b => decide ((a - b).abs ≤ 1e-6)
  | .absent, .absent => true
  | .undefined, .undefined => true
  | _, _ => false

/-- Checks a reported value of the objective. -/
def objectiveQuery (m : Model) (reported : ObjectiveValue) : Query Unit :=
  match m.objective with
  | none => .answer ()
  | some objective =>
    if reported.isUndefined then .answer ()
    else do
      let v ← Query.value objective.expr
      let actual :=
        match v.float? with
        | some x => ObjectiveValue.value x
        | none => .absent
      if agrees reported actual then .answer () else .fail (.objective reported actual)

/-- Queries one after the other. -/
def inTurn : List (Query Unit) → Query Unit
  | [] => .answer ()
  | q :: rest => do
    q
    inTurn rest

/-- All checks of a solution: domains, constraints, then the objective. -/
def verifyQuery (m : Model) (s : Solution) : Query Unit := do
  inTurn (m.variableIds.map m.domainQuery)
  inTurn (m.topLevel.toList.map m.constraintQuery)
  m.objectiveQuery s.objective

/-- Checks a solution. -/
def verify (m : Model) (s : Solution) : Except EvalError Unit :=
  ((m.verifyQuery s).resolveWith (Evaluator.value m s) (Evaluator.start m)).1

end Model

/-- Checks the domain of a variable with an evaluator. -/
def Evaluator.checkDomain (m : Model) (s : Solution) (id : NodeId) : Query.Remembering Unit :=
  (m.domainQuery id).resolveWith (Evaluator.value m s)

end Scheduling
