import Scheduling.Json.Basic
import Scheduling.Json.Shape
import Scheduling.Model.Node
import Scheduling.SortedMap

/-!
# Solutions

Values for some variables of a model, and the value of its objective.
-/

namespace Scheduling

/-- The value of a variable in a solution. -/
inductive SolutionValue where
  /-- The variable is not part of the solution. -/
  | absent
  | bool (b : Bool)
  | int (v : Int)
  | float (x : Float)
  | interval (start finish : Int)
deriving DecidableEq, Repr

/-- The value of the objective in a solution. -/
inductive ObjectiveValue where
  /-- There is no objective. -/
  | undefined
  /-- The objective is absent. -/
  | absent
  | value (x : Float)
deriving DecidableEq, Repr, Inhabited

namespace ObjectiveValue

/-- The number, if there is one. -/
def value? : ObjectiveValue → Option Float
  | value x => some x
  | _ => none

/-- Whether there is no objective. -/
def isUndefined : ObjectiveValue → Bool
  | undefined => true
  | _ => false

/-- A number, or null when there is none. -/
def toJson : ObjectiveValue → Json
  | value x => .float x
  | _ => .null

end ObjectiveValue

namespace SolutionValue

/-- Whether the variable is not part of the solution. -/
def isAbsent : SolutionValue → Bool
  | absent => true
  | _ => false

/-- Null for an absent variable, otherwise the value. -/
def toJson : SolutionValue → Json
  | absent => .null
  | bool b => .bool b
  | int v => .int v
  | float x => .float x
  | interval start finish => .obj [("start", .int start), ("end", .int finish)]

/-- The value of a JSON value. A whole number without a point that fits in 64 bits is an integer. -/
def ofJson? (j : Json) : Option SolutionValue :=
  if !j.isSound then none
  else
    match j with
    | .null => some absent
    | .bool b => some (bool b)
    | .int v => if Fits v then some (int v) else some (float (Float.ofInt v))
    | .float x => some (float x)
    | .obj members => do
      let fs ← Json.knownMembers? ["start", "end"] members
      let start ← fs.required? "start" Json.int64?
      let finish ← fs.required? "end" Json.int64?
      some (interval start finish)
    | _ => none

end SolutionValue

/-- Values for some variables, and for the objective. -/
structure Solution where
  values : SortedMap NodeId SolutionValue
  objective : ObjectiveValue
deriving DecidableEq, Repr, Inhabited

namespace Solution

/-- The solution without values. -/
def empty : Solution := ⟨.empty, .undefined⟩

/-- Sets the value of a variable. -/
def set (s : Solution) (id : NodeId) (v : SolutionValue) : Solution :=
  { s with values := s.values.insert id v }

/-- The value of a variable, if it has one. -/
def value? (s : Solution) (id : NodeId) : Option SolutionValue := s.values.get? id

/-- Whether a variable has a value and is absent. -/
def isAbsent (s : Solution) (id : NodeId) : Bool := (s.value? id).any SolutionValue.isAbsent

/-- Whether a variable has a value and is not absent. -/
def isPresent (s : Solution) (id : NodeId) : Bool := (s.value? id).any fun v => !v.isAbsent

/-- The integer of an integer variable; a truth value is 0 or 1. -/
def int? (s : Solution) (id : NodeId) : Option Int :=
  match s.value? id with
  | some (.int v) => some v
  | some (.bool b) => some (ofTruth b)
  | _ => none

/-- The truth value of a truth-valued variable; an integer is true unless it is zero. -/
def bool? (s : Solution) (id : NodeId) : Option Bool :=
  match s.value? id with
  | some (.bool b) => some b
  | some (.int v) => some (v ≠ 0)
  | _ => none

/-- The float of a float variable; an integer stands for the nearest one. -/
def float? (s : Solution) (id : NodeId) : Option Float :=
  match s.value? id with
  | some (.float x) => some x
  | some (.int v) => some (.ofInt v)
  | _ => none

/-- The start and the end of an interval variable. -/
def interval? (s : Solution) (id : NodeId) : Option (Int × Int) :=
  match s.value? id with
  | some (.interval start finish) => some (start, finish)
  | _ => none

/-- The values by position in the model, with the objective before them unless it is undefined. -/
def toJson (s : Solution) : Json :=
  let objective := if s.objective.isUndefined then [] else [("objective", s.objective.toJson)]
  let values := s.values.entries.map fun (id, v) => (Nat.repr id.index, v.toJson)
  .obj (objective ++ [("values", .obj values)])

end Solution

end Scheduling
