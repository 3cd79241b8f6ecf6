import Scheduling.Record.Event

/-!
# Results

What a solve reported: all solutions and bounds in order, and the last of each as the best.
-/

namespace Scheduling

/-- An entry in the history of solutions. -/
structure Milestone where
  solveTime : Float
  objective : ObjectiveValue
  valid : Option Bool
deriving DecidableEq, Repr

/-- A bound with the time of its discovery. -/
structure Bound where
  solveTime : Float
  value : Float
deriving DecidableEq, Repr

/-- The result of a solve. There is no summary when the solve failed before it came. -/
structure SolveResult where
  summary : Option Summary
  solutionHistory : List Milestone
  lowerBoundHistory : List Bound
  /-- The last solution, the best that was found. -/
  bestSolution : Option Solution
  bestSolutionTime : Option Float
  bestSolutionValid : Option Bool
  bestObjective : ObjectiveValue
  bestLowerBound : Option Float
deriving DecidableEq, Repr, Inhabited

namespace Milestone

/-- An entry as JSON. -/
def toJson (m : Milestone) : Json :=
  .obj ([("solveTime", .float m.solveTime), ("objective", m.objective.toJson)]
    ++ Json.member? "valid" m.valid .bool)

end Milestone

namespace Bound

/-- A bound as JSON. -/
def toJson (b : Bound) : Json := .obj [("solveTime", .float b.solveTime), ("value", .float b.value)]

end Bound

namespace SolveResult

/-- The result before anything is reported. -/
def empty : SolveResult := ⟨none, [], [], none, none, none, .undefined, none⟩

/-- Adds a solution. -/
def addSolution (r : SolveResult) (f : Found) : SolveResult :=
  { r with
    solutionHistory := r.solutionHistory ++ [⟨f.solveTime, f.solution.objective, f.valid⟩]
    bestSolution := some f.solution
    bestSolutionTime := some f.solveTime
    bestSolutionValid := f.valid
    bestObjective := f.solution.objective }

/-- Adds a lower bound. -/
def addLowerBound (r : SolveResult) (b : Bound) : SolveResult :=
  { r with lowerBoundHistory := r.lowerBoundHistory ++ [b], bestLowerBound := some b.value }

/-- The number of solutions: what the summary says, or how many came. -/
def nbSolutions (r : SolveResult) : Nat :=
  match r.summary with
  | some s => s.nbSolutions
  | none => r.solutionHistory.length

/-- The objective of the best solution, or else that of the summary. -/
def objective? (r : SolveResult) : Option Float :=
  r.bestObjective.value? <|> r.summary.bind (·.objective)

/-- The lower bound of the summary, or else the best that came. -/
def lowerBound? (r : SolveResult) : Option Float :=
  r.summary.bind (·.lowerBound) <|> r.bestLowerBound

/-- Whether the engine proved that there is no better solution. -/
def proof (r : SolveResult) : Bool := r.summary.any (·.proof)

/-- How long the solve took. -/
def duration? (r : SolveResult) : Option Float := r.summary.map (·.duration)

/-- A result as JSON. -/
def toJson (r : SolveResult) : Json :=
  let orNull {α : Type} (write : α → Json) (v : Option α) : Json := (v.map write).getD .null
  .obj [("summary", orNull Summary.toJson r.summary),
    ("solutionHistory", .arr (r.solutionHistory.map Milestone.toJson)),
    ("lowerBoundHistory", .arr (r.lowerBoundHistory.map Bound.toJson)),
    ("bestSolution", orNull Solution.toJson r.bestSolution),
    ("bestSolutionTime", orNull Json.float r.bestSolutionTime),
    ("bestSolutionValid", orNull Json.bool r.bestSolutionValid),
    ("bestObjective", r.bestObjective.toJson),
    ("bestLowerBound", orNull Json.float r.bestLowerBound)]

end SolveResult

end Scheduling
