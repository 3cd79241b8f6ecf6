import Scheduling.Parameters.Record
import Scheduling.Session.Result

/-!
# Results of runs

How one run of a benchmark ended, and with which parameters it was made.
-/

namespace Scheduling

/-- How a run ended. -/
inductive RunOutcome where
  /-- The session failed with an error of this wording. -/
  | failed (message : String)
  | solved (result : SolveResult)
deriving DecidableEq, Repr

/-- The result of a run. -/
structure RunResult where
  modelName : String
  /-- When the run started. -/
  timestamp : String
  parameters : Parameters
  /-- The seed, if each model has several runs. -/
  seed : Option Nat
  outcome : RunOutcome
deriving Repr

/-- The name of a run: that of its model, with its seed if there is one. -/
def runName (modelName : String) (seed : Option Nat) : String :=
  match seed with
  | some seed => modelName ++ "-seed" ++ Nat.repr seed
  | none => modelName

namespace RunResult

/-- The name of the run. -/
def name (r : RunResult) : String := runName r.modelName r.seed

/-- What the solve reported, unless the run failed. -/
def solved? (r : RunResult) : Option SolveResult :=
  match r.outcome with
  | .solved result => some result
  | .failed _ => none

/-- The wording of the error, if the run failed. -/
def error? (r : RunResult) : Option String :=
  match r.outcome with
  | .failed message => some message
  | .solved _ => none

/-- Whether the run failed. -/
def hasFailed (r : RunResult) : Bool := r.error?.isSome

/-- The objective. -/
def objective? (r : RunResult) : Option Float := r.solved?.bind (·.objective?)

/-- The lower bound. -/
def lowerBound? (r : RunResult) : Option Float := r.solved?.bind (·.lowerBound?)

/-- How long the solve took. -/
def duration? (r : RunResult) : Option Float := r.solved?.bind (·.duration?)

/-- Whether the engine says that the model maximizes. -/
def maximizes (r : RunResult) : Bool :=
  (r.solved?.bind (·.summary)).any (·.sense == some .maximize)

/-- A result as JSON. -/
def toJson (r : RunResult) : Json :=
  let outcome :=
    match r.outcome with
    | .failed message => ("error", Json.str message)
    | .solved result => ("solved", result.toJson)
  .obj ([("modelName", .str r.modelName), ("timestamp", .str r.timestamp),
      ("parameters", r.parameters.toJson)]
    ++ Json.member? "seed" r.seed (fun n => .int n) ++ [outcome])

end RunResult

end Scheduling
