import Scheduling.Parameters.Record
import Scheduling.Record.Request

/-!
# Jobs

What a session is asked to do: a task, with the model it is about. The line of a job is the command
that the engine gets; parameters that only concern the client stay behind.
-/

namespace Scheduling

/-- The tasks of engines. -/
inductive Task where
  | solve
  | propagate
  | toText
deriving DecidableEq, Repr

namespace Task

/-- The name of a task. -/
def name : Task → String
  | solve => "solve"
  | propagate => "propagate"
  | toText => "toText"

/-- Whether an event is the one that ends a task. -/
def isEndedBy : Task → Event → Bool
  | solve, .summary _ | propagate, .domains _ | toText, .text _ => true
  | _, _ => false

end Task

/-- A task with all that it needs. -/
structure Job where
  task : Task
  model : Model
  parameters : Parameters
  /-- A solution to start from. Propagation starts from none. -/
  warmStart : Option Solution

/-- The parameters that an engine gets to see. -/
def Parameters.forEngine (p : Parameters) : Parameters :=
  { p with solver := none, solverArgs := none, printLog := none }

namespace Job

/-- The command of a job. -/
def command (j : Job) : Except ProtocolError (Command Parameters) :=
  match j.task with
  | .solve => Command.solveModel j.model j.parameters.forEngine j.warmStart
  | .propagate => Command.propagateModel j.model j.parameters.forEngine
  | .toText => Command.textOfModel j.model j.parameters.forEngine j.warmStart

/-- The line of a job. -/
def line (j : Job) : Except ProtocolError String :=
  match j.command with
  | .ok c => .ok (c.line Parameters.toJson)
  | .error e => .error e

/-- The name of the model, or that it has none. -/
def title (j : Job) : String := j.model.name.getD "<unnamed>"

/-- Whether texts of the engine are printed when they go nowhere else. -/
def printsLog (j : Job) : Bool := j.parameters.printLog == some true

end Job

end Scheduling
