import Scheduling.Record.Event

/-!
# Requests

What a client asks of an engine. A command is one line of JSON; in a request the model is built. The
parameters are of any type that has a JSON value.
-/

namespace Scheduling

/-- The line of the record of a model. -/
def ModelRecord.line (r : ModelRecord) : String := r.toJson.compact

/-- The line of the record of a solution. -/
def SolutionRecord.line (r : SolutionRecord) : String := r.toJson.compact

/-- The record of a model on a line. -/
def ModelRecord.ofLine (line : String) : Except ProtocolError ModelRecord :=
  match (Json.ofText? line).bind (ModelRecord.ofJson? .null) with
  | some r => .ok r
  | none => .error .unreadable

/-- The record of a solution on a line. -/
def SolutionRecord.ofLine (line : String) : Except ProtocolError SolutionRecord :=
  match (Json.ofText? line).bind SolutionRecord.ofJson? with
  | some r => .ok r
  | none => .error .unreadable

namespace Model

/-- The record of a warm start, if there is one. -/
def warmStartRecord (m : Model) (warmStart : Option Solution) :
    Except ProtocolError (Option SolutionRecord) := warmStart.mapM m.solutionRecord

/-- The solution of a warm start, if there is one. -/
def warmStart (m : Model) (r : Option SolutionRecord) : Except ProtocolError (Option Solution) :=
  r.mapM m.solution

end Model

namespace Command

variable {P : Type}

/-- The line of a command, given the JSON value of its parameters. -/
def line (write : P → Json) (c : Command P) : String := (c.toJson write).compact

/-- The command of a line, given how its parameters are read. -/
def ofLine (read : Json → Option P) (line : String) : Except ProtocolError (Command P) :=
  match (Json.ofText? line).bind (ofJson? read) with
  | some c => .ok c
  | none => .error .unreadable

/-- Asks to solve a model. -/
def solveModel (m : Model) (parameters : P) (warmStart : Option Solution) :
    Except ProtocolError (Command P) := do
  let warmStart ← m.warmStartRecord warmStart
  let model ← m.record
  pure (solve model parameters warmStart)

/-- Asks to propagate the domains of a model. -/
def propagateModel (m : Model) (parameters : P) : Except ProtocolError (Command P) := do
  let model ← m.record
  pure (propagate model parameters)

/-- Asks for the text of a model. -/
def textOfModel (m : Model) (parameters : P) (warmStart : Option Solution) :
    Except ProtocolError (Command P) := do
  let warmStart ← m.warmStartRecord warmStart
  let model ← m.record
  pure (toText model parameters warmStart)

/-- Hands a solution of the model to an engine that is solving it. -/
def offerSolution (m : Model) (s : Solution) : Except ProtocolError (Command P) := do
  let r ← m.solutionRecord s
  pure (solution r)

end Command

/-- A command with its model built. -/
inductive Request (P : Type) where
  | solve (m : Model) (parameters : P) (warmStart : Option Solution)
  | propagate (m : Model) (parameters : P)
  | toText (m : Model) (parameters : P) (warmStart : Option Solution)
  | stop (reason : String)
  /-- A solution of the model of the command that is running. -/
  | solution (r : SolutionRecord)

namespace Request

variable {P : Type}

/-- The request of a command. The nodes of its model get a tag. -/
def ofCommand (tag : Nat) : Command P → Except ProtocolError (Request P)
  | .solve model parameters warmStart => do
    let m ← Model.ofRecord tag model
    let warmStart ← m.warmStart warmStart
    pure (solve m parameters warmStart)
  | .propagate model parameters => do
    let m ← Model.ofRecord tag model
    pure (propagate m parameters)
  | .toText model parameters warmStart => do
    let m ← Model.ofRecord tag model
    let warmStart ← m.warmStart warmStart
    pure (toText m parameters warmStart)
  | .stop reason => .ok (stop reason)
  | .solution r => .ok (solution r)

/-- The request of a line. -/
def read (parameters : Json → Option P) (tag : Nat) (line : String) :
    Except ProtocolError (Request P) := do
  ofCommand tag (← Command.ofLine parameters line)

end Request

end Scheduling
