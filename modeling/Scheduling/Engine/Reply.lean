import Scheduling.Eval.Verify
import Scheduling.Session.Job
import Scheduling.Text.Blank

/-!
# Replies of scripted engines

An engine can be a script: a list of replies to each request. A solution in a script is checked
against the model before it is sent, as an engine does that verifies what it finds.
-/

namespace Scheduling

/-- What an engine does, as its client sees it. Its stream ends after its last step. -/
inductive EngineStep where
  | say (line : String)
  /-- The engine sends a line that is no text. -/
  | garble
  /-- The engine reads lines until it is told to stop. -/
  | awaitStop
deriving DecidableEq, Repr

/-- A step in a script. -/
inductive Reply where
  | send (e : Event)
  /-- A solution to be checked. An undefined objective is filled in. -/
  | solution (solveTime : Float) (s : Solution)
  /-- A text that is sent as it is, with a line feed. -/
  | raw (text : String)
  | awaitStop
  /-- Nothing comes any more. -/
  | hangUp
deriving Repr

namespace Reply

/-- The name by which scripted engines go. -/
def engineName : String := "fake-engine"

/-- A summary; who has found a solution claims to have proved it. -/
def summary (nbSolutions : Nat) (objective : Option Float) : Reply :=
  .send (.summary { Summary.plain nbSolutions 0.25 (0 < nbSolutions) with
    objective, nbWorkers := some 1, solver := some engineName })

/-- Domains. -/
def domains (d : Option ModelDomains) : Reply := .send (.domains ⟨0.01, d⟩)

/-- A lower bound. -/
def lowerBound (solveTime value : Float) : Reply := .send (.lowerBound solveTime value)

/-- A solution with its objective: an undefined one gets the value of the model's objective. -/
def withObjective (m : Model) (s : Solution) : Except EvalError Solution :=
  match s.objective, m.objective with
  | .undefined, some o =>
    match m.eval s o.expr with
    | .ok v =>
      let objective :=
        match v.float? with
        | some x => ObjectiveValue.value x
        | none => .absent
      .ok { s with objective }
    | .error e => .error e
  | _, _ => .ok s

/-- The event for a solution in a script: the solution, or an error when it does not hold. -/
def checked (m : Model) (p : Parameters) (solveTime : Float) (s : Solution) : Event :=
  match withObjective m s with
  | .error e => .error ("cannot evaluate objective: " ++ e.message)
  | .ok s =>
    match m.verify s with
    | .error e => .error ("solution verification failed: " ++ e.message)
    | .ok () =>
      .solution ⟨solveTime, if p.verifySolutions = some true then some true else none, s⟩

/-- The line of an error that needs no model. -/
def errorLine (text : String) : String :=
  (Json.obj [("data", .str text), ("msg", .str "error")]).compact

/-- The line of an event. -/
def eventLine (m : Model) (e : Event) : String :=
  match e.write m with
  | .ok line => line
  | .error e => errorLine ("cannot encode reply: " ++ e.message)

/-- The steps that send a text with a line feed after it. -/
def say (text : String) : List EngineStep := (textLines (text ++ "\n")).map .say

/-- The steps of a script. -/
def steps (m : Model) (p : Parameters) : List Reply → List EngineStep
  | [] | hangUp :: _ => []
  | send e :: rest => say (eventLine m e) ++ steps m p rest
  | solution t s :: rest => say (eventLine m (checked m p t s)) ++ steps m p rest
  | raw text :: rest => say text ++ steps m p rest
  | awaitStop :: rest => .awaitStop :: steps m p rest

end Reply

/-- What an engine does for each request. -/
abbrev Script := Request Parameters → List Reply

namespace Script

/-- What an engine with this script does when a line is the first that it gets. The nodes of the
model of the request get a tag. -/
def conduct (script : Script) (tag : Nat) (line : String) : List EngineStep :=
  match Request.read (Parameters.ofJson? .nullOrObject) tag line with
  | .error e => Reply.say (Reply.errorLine ("bad command: " ++ e.message))
  | .ok r =>
    match r with
    | .solve m p _ | .propagate m p | .toText m p _ => Reply.steps m p (script r)
    | .stop _ | .solution _ => Reply.say (Reply.errorLine "expected a command")

/-- A script that finds given solutions of each model. Propagation finds out nothing, and the text
of a model is its name. -/
def solving (solutions : Model → List Solution) : Script
  | .solve m _ _ =>
    let found := solutions m
    let timed := (List.range found.length).zip found
    timed.map (fun (i, s) => .solution (0.1 * (i + 1).toFloat) s)
      ++ [Reply.summary found.length (found.getLast?.bind (·.objective.value?))]
  | .propagate _ _ => [Reply.domains (some .empty)]
  | .toText m _ _ => [.send (.text (m.name.getD "model"))]
  | _ => []

end Script

end Scheduling
