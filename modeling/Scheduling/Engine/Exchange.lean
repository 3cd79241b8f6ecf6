import Scheduling.Engine.Reply
import Scheduling.Session.Step

/-!
# Exchanges

A session together with the engine it talks to. A session takes all lines that are there before it
writes what is queued; an engine that waits for a stop reads what has been written.
-/

namespace Scheduling

/-- A way to get an engine for a job: for the line of the job, what the engine does, or why none
takes it. -/
abbrev Launcher := Job → (line : String) → Except SessionError (List EngineStep)

namespace Launcher

/-- An engine that follows a script. It reads the model of a job as one of its own. -/
def scripted (script : Script) : Launcher := fun job line =>
  .ok (script.conduct (job.model.tag + 1) line)

/-- No engine at all. -/
def unavailable : Launcher := fun _ _ =>
  .error (.notStarted "cannot start fake engine: unavailable")

end Launcher

/-- A session with what its engine has read. -/
structure Exchange where
  session : Session
  /-- The lines that the engine has read. -/
  heard : List String
  /-- Those of the lines that are requests. -/
  requests : List (Request Parameters)

namespace Exchange

/-- The request of a line that an engine has read. -/
def request? (x : Exchange) (line : String) : Option (Request Parameters) :=
  let tag := (x.session.job.map fun j => j.model.tag + 1).getD 0
  (Request.read (Parameters.ofJson? .nullOrObject) tag line).toOption

/-- The engine reads lines up to a stop. The truth value tells that one came. -/
def readToStop (x : Exchange) : List String → Exchange × Bool
  | [] => (x, false)
  | line :: rest =>
    let x := { x with heard := x.heard ++ [line] }
    match x.request? line with
    | none => readToStop x rest
    | some r =>
      let x := { x with requests := x.requests ++ [r] }
      match r with
      | .stop _ => (x, true)
      | _ => readToStop x rest

/-- The session writes all that is queued. -/
def deliverAll (s : Session) : Session :=
  s.run (List.replicate s.queue.length .deliver)

/-- An engine that will not wait again takes no more lines. -/
def deafen (s : Session) (steps : List EngineStep) : Session :=
  if steps.contains .awaitStop then s else s.step .deaf

/-- Goes through the steps of the engine. An engine that waits for a stop waits until there is
one. -/
def play (x : Exchange) : List EngineStep → Exchange
  | [] => { x with session := x.session.step .ended }
  | .say line :: rest => play { x with session := x.session.step (.line line) } rest
  | .garble :: rest => play { x with session := x.session.step .garbled } rest
  | .awaitStop :: rest =>
    let session := deliverAll x.session
    let (x, stopped) := { x with session }.readToStop (session.written.drop x.heard.length)
    if stopped then play { x with session := deafen x.session rest } rest else x

/-- What becomes of a session that has started its job. -/
def begin (session : Session) (steps : List EngineStep) : Exchange :=
  let x : Exchange := ⟨session, session.written, []⟩
  let x := { x with requests := x.heard.filterMap x.request? }
  if session.isRunning then play { x with session := deafen session steps } steps else x

/-- How often an engine was started. -/
def launches (x : Exchange) : Nat := if x.session.written.isEmpty then 0 else 1

/-- The full text of an engine that follows a script: whether it could be started, how often it was,
and how many sessions still talk to it. -/
def describeEngine (available : Bool) (launches : Nat) : String :=
  "FakeEngine \x7b available: " ++ (if available then "true" else "false") ++ ", launches: "
    ++ Nat.repr launches ++ ", active: 0 \x7d"

end Exchange

/-- Carries out a job. A session that has had its job refuses another. -/
def Session.carryOut (s : Session) (launch : Launcher) (job : Job) : Except SessionError Exchange :=
  if s.state ≠ .idle then .error (.notIdle s.state)
  else
    let steps :=
      match job.line with
      | .ok line => launch job line
      | .error _ => .ok []
    .ok (Exchange.begin (s.start job (steps.map fun _ => ())) (steps.toOption.getD []))

end Scheduling
