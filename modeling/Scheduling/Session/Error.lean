import Scheduling.Session.Job

/-!
# Failures of sessions

How far a session is, and why one fails.
-/

namespace Scheduling

/-- How far a session is. A session carries out one job. -/
inductive SessionState where
  | idle
  | running
  | finished
  | errored
deriving DecidableEq, Repr

namespace SessionState

/-- The name of a state. -/
def name : SessionState → String
  | idle => "Idle"
  | running => "Running"
  | finished => "Finished"
  | errored => "Errored"

/-- Whether nothing more will happen. -/
def isFinal : SessionState → Bool
  | finished | errored => true
  | _ => false

end SessionState

/-- Why a session fails. -/
inductive SessionError where
  /-- No engine could be started, or it did not take the command. -/
  | notStarted (reason : String)
  /-- The engine ended without an answer. -/
  | streamEnded (task : Task)
  /-- A message cannot be written, or does not belong here. -/
  | protocol (e : ProtocolError)
  /-- A line of the engine cannot be read. -/
  | badMessage (line : String) (e : ProtocolError)
  /-- The engine reports an error. -/
  | engine (text : String)
  /-- A line of the engine is no text. -/
  | unreadable
  /-- The session has had its job. -/
  | notIdle (state : SessionState)
deriving Repr

namespace SessionError

/-- The wording of an error. -/
def message : SessionError → String
  | notStarted reason => "transport error: " ++ reason
  | streamEnded task =>
    "transport error: engine closed the stream before the " ++ task.name ++ " finished"
  | protocol e => "protocol error: " ++ e.message
  | badMessage line e => "protocol error: " ++ e.message ++ " in message " ++ quoted line
  | engine text => "engine error: " ++ text
  | unreadable => "I/O error: stream did not contain valid UTF-8"
  | notIdle state => "solver is " ++ state.name ++ ", expected Idle"

end SessionError

end Scheduling
