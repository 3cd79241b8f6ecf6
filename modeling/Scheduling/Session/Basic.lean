import Scheduling.Console.Notice
import Scheduling.Session.Registry
import Scheduling.Text.Blank

/-!
# Sessions

A session with an engine: its state, and all that it does in the order in which it does it. What
others see of a session (calls of listeners, lines to the engine, notices) are views of that one
list.
-/

namespace Scheduling

/-! ## Sinks -/

/-- Where texts of the engine are kept. A sink that is full takes no part of a text, and fails. -/
structure Sink where
  /-- How many bytes fit; `none` when there is no limit. -/
  limit : Option Nat
  text : String
  failed : Bool
deriving DecidableEq, Repr

namespace Sink

/-- A sink that holds nothing. -/
def empty (limit : Option Nat) : Sink := ⟨limit, "", false⟩

/-- Whether a text fits. -/
def fits (s : Sink) (text : String) : Bool :=
  s.limit.all (s.text.utf8ByteSize + text.utf8ByteSize ≤ ·)

/-- Takes a text, or fails. -/
def write (s : Sink) (text : String) : Sink :=
  if s.fits text then { s with text := s.text ++ text } else { s with failed := true }

/-- What is written for a text of the engine: its lines, each with a line feed, and at least one. -/
def form (text : String) : String :=
  match textLines text with
  | [] => "\n"
  | lines => String.join (lines.map (· ++ "\n"))

end Sink

/-! ## Effects -/

/-- One thing that a session does. -/
inductive Effect where
  | notice (n : Notice)
  /-- A line of a text of the engine, when no sink takes it. -/
  | print (line : String)
  | call (l : Listener) (e : SessionEvent)
  /-- A request through a handle, with its answer. -/
  | answer (r : HandleRequest) (a : HandleAnswer)
  /-- An event for all subscriptions. -/
  | publish (e : SessionEvent)
  /-- A line to the engine. -/
  | write (line : String)
deriving Repr

namespace Effect

/-- The line to the engine. -/
def written? : Effect → Option String
  | write line => some line
  | _ => none

/-- The event for subscriptions. -/
def published? : Effect → Option SessionEvent
  | publish e => some e
  | _ => none

/-- What a screen gets. -/
def shown? : Effect → Option (Notice ⊕ String)
  | notice n => some (.inl n)
  | print line => some (.inr line)
  | _ => none

end Effect

/-! ## Sessions -/

/-- What waits to be written to the engine. -/
inductive Outbound where
  | stop (reason : String)
  | line (text : String)
deriving DecidableEq, Repr

/-- What an engine answered to a job. -/
structure Answer where
  result : SolveResult
  domains : Option Propagated
  text : Option String
deriving Inhabited

/-- The answer before anything is reported. -/
def Answer.empty : Answer := ⟨.empty, none, none⟩

/-- A session with an engine. -/
structure Session where
  state : SessionState
  registry : Registry
  sink : Option Sink
  /-- The job, once there is one. -/
  job : Option Job
  /-- What handles have asked for and the engine has not got. -/
  queue : List Outbound
  answer : Answer
  failure : Option SessionError
  /-- Whether the engine still takes lines. -/
  connected : Bool
  effects : List Effect

namespace Session

/-- A session before its job. -/
def fresh (registry : Registry) (sink : Option Sink) : Session :=
  ⟨.idle, registry, sink, none, [], .empty, none, true, []⟩

/-- Whether the engine is at work. -/
def isRunning (s : Session) : Bool := s.state == .running

/-- The lines that were written to the engine. -/
def written (s : Session) : List String := s.effects.filterMap Effect.written?

/-- The events that subscriptions got. -/
def published (s : Session) : List SessionEvent := s.effects.filterMap Effect.published?

/-- What a screen gets: notices, and lines that are printed. -/
def shown (s : Session) : List (Notice ⊕ String) := s.effects.filterMap Effect.shown?

/-- What the sink holds. -/
def kept (s : Session) : String := (s.sink.map (·.text)).getD ""

/-- Whether a sink takes texts. -/
def hasSink (s : Session) : Bool := s.sink.any (!·.failed)

/-- The full text of a session. -/
def describe (s : Session) : String :=
  "Solver \x7b state: " ++ s.state.name ++ ", events: " ++ s.registry.describe ++ ", output: "
    ++ (if s.hasSink then "true" else "false") ++ ", .. \x7d"

/-- How the job ended, if it has: with an answer, or with an error that no listener took. -/
def outcome? (s : Session) : Option (Except SessionError Answer) :=
  match s.failure with
  | some e => some (if s.registry.hearsErrors then .ok s.answer else .error e)
  | none => if s.state = .finished then some (.ok s.answer) else none

end Session

end Scheduling
