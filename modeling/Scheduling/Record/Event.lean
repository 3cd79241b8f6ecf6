import Scheduling.Json.Reader
import Scheduling.Json.Writer
import Scheduling.Record.Decode
import Scheduling.Record.Encode
import Scheduling.Record.Json

/-!
# Events

What an engine tells its client about a model. An event is one line of JSON; in the line variables
have numbers, in the event they are nodes of the model.
-/

namespace Scheduling

/-- A solution that an engine found. -/
structure Found where
  solveTime : Float
  /-- Whether the engine says that it checked the solution. -/
  valid : Option Bool
  solution : Solution
deriving DecidableEq, Repr

/-- What propagation found. There are no domains when nothing is feasible. -/
structure Propagated where
  duration : Float
  domains : Option ModelDomains
deriving DecidableEq, Repr

/-- An event of an engine. -/
inductive Event where
  | log (line : String)
  | trace (line : String)
  | warning (line : String)
  | error (line : String)
  | solution (found : Found)
  | lowerBound (solveTime value : Float)
  | summary (s : Summary)
  | domains (d : Propagated)
  | text (content : String)
deriving DecidableEq, Repr

namespace Event

/-- Whether the event is the last one of a command. -/
def isFinal : Event → Bool
  | summary _ | domains _ | text _ => true
  | _ => false

/-- The domains of a record. -/
def propagated (m : Model) (r : DomainsRecord) : Except ProtocolError Propagated :=
  if r.infeasible then .ok ⟨r.duration, none⟩
  else
    match m.withDomains .empty r.domains with
    | .ok d => .ok ⟨r.duration, some d⟩
    | .error e => .error e

/-- The event of a record. An engine never reports a solution that it calls wrong. -/
def ofRecord (m : Model) : EventRecord → Except ProtocolError Event
  | .log line => .ok (log line)
  | .trace line => .ok (trace line)
  | .warning line => .ok (warning line)
  | .error line => .ok (error line)
  | .solution ⟨solveTime, valid, r⟩ =>
    if valid = some false then .error .invalidSolution
    else
      match m.solution r with
      | .ok s => .ok (solution ⟨solveTime, valid, s⟩)
      | .error e => .error e
  | .lowerBound solveTime value => .ok (lowerBound solveTime value)
  | .summary s => .ok (summary s)
  | .domains r =>
    match propagated m r with
    | .ok d => .ok (domains d)
    | .error e => .error e
  | .text content => .ok (text content)

/-- The record of an event. -/
def record (m : Model) : Event → Except ProtocolError EventRecord
  | log line => .ok (.log line)
  | trace line => .ok (.trace line)
  | warning line => .ok (.warning line)
  | error line => .ok (.error line)
  | solution ⟨solveTime, valid, s⟩ =>
    match m.solutionRecord s with
    | .ok r => .ok (.solution ⟨solveTime, valid, r⟩)
    | .error e => .error e
  | lowerBound solveTime value => .ok (.lowerBound solveTime value)
  | summary s => .ok (.summary s)
  | domains ⟨duration, none⟩ => .ok (.domains ⟨true, duration, []⟩)
  | domains ⟨duration, some d⟩ =>
    match m.domainRecords d with
    | .ok ds => .ok (.domains ⟨false, duration, ds⟩)
    | .error e => .error e
  | text content => .ok (.text content)

/-- The event of a line. -/
def read (m : Model) (line : String) : Except ProtocolError Event :=
  match (Json.ofText? line).bind EventRecord.ofJson? with
  | some r => ofRecord m r
  | none => .error .unreadable

/-- The line of an event. -/
def write (m : Model) (e : Event) : Except ProtocolError String :=
  match e.record m with
  | .ok r => .ok r.toJson.compact
  | .error e => .error e

end Event

end Scheduling
