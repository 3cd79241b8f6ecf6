import Scheduling.Session.Error
import Scheduling.Session.Result

/-!
# Listeners

Who is told what in a session. A listener hears one channel; when it is called it may ask something
of the session through a handle. A subscription gets the events of all channels.
-/

namespace Scheduling

/-- The channels of a session. -/
inductive Channel where
  | log
  | trace
  | warning
  | error
  | solution
  | lowerBound
  | summary
  | close
deriving DecidableEq, Repr

namespace Channel

/-- All channels. -/
def all : List Channel := [log, trace, warning, error, solution, lowerBound, summary, close]

/-- The name of a channel. -/
def name : Channel → String
  | log => "log"
  | trace => "trace"
  | warning => "warning"
  | error => "error"
  | solution => "solution"
  | lowerBound => "lower_bound"
  | summary => "summary"
  | close => "close"

end Channel

/-- What a session tells those who listen. -/
inductive SessionEvent where
  | log (text : String)
  | trace (text : String)
  | warning (text : String)
  | error (e : SessionError)
  | solution (found : Found)
  | lowerBound (b : Bound)
  | summary (s : Summary)
  | close
deriving Repr

/-- The channel of an event. -/
def SessionEvent.channel : SessionEvent → Channel
  | log _ => .log
  | trace _ => .trace
  | warning _ => .warning
  | error _ => .error
  | solution _ => .solution
  | lowerBound _ => .lowerBound
  | summary _ => .summary
  | close => .close

/-- What can be asked of a session through a handle. -/
inductive HandleRequest where
  /-- To stop the engine early. -/
  | stop (reason : String)
  /-- To hand a solution to the engine. -/
  | offer (s : Solution)
deriving Repr

/-- What a handle answers. -/
inductive HandleAnswer where
  | queued
  /-- Nothing is running, and nothing was sent. -/
  | notRunning
  /-- The solution does not fit the model. -/
  | refused (e : ProtocolError)
deriving Repr

/-- A listener, with what it asks every time it is called. -/
structure Listener where
  id : Nat
  channel : Channel
  reaction : List HandleRequest
deriving Repr

/-- The listeners and subscriptions of a session. Each has a number of its own. -/
structure Registry where
  /-- The greatest number given so far. -/
  lastId : Nat
  listeners : List Listener
  subscriptions : List Nat
deriving Repr, Inhabited

namespace Registry

/-- The registry of nobody. -/
def empty : Registry := ⟨0, [], []⟩

/-- Adds a listener, and gives its number. -/
def listen (r : Registry) (channel : Channel) (reaction : List HandleRequest) : Nat × Registry :=
  let id := r.lastId + 1
  (id, { r with lastId := id, listeners := r.listeners ++ [⟨id, channel, reaction⟩] })

/-- Adds a subscription, and gives its number. -/
def subscribe (r : Registry) : Nat × Registry :=
  let id := r.lastId + 1
  (id, { r with lastId := id, subscriptions := r.subscriptions ++ [id] })

/-- Whether a number belongs to somebody. -/
def knows (r : Registry) (id : Nat) : Bool :=
  r.listeners.any (·.id == id) || r.subscriptions.contains id

/-- Removes whoever has a number; says whether there was anybody. -/
def unsubscribe (r : Registry) (id : Nat) : Bool × Registry :=
  (r.knows id, { r with
    listeners := r.listeners.filter (·.id != id)
    subscriptions := r.subscriptions.filter (· != id) })

/-- The listeners of a channel, in the order in which they came. -/
def on (r : Registry) (channel : Channel) : List Listener :=
  r.listeners.filter (·.channel == channel)

/-- Whether somebody takes errors. -/
def hearsErrors (r : Registry) : Bool := !(r.on .error).isEmpty

/-- How many listen. -/
def count (r : Registry) : Nat := r.listeners.length + r.subscriptions.length

/-- The full text of a registry: how many listen on each channel. -/
def describe (r : Registry) : String :=
  let channels := Channel.all.map fun c => c.name ++ ": " ++ Nat.repr (r.on c).length
  let subscribers := "subscribers: " ++ Nat.repr r.subscriptions.length
  "SolverEventSupport \x7b " ++ ", ".intercalate (channels ++ [subscribers]) ++ " \x7d"

end Registry

end Scheduling
