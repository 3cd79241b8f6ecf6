import Scheduling.Session.Report

/-!
# Steps of sessions

How a session goes on: its job starts, a line of the engine comes in, the engine's stream ends, a
handle asks for something, or a queued line goes out. These happen in any order. Nothing but a
request has an effect on a session that is not running, and a request is then turned down.
-/

namespace Scheduling

namespace Session

/-- Adds an effect. -/
def emit (s : Session) (e : Effect) : Session := { s with effects := s.effects ++ [e] }

/-- Adds a notice. -/
def report (s : Session) (n : Notice) : Session := s.emit (.notice n)

/-! ## Handles -/

/-- What a handle answers to a request, and the session after it. -/
def ask (s : Session) (r : HandleRequest) : HandleAnswer × Session :=
  match s.isRunning, s.job with
  | true, some job =>
    match r with
    | .stop reason => (.queued, { s with queue := s.queue ++ [.stop reason] })
    | .offer solution =>
      match Command.offerSolution job.model solution with
      | .ok c => (.queued, { s with queue := s.queue ++ [.line (c.line Parameters.toJson)] })
      | .error e => (.refused e, s)
  | _, _ => (.notRunning, s)

/-- Carries out a request of a handle. -/
def request (s : Session) (r : HandleRequest) : Session :=
  let (a, s) := s.ask r
  s.emit (.answer r a)

/-! ## Listeners -/

/-- Calls a listener, which may ask for something. -/
def callListener (e : SessionEvent) (s : Session) (l : Listener) : Session :=
  l.reaction.foldl request (s.emit (.call l e))

/-- Tells an event to the listeners of its channel, and then to the subscriptions. -/
def fire (s : Session) (e : SessionEvent) : Session :=
  let s := (s.registry.on e.channel).foldl (callListener e) s
  if s.registry.subscriptions.isEmpty then s else s.emit (.publish e)

/-- Tells that nothing more will come, and ends the subscriptions. -/
def close (s : Session) : Session :=
  let s := s.fire .close
  { s with registry := { s.registry with subscriptions := [] } }

/-! ## Lines to the engine -/

/-- Writes a line to the engine, or complains when it takes none any more. -/
def writeLine (s : Session) (complaint line : String) : Session :=
  if s.connected then s.emit (.write line) else s.report (.complaint complaint "broken pipe")

/-- The line of a stop. -/
def stopLine (reason : String) : String :=
  (Command.stop reason : Command Parameters).line Parameters.toJson

/-- Writes the first of the queue to the engine. -/
def deliver (s : Session) : Session :=
  match s.isRunning, s.queue with
  | true, .stop reason :: rest =>
    let s := { s with queue := rest }.report (.stopRequested reason)
    s.writeLine "cannot write to engine" (stopLine reason)
  | true, .line text :: rest => { s with queue := rest }.writeLine "cannot write to engine" text
  | _, _ => s

/-! ## Ends -/

/-- Ends the job with its answer. -/
def finish (s : Session) : Session := { s with state := .finished }.close

/-- Ends the job with an error. -/
def fail (s : Session) (job : Job) (e : SessionError) : Session :=
  let s := { s with state := .errored, failure := some e }.report (.engineError job.task e)
  (s.fire (.error e)).close

/-! ## Events of the engine -/

/-- Keeps a text of the engine in the sink, or prints it when none takes it and the job says so. The
truth value tells that the sink failed. -/
def keep (s : Session) (job : Job) (text : String) : Session × Bool :=
  match s.sink.filter (!·.failed) with
  | none =>
    (if job.printsLog then (textLines text).foldl (fun s line => s.emit (.print line)) s else s,
      false)
  | some sink =>
    let sink := sink.write (Sink.form text)
    let s := { s with sink := some sink }
    if sink.failed then
      (s.report (.complaint "output sink failed, stopping the engine" "sink full"), true)
    else (s, false)

/-- Passes on a text of the engine. When the sink fails the engine is told to stop. -/
def relay (s : Session) (job : Job) (text : String) (e : SessionEvent) : Session :=
  let (s, failed) := s.keep job text
  let s := s.fire e
  if failed then s.writeLine "cannot send stop" (stopLine "output sink failed") else s

/-- Takes an event of the engine. -/
def take (s : Session) (job : Job) : Event → Session
  | .log text => s.relay job text (.log text)
  | .trace text => s.relay job text (.trace text)
  | .warning text => s.relay job text (.warning text)
  | .error text => s.fail job (.engine text)
  | .solution found =>
    let s := s.report (.solution found)
    let s := { s with answer := { s.answer with result := s.answer.result.addSolution found } }
    s.fire (.solution found)
  | .lowerBound solveTime value =>
    let s := s.report (.lowerBound ⟨solveTime, value⟩)
    let result := s.answer.result.addLowerBound ⟨solveTime, value⟩
    { s with answer := { s.answer with result } }.fire (.lowerBound ⟨solveTime, value⟩)
  | .summary summary =>
    let s := (s.report (.solveEnd summary)).fire (.summary summary)
    let result := { s.answer.result with summary := some summary }
    { s with answer := { s.answer with result } }.finish
  | .domains d =>
    let s := s.report (.propagated d)
    { s with answer := { s.answer with domains := some d } }.finish
  | .text content =>
    let s := s.report (.textReady content)
    { s with answer := { s.answer with text := some content } }.finish

/-- Takes a line of the engine. A blank line says nothing. -/
def receive (s : Session) (line : String) : Session :=
  match s.isRunning, s.job with
  | true, some job =>
    if line.toList.all isBlank then s
    else
      match Event.read job.model line with
      | .error e => s.fail job (.badMessage line e)
      | .ok e =>
        if e.isFinal && !job.task.isEndedBy e then
          s.fail job (.protocol (.unexpectedEnd job.task.name line))
        else s.take job e
  | _, _ => s

/-- Takes a line of the engine that is no text. -/
def garbled (s : Session) : Session :=
  match s.isRunning, s.job with
  | true, some job => s.fail job .unreadable
  | _, _ => s

/-- Takes the end of the engine's stream. -/
def streamEnded (s : Session) : Session :=
  match s.isRunning, s.job with
  | true, some job => s.fail job (.streamEnded job.task)
  | _, _ => s

/-! ## Starts -/

/-- Takes a job on. Requests are answered from here on, before there is an engine. -/
def accept (s : Session) (job : Job) : Session :=
  { s with state := .running, job := some job }.report (.solveStart job)

/-- Starts the engine for a job. If the line of the job can be written, `launched` says why no engine
took it. -/
def launch (s : Session) (job : Job) (launched : Except SessionError Unit) : Session :=
  match job.line, launched with
  | .error e, _ => s.fail job (.protocol e)
  | .ok _, .error e => s.fail job e
  | .ok line, .ok () => s.emit (.write line)

/-- Starts a job. -/
def start (s : Session) (job : Job) (launched : Except SessionError Unit) : Session :=
  (s.accept job).launch job launched

/-! ## All steps -/

/-- What can happen to a session whose job has started. -/
inductive Input where
  /-- A line of the engine comes in. -/
  | line (text : String)
  /-- A line of the engine comes in that is no text. -/
  | garbled
  /-- The engine's stream ends. -/
  | ended
  /-- The engine takes no more lines. -/
  | deaf
  /-- The first line of the queue goes out. -/
  | deliver
  /-- A handle asks for something. -/
  | request (r : HandleRequest)

/-- One step. -/
def step (s : Session) : Input → Session
  | .line text => s.receive text
  | .garbled => s.garbled
  | .ended => s.streamEnded
  | .deaf => { s with connected := false }
  | .deliver => s.deliver
  | .request r => s.request r

/-- Steps one after the other. -/
def run (s : Session) (inputs : List Input) : Session := inputs.foldl step s

end Session

end Scheduling
