import Scheduling.Console.Notice
import Scheduling.Engine.Program
import Scheduling.Model.Sample
import Scheduling.Scenario.Call

/-!
# Engines in scenarios

Scripts of engines, and the notices that a console is given.
-/

namespace Scheduling

namespace Scenario

/-! ## Engines -/

/-- A sample model by name. -/
def fixtureModel (name : String) (tag : Nat) : Decode Model :=
  match name with
  | "two_tasks" => .ok (Sample.twoTasks tag)
  | "alternative" => .ok (Sample.alternative tag)
  | "no_overlap" => .ok (Sample.noOverlap tag)
  | _ => .error "unknown fixture"

/-- A solution of a sample model. -/
def fixtureSolution (name : String) (start : Int) (m : Model) : Option Solution :=
  match name with
  | "two_tasks" => Sample.twoTasksSolution m start
  | "alternative" => Sample.alternativeSolution m start (start % 2 = 0)
  | _ => Sample.noOverlapSolution m start (start + 10)

/-- A reply; one that takes time or comes in pieces is a plain one. -/
def replyOf (j : Json) : Decode (Model → List Reply) := do
  let data (event : String → Event) : Decode (Model → List Reply) := do
    let t ← textField j "data"
    pure fun _ => [.send (event t)]
  match ← textField j "reply" with
  | "log" => data .log
  | "trace" => data .trace
  | "warning" => data .warning
  | "error" => data .error
  | "text" => data .text
  | "lower_bound" => do
    let time ← floatText (← field j "time")
    let value ← floatText (← field j "value")
    pure fun _ => [Reply.lowerBound time value]
  | "summary" => do
    let n ← natural (← field j "n")
    let objective ← optional j "objective" floatText
    pure fun _ => [Reply.summary n objective]
  | "domains" => do
    let d := if flag j "infeasible" then none else some SortedMap.empty
    pure fun _ => [Reply.domains d]
  | "solution" => do
    let time ← floatText (← field j "time")
    let line ← textField j "text"
    pure fun m =>
      match (do m.solution (← SolutionRecord.ofLine line) : Except ProtocolError Solution) with
      | .ok s => [.solution time s]
      | .error _ => []
  | "raw" | "fragmented" => do
    let line ← textField j "line"
    pure fun _ => [.raw line]
  | "delay" => pure fun _ => []
  | "wait_for_stop" => pure fun _ => [.awaitStop]
  | "hangup" => pure fun _ => [.hangUp]
  | _ => .error "unknown reply"

/-- Replies. -/
def repliesOf (js : List Json) : Decode (Model → List Reply) := do
  let replies ← js.mapM replyOf
  pure fun m => replies.flatMap (· m)

/-- A model name and a seed that a request has to match, and the replies to it. -/
structure Scene where
  model : Option String
  seed : Option Nat
  replies : Model → List Reply

/-- Whether a scene is for a model and some parameters. -/
def Scene.fits (sc : Scene) (m : Model) (p : Parameters) : Bool :=
  (sc.model.all fun name => m.name == some name)
    && (sc.seed.all fun seed => p.search.randomSeed == some seed)

/-- The script that plays the first scene that fits. -/
def scriptOf (scenes : List Scene) : Script
  | .solve m p _ | .propagate m p | .toText m p _ =>
    match scenes.find? fun sc => sc.fits m p with
    | some sc => sc.replies m
    | none => []
  | _ => []

/-- The engine of an input, and whether it can be started. -/
def engineOf (j : Json) : Decode (Launcher × Bool) := do
  match j with
  | .str "unavailable" => pure (.unavailable, false)
  | .str "process" => pure (.program .silent, true)
  | .arr js => do
    if js.any fun r => (member? r "replies").isSome then
      let scenes ← js.mapM fun r => do
        pure (⟨← optional r "model" text, ← optional r "seed" natural,
          ← repliesOf (← listField r "replies")⟩ : Scene)
      pure (.scripted (scriptOf scenes), true)
    else
      let replies ← repliesOf js
      pure (.scripted (scriptOf [⟨none, none, replies⟩]), true)
  | _ => do
    let name ← textField j "solving"
    let start := (← optional j "start" integer).getD 0
    pure (.scripted (.solving fun m => (fixtureSolution name start m).toList), true)

/-! ## Notices -/

/-- The value of a field. -/
def fieldValue (kind : String) (v : Json) : Decode FieldValue :=
  match kind with
  | "str" => do pure (.text (← text v))
  | "f64" => do pure (.float (← floatText v))
  | "u64" => do pure (.natural (← natural v))
  | "i64" => do pure (.integer (← integer v))
  | "bool" => do pure (.truth (← truth v))
  | "debug" => do pure (.shown (← text v))
  | _ => .error "unknown type of field"

/-- A notice. -/
def noticeOf (j : Json) : Decode Notice := do
  let level ← text (← field j "level")
  let level ← need "a level" (Level.all.find? fun l => l.name == level)
  let fields ← (← listField j "fields").mapM fun f => do
    match ← items f with
    | [name, kind, v] => pure (← text name, ← fieldValue (← text kind) v)
    | _ => .error "expected a field"
  pure ⟨← textField j "target", level, fields⟩

end Scenario

end Scheduling
