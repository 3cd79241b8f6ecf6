import Scheduling.Arith
import Scheduling.Console.Figure
import Scheduling.Console.Notice
import Scheduling.Console.Style
import Scheduling.Decimal.Read
import Scheduling.Text.Uppercase

/-!
# Lines of the console

A notice becomes at most one line. The field `event` selects the form of the line; a notice without
an event is shown when it is a warning or an error. Fields of the wrong kind count as missing.
-/

namespace Scheduling

/-! ## Reading fields -/

namespace FieldValue

/-- A text without the double quotes at its ends. -/
def trimQuotes (t : String) : String :=
  let cs := t.toList.dropWhile (· == '"')
  String.ofList (cs.reverse.dropWhile (· == '"')).reverse

/-- What is inside `Some( )`; any other text is itself. -/
def inner (t : String) : String :=
  let cs := t.toList
  if cs.take 5 = "Some(".toList ∧ cs.getLast? = some ')' then .ofList (cs.drop 5).dropLast else t

/-- The text of a field. -/
def text? : FieldValue → Option (Option String)
  | text t => some (some t)
  | shown t => some (some (trimQuotes t))
  | _ => none

/-- The float of a field. -/
def float? : FieldValue → Option (Option Float)
  | float x => some (some x)
  | _ => none

/-- The float of a field that may be shown. A shown text that is no float clears the field. -/
def maybeFloat? : FieldValue → Option (Option Float)
  | float x => some (some x)
  | shown t => some (readFloat (inner t))
  | _ => none

/-- The count of a field; a negative integer counts as zero. -/
def count? : FieldValue → Option (Option Nat)
  | natural n => some (some n)
  | integer v => some (some v.toNat)
  | _ => none

/-- The count of a field that may be shown. -/
def maybeCount? : FieldValue → Option (Option Nat)
  | shown t => some (readNatural wordMax.toNat (inner t)).toOption
  | v => v.count?

/-- The truth value of a field. -/
def truth? : FieldValue → Option (Option Bool)
  | truth b => some (some b)
  | _ => none

/-- The truth value of a field that may be shown. -/
def maybeTruth? : FieldValue → Option (Option Bool)
  | shown t =>
    match inner t with
    | "true" => some (some true)
    | "false" => some (some false)
    | _ => some none
  | v => v.truth?

end FieldValue

namespace Notice

/-- The value of a field. Values of the wrong kind are passed over. -/
def value? {α : Type} (n : Notice) (name : String) (read : FieldValue → Option (Option α)) :
    Option α :=
  n.fields.foldl (fun found (key, v) => if key == name then (read v).getD found else found) none

/-- The text of a field. -/
def text? (n : Notice) (name : String) : Option String := n.value? name FieldValue.text?

/-- The text of a field, or another text. -/
def textOr (n : Notice) (name missing : String) : String := (n.text? name).getD missing

/-- The seconds of a field, or zero. -/
def seconds (n : Notice) (name : String) : Float := (n.value? name FieldValue.float?).getD 0.0

/-- The count of a field, or another number. -/
def countOr (n : Notice) (name : String) (missing : Nat) : Nat :=
  (n.value? name FieldValue.count?).getD missing

/-- The time that a run took. -/
def duration? (n : Notice) : Option Float := n.value? "duration" FieldValue.maybeFloat?

/-- The value of the objective. -/
def objective? (n : Notice) : Option Float := n.value? "objective" FieldValue.maybeFloat?

end Notice

/-! ## Forms of lines -/

namespace Console

/-- An objective value, or that there is none. -/
def objective : Option Float → String
  | some x => embolden (Color.brightGreen.paint (figure x))
  | none => Color.brightBlack.paint "N/A"

/-- A sign in bold print. -/
def sign (c : Color) (symbol : String) : String := embolden (c.paint symbol)

/-- A command starts. -/
def solveStart (n : Notice) : String :=
  let limit :=
    match n.value? "time_limit" FieldValue.maybeFloat? with
    | some limit => " │ " ++ Color.brightYellow.paint (timeSpan limit) ++ " limit"
    | none => ""
  let workers :=
    match n.value? "nb_workers" FieldValue.maybeCount? with
    | none | some 0 => ""
    | some count => " │ " ++ Color.brightYellow.paint (groupedNat count) ++ " workers"
  sign .brightGreen "▶" ++ " " ++ capitalize (n.textOr "command" "solve") ++ " "
    ++ embolden (Color.white.paint (n.textOr "model" "<unnamed>")) ++ limit ++ workers

/-- A solution is found. -/
def solution (n : Notice) : String :=
  let checked := n.value? "valid" FieldValue.maybeTruth? == some true
  Color.brightYellow.paint "★" ++ " Solution │ objective " ++ objective n.objective? ++ " │ at "
    ++ Color.yellow.paint (timeSpan (n.seconds "solve_time"))
    ++ (if checked then " │ " ++ Color.brightGreen.paint "verified" else "")

/-- A lower bound is found. -/
def lowerBound (n : Notice) : String :=
  Color.brightBlue.paint "↓" ++ " Lower bound │ "
    ++ Color.brightBlue.paint (figure (n.seconds "value")) ++ " │ at "
    ++ Color.yellow.paint (timeSpan (n.seconds "solve_time"))

/-- What a solve achieved. -/
def status (found proof : Bool) : String :=
  match found, proof with
  | true, true => sign .brightGreen "OPTIMAL"
  | true, false => sign .brightGreen "FEASIBLE"
  | false, true => sign .brightRed "INFEASIBLE"
  | false, false => sign .yellow "NO SOLUTION"

/-- A command ends: a propagation says whether it is feasible, a text has bytes, and what has
neither is a solve. -/
def solveEnd (n : Notice) : String :=
  let duration := Color.yellow.paint (timeSpan (n.duration?.getD 0.0))
  let head := sign .brightCyan "■"
  match n.value? "infeasible" FieldValue.truth? with
  | some infeasible =>
    head ++ " Propagation complete │ " ++ duration ++ " │ "
      ++ (if infeasible then sign .brightRed "INFEASIBLE" else sign .brightGreen "PROPAGATED")
  | none =>
    match n.value? "bytes" FieldValue.count? with
    | some bytes =>
      head ++ " Text export complete │ " ++ Color.brightYellow.paint (groupedNat bytes) ++ " bytes"
    | none =>
      let count := n.countOr "nb_solutions" 0
      let bound :=
        match n.value? "lower_bound" FieldValue.maybeFloat? with
        | some x => " │ bound " ++ Color.brightBlue.paint (figure x)
        | none => ""
      head ++ " Solve complete │ " ++ embolden (Color.brightMagenta.paint (groupedNat count))
        ++ " solutions │ objective " ++ objective n.objective? ++ bound
        ++ " │ " ++ duration ++ " │ "
        ++ status (0 < count) (n.value? "proof" FieldValue.truth? == some true)

/-- A command fails. -/
def engineError (n : Notice) : String :=
  sign .brightRed "✗" ++ " " ++ capitalize (n.textOr "command" "solve") ++ " failed │ "
    ++ Color.brightRed.paint (n.textOr "error" "unknown error")

/-- An engine is asked to stop. -/
def stopRequested (n : Notice) : String :=
  Color.yellow.paint "■" ++ " Stop requested │ " ++ n.textOr "reason" ""

/-- A benchmark starts. -/
def benchmarkStart (n : Notice) : String :=
  let count (name : String) (missing : Nat) : String :=
    Color.brightYellow.paint (groupedNat (n.countOr name missing))
  sign .brightGreen "▶" ++ " Benchmark │ " ++ count "nb_inputs" 0 ++ " inputs × "
    ++ count "nb_seeds" 1 ++ " seeds │ " ++ count "nb_parallel_runs" 1 ++ " in parallel"

/-- The name of a run. -/
def runName (n : Notice) : String := embolden (Color.white.paint (n.textOr "model" "?"))

/-- A run of a benchmark starts. -/
def runStart (n : Notice) : String :=
  Color.brightBlue.paint "▷" ++ " Run " ++ runName n ++ " started"

/-- A run of a benchmark ends. -/
def runEnd (n : Notice) : String :=
  if n.value? "error" FieldValue.truth? == some true then
    Color.brightRed.paint "◁" ++ " Run " ++ runName n ++ " " ++ sign .brightRed "FAILED"
  else
    Color.brightBlue.paint "◁" ++ " Run " ++ runName n ++ " │ objective " ++ objective n.objective?
      ++ " │ " ++ Color.yellow.paint ((n.duration?.map timeSpan).getD "N/A")

/-- A benchmark ends. -/
def benchmarkEnd (n : Notice) : String :=
  let errors := n.countOr "nb_errors" 0
  let color : Color := if 0 < errors then .brightRed else .brightGreen
  sign .brightCyan "■" ++ " Benchmark complete │ "
    ++ Color.brightMagenta.paint (groupedNat (n.countOr "nb_runs" 0)) ++ " runs │ "
    ++ color.paint (groupedNat errors) ++ " errors"

/-- A warning or an error without an event. -/
def warning (n : Notice) : Option String := do
  let message ← n.text? "message"
  let icon := if n.level = .error then sign .brightRed "✗" else sign .yellow "⚠"
  let model := ((n.text? "model").map fun t => " │ " ++ t).getD ""
  let error := ((n.text? "error").map fun t => " │ " ++ Color.brightRed.paint t).getD ""
  some (icon ++ " " ++ message ++ model ++ error)

/-- The line of a notice, after the time. -/
def content (n : Notice) : Option String :=
  match n.textOr "event" "" with
  | "solve_start" => some (solveStart n)
  | "solution" => some (solution n)
  | "lower_bound" => some (lowerBound n)
  | "solve_end" => some (solveEnd n)
  | "engine_error" => some (engineError n)
  | "stop_requested" => some (stopRequested n)
  | "benchmark_start" => some (benchmarkStart n)
  | "run_start" => some (runStart n)
  | "run_end" => some (runEnd n)
  | "benchmark_end" => some (benchmarkEnd n)
  | "" => if n.level.isFailure then warning n else none
  | _ => none

/-- How the names begin of the parts whose notices are shown. -/
def targets : List String := ["chronoforge_solver", "chronoforge_benchmark", "chronoforge::"]

/-- Whether the notices of a part are shown. -/
def shows (target : String) : Bool :=
  targets.any fun t => target.toList.take t.length == t.toList

end Console

/-! ## The console -/

/-- A console: the moment from which it counts time, and whether a benchmark is going on. The runs
of a benchmark do not set the clock back. -/
structure Console where
  start : Option Float
  inBenchmark : Bool
deriving Repr

namespace Console

/-- A console that has shown nothing. -/
def blank : Console := ⟨none, false⟩

/-- The seconds since the start. -/
def elapsed (c : Console) (now : Float) : Float :=
  match c.start with
  | none => 0.0
  | some start => if start < now then now - start else 0.0

/-- The console once a notice has come in. -/
def notify (c : Console) (now : Float) (n : Notice) : Console :=
  match n.textOr "event" "" with
  | "solve_start" => if c.inBenchmark then c else { c with start := some now }
  | "benchmark_start" => ⟨some now, true⟩
  | "benchmark_end" => { c with inBenchmark := false }
  | _ => c

/-- Shows a notice at some moment. -/
def show? (c : Console) (now : Float) (n : Notice) : Console × Option String :=
  if shows n.target then
    let c := c.notify now n
    (c, (content n).map fun t => Color.brightBlack.paint (stamp (c.elapsed now)) ++ " " ++ t)
  else (c, none)

/-- The lines on a screen: those of notices that come in at one moment, between other lines. -/
def screen (c : Console) (now : Float) : List (Notice ⊕ String) → List String
  | [] => []
  | .inr line :: rest => line :: screen c now rest
  | .inl n :: rest =>
    let (c, line?) := c.show? now n
    line?.toList ++ screen c now rest

end Console

end Scheduling
