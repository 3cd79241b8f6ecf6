import Scheduling.Benchmark.Result
import Scheduling.Eval.Node

/-!
# Reports

The results of a benchmark as tables: figures for each model, comma-separated values with a row for
each run, and a page in Markdown with both.
-/

namespace Scheduling

/-! ## Figures of models -/

/-- Figures over the runs of one model. -/
structure ModelStats where
  modelName : String
  runs : Nat
  errors : Nat
  bestObjective : Option Float
  bestLowerBound : Option Float
  /-- How long the runs took that say so. -/
  durations : List Float
deriving Repr

namespace ModelStats

/-- The figures of no runs. -/
def empty (modelName : String) : ModelStats := ⟨modelName, 0, 0, none, none, []⟩

/-- The better of two figures, given which is better. -/
def better (choose : Float → Float → Float) : Option Float → Option Float → Option Float
  | some best, some x => some (choose best x)
  | none, x => x
  | best, none => best

/-- Adds a run. A run that says that the model maximizes is compared in that sense. -/
def add (s : ModelStats) (r : RunResult) : ModelStats :=
  let s := { s with runs := s.runs + 1 }
  if r.hasFailed then { s with errors := s.errors + 1 }
  else
    let objective := if r.maximizes then greater else lesser
    let bound := if r.maximizes then lesser else greater
    { s with
      bestObjective := better objective s.bestObjective r.objective?
      bestLowerBound := better bound s.bestLowerBound r.lowerBound?
      durations := s.durations ++ r.duration?.toList }

/-- The average time of the runs that say how long they took. -/
def averageDuration? (s : ModelStats) : Option Float :=
  if s.durations.isEmpty then none
  else some (s.durations.foldl (· + ·) (-0.0) / s.durations.length.toFloat)

/-- Adds a run to the figures of its model, which come last if the model is new. -/
def addTo (r : RunResult) : List ModelStats → List ModelStats
  | [] => [(empty r.modelName).add r]
  | s :: rest => if s.modelName == r.modelName then s.add r :: rest else s :: addTo r rest

end ModelStats

namespace Report

/-- The figures of all models, in the order in which they first appear. -/
def aggregate (results : List RunResult) : List ModelStats :=
  results.foldl (fun stats r => ModelStats.addTo r stats) []

/-! ## Comma-separated values -/

/-- A field: one that holds a comma, a double quote or a line break is quoted. -/
def csvField (text : String) : String :=
  if text.toList.any (· ∈ [',', '"', '\n', '\r']) then
    let doubled := text.toList.flatMap fun c => if c = '"' then ['"', '"'] else [c]
    "\"" ++ String.ofList doubled ++ "\""
  else text

/-- The text of a value, or nothing. -/
def orEmpty {α : Type} (write : α → String) (v : Option α) : String := (v.map write).getD ""

/-- The names of the fields. -/
def csvHeader : List String :=
  ["model", "seed", "status", "objective", "lowerBound", "nbSolutions", "duration", "proof",
    "error"]

/-- The fields of a run. -/
def csvFields (r : RunResult) : List String :=
  [csvField r.modelName, orEmpty Nat.repr r.seed, if r.hasFailed then "error" else "solved",
    orEmpty Layout.plain.write r.objective?, orEmpty Layout.plain.write r.lowerBound?,
    orEmpty (fun s => Nat.repr s.nbSolutions) r.solved?, orEmpty Layout.plain.write r.duration?,
    orEmpty (fun s => if s.proof then "true" else "false") r.solved?, csvField (r.error?.getD "")]

/-- A row of fields. -/
def csvRow (fields : List String) : String := ",".intercalate fields ++ "\n"

/-- The results with a row for each run, after a row of names. -/
def csv (results : List RunResult) : String :=
  String.join (csvRow csvHeader :: results.map fun r => csvRow (csvFields r))

/-! ## Markdown -/

/-- A number, or that there is none. -/
def orNone (write : Float → String) (x : Option Float) : String := (x.map write).getD "N/A"

/-- A row of a table. -/
def markdownRow (cells : List String) : String := "| " ++ " | ".intercalate cells ++ " |\n"

/-- The cells of a model. -/
def modelCells (s : ModelStats) : List String :=
  [s.modelName, Nat.repr s.runs, Nat.repr s.errors, orNone Layout.plain.write s.bestObjective,
    orNone Layout.plain.write s.bestLowerBound, orNone (fixedPlaces 2) s.averageDuration?]

/-- How a run ended. -/
def status (r : RunResult) : String :=
  match r.error? with
  | some message => "error: " ++ message
  | none => if r.solved?.any (·.proof) then "optimal" else "solved"

/-- A text with a backslash before each bar. -/
def escapeBars (text : String) : String :=
  String.ofList (text.toList.flatMap fun c => if c = '|' then ['\\', '|'] else [c])

/-- The cells of a run. -/
def runCells (r : RunResult) : List String :=
  [r.name, orNone Layout.plain.write r.objective?,
    Nat.repr ((r.solved?.map (·.nbSolutions)).getD 0), orNone (fixedPlaces 2) r.duration?,
    escapeBars (status r)]

/-- The start of a page: how many runs there were. -/
def opening (results : List RunResult) : String :=
  "# Benchmark\n\n- **Runs**: " ++ Nat.repr results.length ++ "\n- **Errors**: "
    ++ Nat.repr (results.filter (·.hasFailed)).length ++ "\n\n## Summary\n\n"

/-- The head of the table of models. -/
def modelHead : String :=
  "| Model | Runs | Errors | Best Objective | Best Bound | Avg Time (s) |\n"
    ++ "|-------|------|--------|----------------|------------|--------------|\n"

/-- The head of the table of runs. -/
def runHead : String :=
  "\n## Run Details\n\n| Run | Objective | Solutions | Time (s) | Status |\n"
    ++ "|-----|-----------|-----------|----------|--------|\n"

/-- The page of a benchmark: a table of models and a table of runs, or that there are none. -/
def markdown (results : List RunResult) : String :=
  if results.isEmpty then opening results ++ "*No runs completed.*\n"
  else
    opening results ++ modelHead
      ++ String.join ((aggregate results).map fun s => markdownRow (modelCells s))
      ++ runHead ++ String.join (results.map fun r => markdownRow (runCells r))

end Report

end Scheduling
