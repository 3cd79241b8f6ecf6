import Scheduling.Benchmark.Plan
import Scheduling.Benchmark.Report
import Scheduling.Engine.Exchange
import Scheduling.Folder
import Scheduling.Parameters.Flags
import Scheduling.Record.Document

/-!
# Benchmarks

A benchmark makes its runs, a limited number of them at a time. Which of the runs under way ends
next is left open: an order says it, and the results come in the order of the inputs all the same.
-/

namespace Scheduling

/-! ## The bench -/

/-- What a benchmark works with: its folder, what it has reported, and how many engines it has
started. -/
structure Bench where
  folder : Folder
  shown : List (Notice ⊕ String)
  launches : Nat

/-- An activity of a benchmark. What it has done before an error stays done. -/
abbrev Benching (α : Type) := ExceptT BenchmarkError (StateM Bench) α

namespace Benching

/-- Reports something. -/
def report (n : Notice) : Benching Unit :=
  modify fun b => { b with shown := b.shown ++ [.inl n] }

/-- Prints a text. -/
def print (text : String) : Benching Unit :=
  modify fun b => { b with shown := b.shown ++ [.inr text] }

/-- Writes a file, and makes the folders that it needs. -/
def writeFile (path content : String) : Benching Unit := do
  let p := FilePath.ofText path
  match (← get).folder.makeParents p with
  | .error _ => throw (.output path)
  | .ok folder =>
    modify fun b => { b with folder }
    match folder.write p content with
    | .error _ => throw (.output path)
    | .ok folder => modify fun b => { b with folder }

end Benching

/-! ## Notices -/

namespace Notice

/-- The name under which benchmarks report. -/
def benchmarkTarget : String := "chronoforge_benchmark"

/-- A notice of an event of a benchmark. -/
def ofBenchmark (event : String) (fields : List (String × FieldValue)) : Notice :=
  ⟨benchmarkTarget, .info, ("event", .text event) :: fields⟩

/-- A benchmark starts. -/
def benchmarkStart (nbInputs : Nat) (b : BenchmarkParameters) : Notice :=
  ofBenchmark "benchmark_start" [("nb_inputs", .natural nbInputs), ("nb_seeds", .natural b.seeds),
    ("nb_parallel_runs", .natural b.parallelRuns)]

/-- A run starts. -/
def runStart (r : Run) : Notice :=
  ofBenchmark "run_start" [("model", .shown r.name), ("seed", maybeCount r.seed)]

/-- A run ends. -/
def runEnd (r : RunResult) : Notice :=
  ofBenchmark "run_end" [("model", .shown r.name), ("objective", maybeFloat r.objective?),
    ("duration", maybeFloat r.duration?), ("error", .truth r.hasFailed)]

/-- A benchmark ends. -/
def benchmarkEnd (results : List RunResult) : Notice :=
  ofBenchmark "benchmark_end" [("nb_runs", .natural results.length),
    ("nb_errors", .natural (results.filter (·.hasFailed)).length)]

/-- A run fails. -/
def runFailed (name error : String) : Notice :=
  ⟨benchmarkTarget, .warn,
    [("message", .shown "run failed"), ("model", .shown name), ("error", .shown error)]⟩

/-- A benchmark cannot be made. -/
def refusal (message error : String) : Notice :=
  ⟨benchmarkTarget, .error, [("message", .shown message), ("error", .shown error)]⟩

end Notice

/-! ## Runs -/

namespace Run

/-- The job of a run. -/
def job (r : Run) : Job := ⟨.solve, r.model, r.parameters, none⟩

/-- Writes the problem of a run, if it is wanted. -/
def writeProblem (r : Run) : Benching Unit := do
  match r.exportJson with
  | none => pure ()
  | some path =>
    let p : Problem Parameters := ⟨r.model, some r.parameters, none⟩
    match p.document Parameters.toJson with
    | .error e => throw (.protocol e)
    | .ok text => Benching.writeFile path text

/-- Solves the model of a run. The texts of the engine go to a file, if one is wanted. -/
def solve (launch : Launcher) (r : Run) : Benching RunOutcome := do
  match r.log with
  | none => pure ()
  | some path => Benching.writeFile path ""
  match (Session.fresh .empty (r.log.map fun _ => .empty none)).carryOut launch r.job with
  | .error e => pure (.failed e.message)
  | .ok x =>
    let s := x.session
    modify fun b => { b with shown := b.shown ++ s.shown, launches := b.launches + x.launches }
    match r.log with
    | none => pure ()
    | some path => Benching.writeFile path s.kept
    match s.outcome? with
    | some (.ok a) => pure (.solved a.result)
    | some (.error e) => do
      Benching.report (.runFailed r.name e.message)
      pure (.failed e.message)
    | none => pure (.failed "the session did not end")

/-- Makes a run that starts at some time. -/
def execute (launch : Launcher) (now : String) (r : Run) : Benching RunResult := do
  Benching.report (.runStart r)
  r.writeProblem
  let outcome ← r.solve launch
  let result : RunResult := ⟨r.modelName, now, r.parameters, r.seed, outcome⟩
  Benching.report (.runEnd result)
  match r.result with
  | none => pure ()
  | some path => Benching.writeFile path result.toJson.pretty
  pure result

end Run

/-! ## Batches -/

/-- Runs that wait, runs under way, and the results so far by position. -/
structure Batch (ι : Type) where
  waiting : List (Turn ι)
  running : List Run
  slots : List (Option RunResult)

namespace Batch

variable {ι : Type}

/-- Starts waiting runs while there is room for them. -/
def fill (cap : Nat) (prepare : Turn ι → Except BenchmarkError Run) :
    List (Turn ι) → List Run → Except BenchmarkError (List (Turn ι) × List Run)
  | [], running => .ok ([], running)
  | t :: rest, running =>
    if running.length < cap then
      match prepare t with
      | .ok run => fill cap prepare rest (running ++ [run])
      | .error e => .error e
    else .ok (t :: rest, running)

/-- Goes on for a number of rounds. In each round all runs start for which there is room, and one
ends: the order says which. -/
def go (cap : Nat) (prepare : Turn ι → Except BenchmarkError Run)
    (execute : Run → Benching RunResult) : (rounds : Nat) → (order : List Nat) → Batch ι →
    Benching (List (Option RunResult))
  | 0, _, b => pure b.slots
  | rounds + 1, order, b => do
    let (waiting, running) ← fill cap prepare b.waiting b.running
    let chosen := order.headD 0 % running.length
    match running[chosen]? with
    | none => pure b.slots
    | some run =>
      let result ← execute run
      go cap prepare execute rounds order.tail
        ⟨waiting, running.eraseIdx chosen, b.slots.set run.slot (some result)⟩

end Batch

/-! ## Benchmarks -/

/-- A benchmark: how its engines are started, how a model is built from an input, when its runs
start, and in which order the runs under way end. -/
structure BenchmarkSetup (ι : Type) where
  launch : Launcher
  build : ι → Except ModelError Model
  now : String
  order : List Nat

namespace BenchmarkSetup

variable {ι : Type}

/-- The run of a turn, once its model is built. -/
def prepare (setup : BenchmarkSetup ι) (b : BenchmarkParameters) (t : Turn ι) :
    Except BenchmarkError Run :=
  match setup.build t.input with
  | .ok m => .ok (b.run t m)
  | .error e => .error (.model e)

/-- Makes a benchmark over some inputs. -/
def run (setup : BenchmarkSetup ι) (inputs : List ι) (b : BenchmarkParameters) :
    Benching (List RunResult) := do
  match b.usageError? inputs.length with
  | some e => do
    Benching.report (.refusal "invalid benchmark" e.message)
    throw (.usage e)
  | none => do
    Benching.report (.benchmarkStart inputs.length b)
    let all := turns inputs b.seeds
    let slots ← Batch.go b.parallelRuns (setup.prepare b) (Run.execute setup.launch setup.now)
      all.length setup.order ⟨all, [], all.map fun _ => none⟩
    let results := slots.filterMap id
    match b.output with
    | none => pure ()
    | some path => Benching.writeFile path (Json.arr (results.map RunResult.toJson)).pretty
    match b.summary with
    | none => pure ()
    | some path => Benching.writeFile path (Report.csv results)
    Benching.report (.benchmarkEnd results)
    pure results

/-- Makes a benchmark with parameters from flags. There are no results when the flags ask for the
usage. -/
def runWithFlags (setup : BenchmarkSetup ι) (inputs : List ι) (args : List String) :
    Benching (Option (List RunResult)) := do
  match readBenchmarkFlags args with
  | .ok (.parsed b) => do pure (some (← setup.run inputs b))
  | .ok (.usage text) => do
    Benching.print text
    pure none
  | .error e => do
    Benching.report (.refusal "invalid benchmark flags" e.message)
    throw (.config e)

end BenchmarkSetup

end Scheduling
