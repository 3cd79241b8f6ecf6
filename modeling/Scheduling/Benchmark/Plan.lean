import Scheduling.Benchmark.Pattern
import Scheduling.Benchmark.Result
import Scheduling.Parameters.Error

/-!
# Plans of benchmarks

Which runs a benchmark consists of, and when it cannot be made. Each input has a run for each seed;
the seeds of an input stand next to each other.
-/

namespace Scheduling

/-! ## Errors -/

/-- Why a benchmark cannot be made. -/
inductive UsageError where
  | noInputs
  | noParallelRuns
  | noSeeds
  /-- Every run would write to the same file. -/
  | overwritten (flag pattern : String)
deriving DecidableEq, Repr

/-- The wording of a usage error. -/
def UsageError.message : UsageError → String
  | noInputs => "no inputs to benchmark"
  | noParallelRuns => "nbParallelRuns must be at least 1"
  | noSeeds => "nbSeeds must be at least 1"
  | overwritten flag pattern =>
    "--" ++ flag ++ " " ++ quoted pattern ++ " would be overwritten by every run; use "
      ++ Pattern.nameMark ++ ", " ++ Pattern.flatNameMark ++ " or " ++ Pattern.seedMark

/-- What ends a whole benchmark. A run that fails does not. -/
inductive BenchmarkError where
  | usage (e : UsageError)
  /-- A file cannot be written. -/
  | output (path : String)
  | model (e : ModelError)
  | protocol (e : ProtocolError)
  | config (e : ConfigError)

/-- The wording of an error. -/
def BenchmarkError.message : BenchmarkError → String
  | usage e => "usage error: " ++ e.message
  | output path => "I/O error on " ++ path
  | model e => e.message
  | protocol e => e.message
  | config e => e.message

/-! ## Usage -/

namespace BenchmarkParameters

/-- The patterns of the files that each run writes, with their flags. -/
def runPatterns (b : BenchmarkParameters) : List (String × Option String) :=
  [("log", b.log), ("result", b.result), ("exportJSON", b.exportJson)]

/-- Why a benchmark over some number of inputs cannot be made. -/
def usageError? (b : BenchmarkParameters) (nbInputs : Nat) : Option UsageError :=
  if nbInputs = 0 then some .noInputs
  else if b.parallelRuns = 0 then some .noParallelRuns
  else if b.seeds = 0 then some .noSeeds
  else if nbInputs * b.seeds ≤ 1 then none
  else
    b.runPatterns.findSome? fun (flag, pattern) =>
      match pattern with
      | some pattern => if Pattern.varies pattern then none else some (.overwritten flag pattern)
      | none => none

end BenchmarkParameters

/-! ## Runs -/

/-- An input with the position of one of its seeds. -/
structure Turn (ι : Type) where
  input : ι
  index : Nat
  seedIndex : Nat

/-- All turns, those of one input next to each other. -/
def turns {ι : Type} (inputs : List ι) (seeds : Nat) : List (Turn ι) :=
  inputs.zipIdx.flatMap fun (input, index) => (List.range seeds).map fun k => ⟨input, index, k⟩

/-- A run that is ready to start. -/
structure Run where
  /-- The position of its result. -/
  slot : Nat
  model : Model
  modelName : String
  seed : Option Nat
  parameters : Parameters
  log : Option String
  result : Option String
  exportJson : Option String

namespace Run

/-- The name of the run. -/
def name (r : Run) : String := runName r.modelName r.seed

end Run

/-- The run of a turn with a model. With several seeds the run gets the number of its turn as its
seed. -/
def BenchmarkParameters.run {ι : Type} (b : BenchmarkParameters) (t : Turn ι) (m : Model) : Run :=
  let modelName := m.name.getD ("model" ++ Nat.repr (t.index + 1))
  let seed := if 1 < b.seeds then some (t.seedIndex + 1) else none
  let search := { b.parameters.search with
    randomSeed := seed <|> b.parameters.search.randomSeed }
  let expand (pattern : String) : String := Pattern.expand pattern (runName modelName seed) seed
  { slot := t.index * b.seeds + t.seedIndex
    model := m
    modelName
    seed
    parameters := { b.parameters with search }
    log := b.log.map expand
    result := b.result.map expand
    exportJson := b.exportJson.map expand }

end Scheduling
