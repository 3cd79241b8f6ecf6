import Scheduling.Decimal.Read
import Scheduling.Arith
import Scheduling.Json.Basic
import Scheduling.SortedMap
import Scheduling.Text.Blank

/-!
# Parameters

What a solve is run with. Every field may be left unset. The parameters of a worker come from its
own record, on top of the defaults that hold for all workers.
-/

namespace Scheduling

/-- The text in lower case, over ASCII. -/
def lowerCase (text : String) : String := String.ofList (text.toList.map Char.toLower)

/-! ## Choices -/

/-- How a worker searches. -/
inductive SearchType where
  | largeNeighborhood
  | failureDirected
  | failureDirectedDual
  | setTimes
  | failureDirectedBound
deriving DecidableEq, Repr

namespace SearchType

/-- All ways to search. -/
def all : List SearchType :=
  [largeNeighborhood, failureDirected, failureDirectedDual, setTimes, failureDirectedBound]

/-- The name of a way to search. -/
def name : SearchType → String
  | largeNeighborhood => "LNS"
  | failureDirected => "FDS"
  | failureDirectedDual => "FDSDual"
  | setTimes => "SetTimes"
  | failureDirectedBound => "FDSLB"

/-- The way to search with exactly a name. -/
def ofName? (text : String) : Option SearchType := all.find? fun t => t.name == text

/-- The way to search with a name in any case. -/
def read (text : String) : Except String SearchType :=
  match all.find? fun t => lowerCase t.name == lowerCase text with
  | some t => .ok t
  | none => .error "expected one of LNS, FDS, FDSDual, SetTimes, FDSLB"

end SearchType

/-- Whether the output of the engine has colors. -/
inductive ColorMode where
  | auto
  | always
  | never
deriving DecidableEq, Repr

namespace ColorMode

/-- The name of a choice. -/
def name : ColorMode → String
  | auto => "auto"
  | always => "always"
  | never => "never"

/-- The choice with exactly a name. -/
def ofName? : String → Option ColorMode
  | "auto" => some auto
  | "always" => some always
  | "never" => some never
  | _ => none

/-- The choice with a name in any case. -/
def read (text : String) : Except String ColorMode :=
  match ofName? (lowerCase text) with
  | some c => .ok c
  | none => .error "expected auto, always or never"

end ColorMode

/-! ## Records -/

/-- Parameters that workers may differ in. -/
structure WorkerParameters where
  searchType : Option SearchType
  randomSeed : Option Nat
  failLimit : Option Nat
  branchLimit : Option Nat
  lnsStepLimit : Option Nat
  noOverlapPropagationLevel : Option Nat
  cumulPropagationLevel : Option Nat
  /-- Tunables that are handed to the engine as they are. -/
  internal : SortedMap String Json
deriving Repr, Inhabited

/-- Parameters of a solve. -/
structure Parameters where
  /-- The program of the engine. -/
  solver : Option String
  /-- Further arguments of that program. -/
  solverArgs : Option (List String)
  /-- Whether texts of the engine are printed when they go nowhere else. -/
  printLog : Option Bool
  /-- The number of workers; zero leaves it open. -/
  nbWorkers : Option Nat
  timeLimit : Option Float
  solutionLimit : Option Nat
  logLevel : Option Nat
  logPeriod : Option Float
  warningLevel : Option Nat
  color : Option ColorMode
  verifySolutions : Option Bool
  absoluteGapTolerance : Option Float
  relativeGapTolerance : Option Float
  /-- The defaults of all workers. -/
  search : WorkerParameters
  /-- The records of single workers, by position. -/
  workers : List WorkerParameters
deriving Repr, Inhabited

/-- Parameters of a benchmark. -/
structure BenchmarkParameters where
  nbParallelRuns : Option Nat
  /-- How often each model is run, each time with another seed. -/
  nbSeeds : Option Nat
  log : Option String
  result : Option String
  exportJson : Option String
  output : Option String
  summary : Option String
  /-- What every run is solved with. -/
  parameters : Parameters
deriving Repr, Inhabited

namespace WorkerParameters

/-- No field is set. -/
def empty : WorkerParameters := ⟨none, none, none, none, none, none, none, .empty⟩

/-- The fields of `other`, and those of `w` that `other` leaves unset. -/
def combine (w other : WorkerParameters) : WorkerParameters where
  searchType := other.searchType <|> w.searchType
  randomSeed := other.randomSeed <|> w.randomSeed
  failLimit := other.failLimit <|> w.failLimit
  branchLimit := other.branchLimit <|> w.branchLimit
  lnsStepLimit := other.lnsStepLimit <|> w.lnsStepLimit
  noOverlapPropagationLevel := other.noOverlapPropagationLevel <|> w.noOverlapPropagationLevel
  cumulPropagationLevel := other.cumulPropagationLevel <|> w.cumulPropagationLevel
  internal := w.internal.overlay other.internal

end WorkerParameters

namespace Parameters

/-- No field is set. -/
def empty : Parameters :=
  ⟨none, none, none, none, none, none, none, none, none, none, none, none, none, .empty, []⟩

/-- Combines the records of workers position by position; a record without partner stays. -/
def combineWorkers : List WorkerParameters → List WorkerParameters → List WorkerParameters
  | ws, [] => ws
  | [], others => others
  | w :: ws, other :: others => w.combine other :: combineWorkers ws others

/-- The fields of `other`, and those of `p` that `other` leaves unset. -/
def combine (p other : Parameters) : Parameters where
  solver := other.solver <|> p.solver
  solverArgs := other.solverArgs <|> p.solverArgs
  printLog := other.printLog <|> p.printLog
  nbWorkers := other.nbWorkers <|> p.nbWorkers
  timeLimit := other.timeLimit <|> p.timeLimit
  solutionLimit := other.solutionLimit <|> p.solutionLimit
  logLevel := other.logLevel <|> p.logLevel
  logPeriod := other.logPeriod <|> p.logPeriod
  warningLevel := other.warningLevel <|> p.warningLevel
  color := other.color <|> p.color
  verifySolutions := other.verifySolutions <|> p.verifySolutions
  absoluteGapTolerance := other.absoluteGapTolerance <|> p.absoluteGapTolerance
  relativeGapTolerance := other.relativeGapTolerance <|> p.relativeGapTolerance
  search := p.search.combine other.search
  workers := combineWorkers p.workers other.workers

/-- What a worker runs with: its own record on top of the defaults. -/
def worker (p : Parameters) (i : Nat) : WorkerParameters :=
  match p.workers[i]? with
  | some w => p.search.combine w
  | none => p.search

/-- Makes sure that the worker at a position has a record. -/
def extended (p : Parameters) (i : Nat) : Parameters :=
  { p with workers := p.workers ++ List.replicate (i + 1 - p.workers.length) .empty }

/-- Changes the record of a worker. -/
def modifyWorker (p : Parameters) (i : Nat) (f : WorkerParameters → WorkerParameters) :
    Parameters :=
  let p := p.extended i
  { p with workers := p.workers.modify i f }

/-- A worker count of an environment variable; one that cannot be read or is zero does not count. -/
def environmentWorkers? (value : String) : Option Nat :=
  match readNatural halfWordMax.toNat (String.ofList (trimBlanks value.toList)) with
  | .ok n => if n = 0 then none else some n
  | .error _ => none

/-- How many workers run: as many as the parameters say, unless they leave it open; then as many as
the environment says; then as many as the machine has cores. -/
def resolvedWorkers (p : Parameters) (environment : Option String) (cores : Nat) : Nat :=
  match p.nbWorkers.filter (· ≠ 0) with
  | some n => n
  | none => (environment.bind environmentWorkers?).getD cores

end Parameters

namespace BenchmarkParameters

/-- No field is set. -/
def empty : BenchmarkParameters := ⟨none, none, none, none, none, none, none, .empty⟩

/-- How many runs go on at the same time; one unless set. -/
def parallelRuns (b : BenchmarkParameters) : Nat := b.nbParallelRuns.getD 1

/-- How many seeds each model is run with; one unless set. -/
def seeds (b : BenchmarkParameters) : Nat := b.nbSeeds.getD 1

end BenchmarkParameters

end Scheduling
