import Scheduling.Parameters.Error

/-!
# Flags

Parameters on a command line. Every field has a flag of its name; a field of workers can also be set
for one worker or a range of workers. `readFlags` first sorts the arguments out, then checks them in
the order given, and last applies them in the order in which the flags are listed.
-/

namespace Scheduling

/-- A flag that sets a field of a record. -/
structure Flag (ρ : Type) where
  name : String
  /-- What the value is called; `none` for a switch, whose value may be left out. -/
  metavar : Option String
  help : String
  /-- Sets the field from the text of a value, or says why the text is none. -/
  apply : String → ρ → Except String ρ

namespace Flag

/-- A flag whose value is read in some way. -/
def reading {α ρ : Type} (name metavar help : String) (read : String → Except String α)
    (set : ρ → Option α → ρ) : Flag ρ :=
  ⟨name, some metavar, help, fun text r => (read text).map fun v => set r (some v)⟩

/-- Reads a natural number. -/
def natural (greatest : Int) (text : String) : Except String Nat :=
  (readNatural greatest.toNat text).mapError IntegerFlaw.message

/-- Reads a float. -/
def float (text : String) : Except String Float :=
  match readFloat text with
  | some x => .ok x
  | none => .error "invalid float literal"

/-- Reads a truth value. -/
def truth (text : String) : Except String Bool :=
  match text with
  | "true" => .ok true
  | "false" => .ok false
  | _ => .error "provided string was not \x60true\x60 or \x60false\x60"

/-- A flag with a natural number of 32 bits. -/
def nat32 {ρ : Type} (name metavar help : String) (set : ρ → Option Nat → ρ) : Flag ρ :=
  reading name metavar help (natural halfWordMax) set

/-- A flag with a natural number of 64 bits. -/
def nat64 {ρ : Type} (name metavar help : String) (set : ρ → Option Nat → ρ) : Flag ρ :=
  reading name metavar help (natural wordMax) set

/-- A flag with a float. -/
def real {ρ : Type} (name metavar help : String) (set : ρ → Option Float → ρ) : Flag ρ :=
  reading name metavar help float set

/-- A flag with a text. -/
def text {ρ : Type} (name metavar help : String) (set : ρ → Option String → ρ) : Flag ρ :=
  reading name metavar help .ok set

/-- A flag that is on unless its value says otherwise. -/
def switch {ρ : Type} (name help : String) (set : ρ → Option Bool → ρ) : Flag ρ :=
  { reading name "" help truth set with metavar := none }

/-- Whether the flag needs a value. -/
def takesValue {ρ : Type} (f : Flag ρ) : Bool := f.metavar.isSome

/-- The flags of benchmarks. -/
def benchmark : List (Flag BenchmarkParameters) :=
  [nat32 "nbParallelRuns" "N" "Concurrent runs" fun b v => { b with nbParallelRuns := v },
    nat32 "nbSeeds" "N" "Runs per input with distinct seeds" fun b v => { b with nbSeeds := v },
    text "log" "PATTERN" "Per-run log file" fun b v => { b with log := v },
    text "result" "PATTERN" "Per-run JSON result" fun b v => { b with result := v },
    text "exportJSON" "PATTERN" "Per-run problem JSON" fun b v => { b with exportJson := v },
    text "output" "FILE" "All results as one JSON array" fun b v => { b with output := v },
    text "summary" "FILE" "CSV summary, one row per run" fun b v => { b with summary := v }]

/-- The flags of solves. -/
def solve : List (Flag Parameters) :=
  [text "solver" "PATH" "Engine executable" fun p v => { p with solver := v },
    reading "solverArgs" "ARGS" "Extra engine arguments, separated by spaces"
      (fun text => .ok (words text)) fun p v => { p with solverArgs := v },
    switch "printLog" "Print engine output to stdout" fun p v => { p with printLog := v },
    nat32 "nbWorkers" "N" "Number of workers, 0 for auto" fun p v => { p with nbWorkers := v },
    real "timeLimit" "SECONDS" "Wall-clock limit" fun p v => { p with timeLimit := v },
    nat64 "solutionLimit" "N" "Stop after N solutions" fun p v => { p with solutionLimit := v },
    nat32 "logLevel" "0..3" "Engine log verbosity" fun p v => { p with logLevel := v },
    real "logPeriod" "SECONDS" "Period of progress lines" fun p v => { p with logPeriod := v },
    nat32 "warningLevel" "0..3" "Warning verbosity" fun p v => { p with warningLevel := v },
    reading "color" "auto|always|never" "Colored output" ColorMode.read
      fun p v => { p with color := v },
    switch "verifySolutions" "Check every solution" fun p v => { p with verifySolutions := v },
    real "absoluteGapTolerance" "X" "Stop when objective - bound <= X"
      fun p v => { p with absoluteGapTolerance := v },
    real "relativeGapTolerance" "X" "Stop when the relative gap <= X"
      fun p v => { p with relativeGapTolerance := v }]

/-- The flags of workers. -/
def worker : List (Flag WorkerParameters) :=
  [reading "searchType" "LNS|FDS|FDSDual|SetTimes|FDSLB" "Search strategy" SearchType.read
      fun w v => { w with searchType := v },
    nat64 "randomSeed" "N" "Random seed" fun w v => { w with randomSeed := v },
    nat64 "failLimit" "N" "Maximum number of failures" fun w v => { w with failLimit := v },
    nat64 "branchLimit" "N" "Maximum number of branches" fun w v => { w with branchLimit := v },
    nat64 "lnsStepLimit" "N" "Maximum number of LNS steps" fun w v => { w with lnsStepLimit := v },
    nat32 "noOverlapPropagationLevel" "1..4" "No-overlap propagation strength"
      fun w v => { w with noOverlapPropagationLevel := v },
    nat32 "cumulPropagationLevel" "1..3" "Cumulative propagation strength"
      fun w v => { w with cumulPropagationLevel := v }]

end Flag

/-- An argument that was sorted out. -/
inductive FlagToken where
  /-- The usage is asked for. -/
  | help
  /-- Something that is no flag. -/
  | loose (arg : String)
  /-- A flag with its value, if it has one. -/
  | plain (name : String) (value : Option String)
  /-- A flag for the workers from `first` to `last`. -/
  | ranged (first last : Nat) (name value : String)
deriving DecidableEq, Repr

/-- What a command line asks for. -/
inductive FlagOutcome (ρ : Type) where
  | parsed (r : ρ)
  /-- The usage was asked for. -/
  | usage (text : String)

namespace FlagOutcome

/-- Changes what was parsed. -/
def map {ρ σ : Type} (f : ρ → σ) : FlagOutcome ρ → FlagOutcome σ
  | parsed r => parsed (f r)
  | usage text => usage text

end FlagOutcome

/-- Which flags there are. -/
structure FlagTable where
  benchmark : List (Flag BenchmarkParameters)

namespace FlagTable

/-- The flags of solves. -/
def forSolves : FlagTable := ⟨[]⟩

/-- The flags of solves and benchmarks. -/
def forBenchmarks : FlagTable := ⟨Flag.benchmark⟩

/-! ## Sorting arguments out -/

/-- The two parts of a text around the first occurrence of a character. -/
def cut? (c : Char) (cs : List Char) : Option (List Char × List Char) :=
  match cs.dropWhile (· ≠ c) with
  | [] => none
  | _ :: rest => some (cs.takeWhile (· ≠ c), rest)

/-- The index of a worker. -/
def workerIndex? (cs : List Char) : Option Nat :=
  (readNatural wordMax.toNat (.ofList cs)).toOption

/-- The range of workers and the field in the name of a flag. -/
def workerRange? (name : List Char) : Option (Nat × Nat × String) := do
  let rest ← if name.take 6 = "worker".toList then some (name.drop 6) else none
  let (range, field) ← cut? '.' rest
  let (first, last) ←
    match cut? '-' range with
    | some (first, last) => do some (← workerIndex? first, ← workerIndex? last)
    | none => do
      let i ← workerIndex? range
      some (i, i)
  if first ≤ last then some (first, last, .ofList field) else none

/-- Whether a flag takes a value. -/
def takesValue? {ρ : Type} (flags : List (Flag ρ)) (name : String) : Option Bool :=
  (flags.find? fun f => f.name == name).map Flag.takesValue

/-- The flag that a name stands for: its range of workers, its field, whether it takes a value. -/
def find? (t : FlagTable) (name : List Char) : Option (Option (Nat × Nat) × String × Bool) :=
  match workerRange? name with
  | some (first, last, field) =>
    (takesValue? Flag.worker field).map fun takes => (some (first, last), field, takes)
  | none =>
    let text := String.ofList name
    (takesValue? t.benchmark text <|> takesValue? Flag.solve text
      <|> takesValue? Flag.worker text).map fun takes => (none, text, takes)

/-- The token of a flag with its value. -/
def token (range : Option (Nat × Nat)) (field : String) (value : Option String) : FlagToken :=
  match range with
  | some (first, last) => .ranged first last field (value.getD "true")
  | none => .plain field value

/-- Sorts arguments out. What is no known flag is an error, or is set aside when `keep` is set. -/
def sort (t : FlagTable) (keep : Bool) :
    List String → Except ConfigError (List FlagToken × List String)
  | [] => .ok ([], [])
  | arg :: rest =>
    if arg = "-h" ∨ arg = "--help" then
      (t.sort keep rest).map fun (tokens, others) => (.help :: tokens, others)
    else
      match arg.toList with
      | '-' :: '-' :: body =>
        let (name, inline) :=
          match cut? '=' body with
          | some (name, value) => (name, some (String.ofList value))
          | none => (body, none)
        match t.find? name with
        | none =>
          if keep then (t.sort keep rest).map fun (tokens, others) => (tokens, arg :: others)
          else .error (.unknownFlag arg)
        | some (range, field, takes) =>
          match inline, takes, rest with
          | none, true, [] => .error (.missingValue ("--" ++ String.ofList name))
          | none, true, value :: rest =>
            (t.sort keep rest).map fun (tokens, others) =>
              (token range field (some value) :: tokens, others)
          | value, _, rest =>
            (t.sort keep rest).map fun (tokens, others) =>
              (token range field value :: tokens, others)
      | _ =>
        (t.sort keep rest).map fun (tokens, others) =>
          if keep then (tokens, arg :: others) else (.loose arg :: tokens, others)

/-! ## Checking -/

/-- What a check of the tokens finds first. -/
inductive Check where
  | clean
  | help
  | fault (e : ConfigError)
deriving DecidableEq, Repr

/-- The fault of a value that its flag can never take. -/
def unusable (name value : String) : Check :=
  .fault (.invalidValue ("--" ++ name) value "one of the values isn't valid for an argument")

/-- Checks one token. Of an argument with a single dash the first letter is reported, unless it asks
for the usage. -/
def checkToken (t : FlagTable) : FlagToken → Check
  | .help => .help
  | .loose arg =>
    match arg.toList with
    | '-' :: c :: _ => if c = 'h' then .help else .fault (.unknownFlag ("-" ++ String.singleton c))
    | _ => .fault (.unknownFlag arg)
  | .plain name value =>
    match t.find? name.toList, value with
    | some (_, _, true), some "" => unusable name ""
    | some (_, _, false), some v => if v = "true" ∨ v = "false" then .clean else unusable name v
    | _, _ => .clean
  | .ranged .. => .clean

/-- Checks tokens in order, up to the first that is not clean. -/
def check (t : FlagTable) : List FlagToken → Check
  | [] => .clean
  | token :: rest =>
    match t.checkToken token with
    | .clean => t.check rest
    | found => found

/-! ## Applying -/

/-- The value that a flag was given last. -/
def lastValue? (tokens : List FlagToken) (name : String) : Option String :=
  tokens.foldl
    (fun found token =>
      match token with
      | .plain n value => if n = name then some (value.getD "true") else found
      | _ => found)
    none

/-- Applies flags in the order listed, each with its last value. -/
def applyFlags {ρ : Type} (tokens : List FlagToken) : List (Flag ρ) → ρ → Except ConfigError ρ
  | [], r => .ok r
  | f :: rest, r =>
    match lastValue? tokens f.name with
    | none => applyFlags tokens rest r
    | some value =>
      match f.apply value r with
      | .ok r => applyFlags tokens rest r
      | .error reason => .error (.invalidValue ("--" ++ f.name) value reason)

/-- Applies a flag to workers. -/
def applyRange (f : Flag WorkerParameters) (label value : String) :
    List Nat → Parameters → Except ConfigError Parameters
  | [], p => .ok p
  | i :: rest, p =>
    match f.apply value (p.workers[i]?.getD .empty) with
    | .ok w => applyRange f label value rest (p.modifyWorker i fun _ => w)
    | .error reason =>
      .error (.invalidValue ("--worker" ++ label ++ "." ++ f.name) value reason)

/-- Applies what was given for a flag and ranges of workers, in the order given. -/
def applyRanges (f : Flag WorkerParameters) :
    List FlagToken → Parameters → Except ConfigError Parameters
  | [], p => .ok p
  | .ranged first last name value :: rest, p =>
    if name = f.name then do
      let label := Nat.repr first ++ "-" ++ Nat.repr last
      let p ← applyRange f label value (List.range' first (last + 1 - first)) p
      applyRanges f rest p
    else applyRanges f rest p
  | _ :: rest, p => applyRanges f rest p

/-- Applies all flags for ranges of workers. -/
def applyAllRanges (tokens : List FlagToken) :
    List (Flag WorkerParameters) → Parameters → Except ConfigError Parameters
  | [], p => .ok p
  | f :: rest, p => do
    let p ← applyRanges f tokens p
    applyAllRanges tokens rest p

/-- The parameters of tokens. -/
def apply (t : FlagTable) (tokens : List FlagToken) : Except ConfigError BenchmarkParameters := do
  let b ← applyFlags tokens t.benchmark .empty
  let p ← applyFlags tokens Flag.solve b.parameters
  let search ← applyFlags tokens Flag.worker p.search
  let p ← applyAllRanges tokens Flag.worker { p with search }
  pure { b with parameters := p }

/-! ## Usage -/

/-- How a flag is written. -/
def form {ρ : Type} (f : Flag ρ) : String :=
  match f.metavar with
  | some metavar => "--" ++ f.name ++ " <" ++ metavar ++ ">"
  | none => "--" ++ f.name ++ "[=<BOOL>]"

/-- What a flag does. -/
def about {ρ : Type} (f : Flag ρ) : String :=
  f.help ++ if f.takesValue then "" else " [possible values: true, false]"

/-- The lines of flags under a heading, with what they do in one column. -/
def group {ρ : Type} (heading : String) (flags : List (Flag ρ)) : List String :=
  let width := (flags.map fun f => (form f).length).foldl max 0
  if flags.isEmpty then []
  else
    ["", heading ++ ":"] ++ flags.map fun f =>
      "      " ++ form f ++ String.ofList (List.replicate (width - (form f).length + 2) ' ')
        ++ about f

/-- The usage of the flags. -/
def usage (t : FlagTable) : String :=
  let lines :=
    ["Usage: chronoforge [OPTIONS]", "", "Options:", "  -h, --help  Print help"]
      ++ group "Benchmark options" t.benchmark
      ++ group "Solver options" Flag.solve
      ++ group "Worker defaults" Flag.worker
      ++ ["", "Prefix a worker option with workerN. or workerN-M. to set it for",
        "worker N or workers N to M, e.g. --worker0.searchType FDS."]
  String.join (lines.map (· ++ "\n"))

/-! ## Reading -/

/-- The parameters of a command line, and the arguments set aside. -/
def read (t : FlagTable) (keep : Bool) (args : List String) :
    Except ConfigError (FlagOutcome (BenchmarkParameters × List String)) := do
  let (tokens, others) ← t.sort keep args
  match t.check tokens with
  | .help => pure (.usage t.usage)
  | .fault e => .error e
  | .clean => do
    let b ← t.apply tokens
    pure (.parsed (b, others))

end FlagTable

/-- The parameters of a solve; any argument that is no flag is an error. -/
def readFlags (args : List String) : Except ConfigError (FlagOutcome Parameters) :=
  (FlagTable.forSolves.read false args).map fun o => o.map fun r => r.1.parameters

/-- The parameters of a solve, and the arguments that are no flags of solves. -/
def readKnownFlags (args : List String) :
    Except ConfigError (FlagOutcome (Parameters × List String)) :=
  (FlagTable.forSolves.read true args).map fun o => o.map fun r => (r.1.parameters, r.2)

/-- The parameters of a benchmark; any argument that is no flag is an error. -/
def readBenchmarkFlags (args : List String) :
    Except ConfigError (FlagOutcome BenchmarkParameters) :=
  (FlagTable.forBenchmarks.read false args).map fun o => o.map Prod.fst

end Scheduling
