import Scheduling.Json.Shape
import Scheduling.Parameters.Basic

/-!
# Parameters as JSON

The JSON value of parameters, and the parameters of a JSON value. A key that no field has is kept
for the engine if it starts with an underscore, and refused otherwise. Fields are read in the order
written, so that of several faults the first one is reported.
-/

namespace Scheduling

/-- Why a value does not hold parameters. -/
inductive ParameterFlaw where
  /-- The text breaks a rule of its format, or a field has a value of the wrong type. -/
  | malformed
  | unknown (key : String)
deriving DecidableEq, Repr

/-- How one field of a record is read into it. -/
abbrev FieldReader (ρ : Type) := Json → ρ → Except ParameterFlaw ρ

namespace FieldReader

/-- Reads a field that may be null. -/
def optional {α ρ : Type} (value : Json → Option α) (set : ρ → Option α → ρ) : FieldReader ρ :=
  fun j r =>
    match j.nullable? value with
    | some v => .ok (set r v)
    | none => .error .malformed

/-- Reads the fields of a record, in the order written and each at most once, after those already
seen. The result is the record and the members that are no fields of it. -/
def members {ρ : Type} (field? : String → Option (FieldReader ρ)) :
    (seen : List String) → ρ → List (String × Json) →
      Except ParameterFlaw (ρ × List (String × Json))
  | _, r, [] => .ok (r, [])
  | seen, r, (key, j) :: rest =>
    match field? key with
    | some read =>
      if seen.contains key then .error .malformed
      else
        match read j r with
        | .ok r => members field? (key :: seen) r rest
        | .error e => .error e
    | none =>
      if !j.isSound then .error .malformed
      else
        match members field? seen r rest with
        | .ok (r, others) => .ok (r, (key, j) :: others)
        | .error e => .error e

end FieldReader

/-! ## Workers -/

namespace WorkerParameters

/-- The members of the record. -/
def members (w : WorkerParameters) : List (String × Json) :=
  let number (key : String) (n : Option Nat) := Json.member? key n fun n => .int n
  Json.member? "searchType" w.searchType (fun t => .str t.name)
    ++ number "randomSeed" w.randomSeed ++ number "failLimit" w.failLimit
    ++ number "branchLimit" w.branchLimit ++ number "lnsStepLimit" w.lnsStepLimit
    ++ number "noOverlapPropagationLevel" w.noOverlapPropagationLevel
    ++ number "cumulPropagationLevel" w.cumulPropagationLevel
    ++ w.internal.entries

/-- The JSON value of the record. -/
def toJson (w : WorkerParameters) : Json := .obj w.members

/-- How the fields are read. -/
def field? (unit : UnitForm) : String → Option (FieldReader WorkerParameters)
  | "searchType" =>
    some (.optional (Json.named? unit SearchType.ofName?) fun w v => { w with searchType := v })
  | "randomSeed" => some (.optional Json.nat64? fun w v => { w with randomSeed := v })
  | "failLimit" => some (.optional Json.nat64? fun w v => { w with failLimit := v })
  | "branchLimit" => some (.optional Json.nat64? fun w v => { w with branchLimit := v })
  | "lnsStepLimit" => some (.optional Json.nat64? fun w v => { w with lnsStepLimit := v })
  | "noOverlapPropagationLevel" =>
    some (.optional Json.nat32? fun w v => { w with noOverlapPropagationLevel := v })
  | "cumulPropagationLevel" =>
    some (.optional Json.nat32? fun w v => { w with cumulPropagationLevel := v })
  | _ => none

/-- The least key that is not one for the engine. -/
def unknownKey? (members : List (String × Json)) : Option String :=
  ((members.map Prod.fst).filter fun k => k.toList.head? ≠ some '_').foldl
    (fun least k =>
      match least with
      | some l => if k < l then some k else some l
      | none => some k)
    none

/-- The tunables of members, the last one of each key. -/
def tunables (members : List (String × Json)) : SortedMap String Json :=
  members.foldl (fun m e => m.insert e.1 e.2.canonical) .empty

/-- The record of members. -/
def ofMembers (unit : UnitForm) (members : List (String × Json)) :
    Except ParameterFlaw WorkerParameters := do
  let (w, others) ← FieldReader.members (field? unit) [] .empty members
  match unknownKey? others with
  | some key => .error (.unknown key)
  | none => pure { w with internal := tunables others }

/-- The record of a JSON value. -/
def ofJson (unit : UnitForm) : Json → Except ParameterFlaw WorkerParameters
  | .obj members => ofMembers unit members
  | _ => .error .malformed

end WorkerParameters

/-! ## Solves -/

namespace Parameters

/-- The members of the parameters. -/
def members (p : Parameters) : List (String × Json) :=
  let number (key : String) (n : Option Nat) := Json.member? key n fun n => .int n
  Json.member? "solver" p.solver .str
    ++ Json.member? "solverArgs" p.solverArgs (fun args => .arr (args.map .str))
    ++ Json.member? "printLog" p.printLog .bool
    ++ number "nbWorkers" p.nbWorkers
    ++ Json.member? "timeLimit" p.timeLimit .float
    ++ number "solutionLimit" p.solutionLimit ++ number "logLevel" p.logLevel
    ++ Json.member? "logPeriod" p.logPeriod .float
    ++ number "warningLevel" p.warningLevel
    ++ Json.member? "color" p.color (fun c => .str c.name)
    ++ Json.member? "verifySolutions" p.verifySolutions .bool
    ++ Json.member? "absoluteGapTolerance" p.absoluteGapTolerance .float
    ++ Json.member? "relativeGapTolerance" p.relativeGapTolerance .float
    ++ p.search.members
    ++ (if p.workers.isEmpty then []
      else [("workers", .arr (p.workers.map WorkerParameters.toJson))])

/-- The JSON value of the parameters. -/
def toJson (p : Parameters) : Json := .obj p.members

/-- Reads the records of workers. -/
def readWorkers (unit : UnitForm) : FieldReader Parameters := fun j p =>
  match j with
  | .arr items => do pure { p with workers := ← items.mapM (WorkerParameters.ofJson unit) }
  | _ => .error .malformed

/-- How the fields that are not defaults of workers are read. -/
def field? (unit : UnitForm) : String → Option (FieldReader Parameters)
  | "solver" => some (.optional Json.string? fun p v => { p with solver := v })
  | "solverArgs" =>
    some (.optional (Json.list? Json.string?) fun p v => { p with solverArgs := v })
  | "printLog" => some (.optional Json.bool? fun p v => { p with printLog := v })
  | "nbWorkers" => some (.optional Json.nat32? fun p v => { p with nbWorkers := v })
  | "timeLimit" => some (.optional Json.float? fun p v => { p with timeLimit := v })
  | "solutionLimit" => some (.optional Json.nat64? fun p v => { p with solutionLimit := v })
  | "logLevel" => some (.optional Json.nat32? fun p v => { p with logLevel := v })
  | "logPeriod" => some (.optional Json.float? fun p v => { p with logPeriod := v })
  | "warningLevel" => some (.optional Json.nat32? fun p v => { p with warningLevel := v })
  | "color" =>
    some (.optional (Json.named? unit ColorMode.ofName?) fun p v => { p with color := v })
  | "verifySolutions" => some (.optional Json.bool? fun p v => { p with verifySolutions := v })
  | "absoluteGapTolerance" =>
    some (.optional Json.float? fun p v => { p with absoluteGapTolerance := v })
  | "relativeGapTolerance" =>
    some (.optional Json.float? fun p v => { p with relativeGapTolerance := v })
  | "workers" => some (readWorkers unit)
  | _ => none

/-- The parameters of members. The defaults of workers are what the other fields leave over. -/
def ofMembers (unit : UnitForm) (members : List (String × Json)) :
    Except ParameterFlaw Parameters := do
  let (p, others) ← FieldReader.members (field? unit) [] .empty members
  let search ← WorkerParameters.ofMembers .null others
  pure { p with search }

/-- The parameters of a JSON value. -/
def ofJson (unit : UnitForm) : Json → Except ParameterFlaw Parameters
  | .obj members => ofMembers unit members
  | _ => .error .malformed

/-- The parameters of a JSON value, without the reason when there are none. -/
def ofJson? (unit : UnitForm) (j : Json) : Option Parameters := (ofJson unit j).toOption

end Parameters

/-! ## Benchmarks -/

namespace BenchmarkParameters

/-- The members of the parameters. -/
def members (b : BenchmarkParameters) : List (String × Json) :=
  let number (key : String) (n : Option Nat) := Json.member? key n fun n => .int n
  number "nbParallelRuns" b.nbParallelRuns ++ number "nbSeeds" b.nbSeeds
    ++ Json.member? "log" b.log .str ++ Json.member? "result" b.result .str
    ++ Json.member? "exportJSON" b.exportJson .str ++ Json.member? "output" b.output .str
    ++ Json.member? "summary" b.summary .str
    ++ b.parameters.members

/-- The JSON value of the parameters. -/
def toJson (b : BenchmarkParameters) : Json := .obj b.members

/-- How the fields that are not parameters of solves are read. -/
def field? : String → Option (FieldReader BenchmarkParameters)
  | "nbParallelRuns" => some (.optional Json.nat32? fun b v => { b with nbParallelRuns := v })
  | "nbSeeds" => some (.optional Json.nat32? fun b v => { b with nbSeeds := v })
  | "log" => some (.optional Json.string? fun b v => { b with log := v })
  | "result" => some (.optional Json.string? fun b v => { b with result := v })
  | "exportJSON" => some (.optional Json.string? fun b v => { b with exportJson := v })
  | "output" => some (.optional Json.string? fun b v => { b with output := v })
  | "summary" => some (.optional Json.string? fun b v => { b with summary := v })
  | _ => none

/-- The parameters of a JSON value. -/
def ofJson : Json → Except ParameterFlaw BenchmarkParameters
  | .obj members => do
    let (b, others) ← FieldReader.members field? [] .empty members
    let parameters ← Parameters.ofMembers .null others
    pure { b with parameters }
  | _ => .error .malformed

end BenchmarkParameters

end Scheduling
