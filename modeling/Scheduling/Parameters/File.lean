import Scheduling.Json.Reader
import Scheduling.Parameters.Error
import Scheduling.Toml
import Scheduling.Yaml.Content

/-!
# Parameter files

Parameters written as JSON, TOML or YAML. The extension of a file's name tells its format.
-/

namespace Scheduling

/-- How the parameters of some type are read from the formats. -/
structure ParameterShape (ρ : Type) where
  /-- The parameters of a JSON value, given how the fields of this record write choices. -/
  ofJson : UnitForm → Json → Except ParameterFlaw ρ
  /-- How the member with a key is read from YAML. -/
  member : (key : String) → (depth : Nat) → Yaml → Yaml.Reading Json

/-! ## Fields -/

/-- What the fields of a worker ask for in YAML. -/
def WorkerParameters.yamlField : String → YamlField
  | "searchType" => .choice
  | "randomSeed" | "failLimit" | "branchLimit" | "lnsStepLimit" | "noOverlapPropagationLevel"
  | "cumulPropagationLevel" => .natural
  | _ => .any

/-- What the fields of a solve ask for in YAML, apart from the records of workers. The defaults of
workers are values of any kind. -/
def Parameters.yamlField : String → YamlField
  | "solver" => .text
  | "solverArgs" => .texts
  | "printLog" | "verifySolutions" => .truth
  | "nbWorkers" | "solutionLimit" | "logLevel" | "warningLevel" => .natural
  | "timeLimit" | "logPeriod" | "absoluteGapTolerance" | "relativeGapTolerance" => .float
  | "color" => .choice
  | _ => .any

/-- What the fields of a benchmark ask for in YAML. The parameters of solves are values of any
kind. -/
def BenchmarkParameters.yamlField : String → YamlField
  | "nbParallelRuns" | "nbSeeds" => .natural
  | "log" | "result" | "exportJSON" | "output" | "summary" => .text
  | _ => .any

namespace ParameterShape

variable {ρ : Type}

/-- Parameters of solves. -/
def solve : ParameterShape Parameters where
  ofJson := Parameters.ofJson
  member key :=
    if key = "workers" then
      Yaml.Reading.list (Yaml.Reading.record fun key => .ofField (WorkerParameters.yamlField key))
    else .ofField (Parameters.yamlField key)

/-- Parameters of benchmarks. -/
def benchmark : ParameterShape BenchmarkParameters where
  ofJson _ := BenchmarkParameters.ofJson
  member key := .ofField (BenchmarkParameters.yamlField key)

/-! ## Formats -/

/-- The parameters of a JSON text. Faults of the record are found before a text after its end. -/
def ofJsonText (s : ParameterShape ρ) (text : String) : Except ParameterFlaw ρ := do
  let (j, complete) := Json.read text
  let r ← s.ofJson .null j
  if complete then pure r else .error .malformed

/-- The parameters of a TOML text. -/
def ofTomlText (s : ParameterShape ρ) (text : String) : Except ParameterFlaw ρ :=
  match readToml? text with
  | some j => s.ofJson .hollow j
  | none => .error .malformed

/-- The parameters of a YAML text. Faults of the record are found before a text after its end. -/
def ofYamlText (s : ParameterShape ρ) (text : String) : Except ParameterFlaw ρ := do
  let read := do
    let d ← YamlDocument.read? text
    some (← d.record? s.member, d.complete)
  match read with
  | some (j, complete) =>
    let r ← s.ofJson .null j
    if complete then pure r else .error .malformed
  | none => .error .malformed

end ParameterShape

/-! ## Files -/

namespace ParameterShape

variable {ρ : Type}

/-- The parameters of a text in a format. -/
def ofText (s : ParameterShape ρ) (format : FileFormat) (text : String) : Except ConfigError ρ :=
  let read :=
    match format with
    | .json => s.ofJsonText text
    | .toml => s.ofTomlText text
    | .yaml => s.ofYamlText text
  match read with
  | .ok r => .ok r
  | .error flaw => .error (.content format flaw)

end ParameterShape

/-- The last name on a path. -/
def fileName? (path : String) : Option (List Char) :=
  match ((splitAtChar '/' path.toList).filter fun p => p ≠ [] ∧ p ≠ ['.']).getLast? with
  | some ['.', '.'] | none => none
  | some name => some name

/-- The extension of the last name on a path: what follows its last point, unless that is the first
character of the name. -/
def extension? (path : String) : Option String := do
  let parts := splitAtChar '.' (← fileName? path)
  if parts.length < 2 ∨ parts.dropLast = [[]] then none
  else parts.getLast?.map String.ofList

/-- The format of a file. -/
def FileFormat.ofPath? (path : String) : Option FileFormat :=
  match extension? path with
  | some "toml" => some .toml
  | some "yaml" | some "yml" => some .yaml
  | some "json" => some .json
  | _ => none

/-- The parameters of a file in a folder, in the format that its name tells. -/
def ParameterShape.load {ρ : Type} (s : ParameterShape ρ) (folder : Folder) (path : String) :
    Except ConfigError ρ :=
  match folder.read (.ofText path) with
  | .error flaw => .error (.file flaw)
  | .ok text =>
    match FileFormat.ofPath? path with
    | some format => s.ofText format text
    | none => .error (.unknownFormat path)

/-- The parameters of a file in a folder, in a given format. -/
def ParameterShape.loadAs {ρ : Type} (s : ParameterShape ρ) (folder : Folder)
    (format : FileFormat) (path : String) : Except ConfigError ρ :=
  match folder.read (.ofText path) with
  | .error flaw => .error (.file flaw)
  | .ok text => s.ofText format text

end Scheduling
