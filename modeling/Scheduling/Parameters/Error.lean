import Scheduling.Folder
import Scheduling.Parameters.Record
import Scheduling.Text.Quoted

/-!
# Errors of configuration

Why a file or a command line gives no parameters.
-/

namespace Scheduling

/-- A format of parameter files. -/
inductive FileFormat where
  | json
  | toml
  | yaml
deriving DecidableEq, Repr

namespace FileFormat

/-- The name of a format. -/
def name : FileFormat → String
  | json => "JSON"
  | toml => "TOML"
  | yaml => "YAML"

end FileFormat

/-- The wording of a flaw. -/
def ParameterFlaw.message : ParameterFlaw → String
  | .malformed => "not parameters"
  | .unknown key => "unknown parameter \x60" ++ key ++ "\x60"

/-- Why a file or a command line gives no parameters. -/
inductive ConfigError where
  /-- The file cannot be read. -/
  | file (flaw : FileFlaw)
  /-- The file breaks the rules of its format or of parameters. -/
  | content (format : FileFormat) (flaw : ParameterFlaw)
  /-- The name of the file does not tell its format. -/
  | unknownFormat (path : String)
  | unknownFlag (arg : String)
  | missingValue (flag : String)
  | invalidValue (flag value reason : String)
deriving DecidableEq, Repr

namespace ConfigError

/-- The wording of an error. -/
def message : ConfigError → String
  | file flaw => "IO error: " ++ flaw.message
  | content format flaw => format.name ++ " parse error: " ++ flaw.message
  | unknownFormat path =>
    "Invalid configuration: cannot tell the format of " ++ path ++ " from its extension"
  | unknownFlag arg => "unknown flag: " ++ arg
  | missingValue flag => "flag " ++ flag ++ " expects a value"
  | invalidValue flag value reason =>
    "invalid value " ++ quoted value ++ " for " ++ flag ++ ": " ++ reason

end ConfigError

end Scheduling
