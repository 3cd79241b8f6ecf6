import Scheduling.Engine.Exchange
import Scheduling.Folder
import Scheduling.Shell.Run

/-!
# Engine programs

Which program is the engine of a job, and what it does. The only program there is is the shell; its
script is an argument.
-/

namespace Scheduling

/-- The program that is the engine when nothing else names one. -/
def defaultProgram : String := "chronoforge-engine"

/-- Where the program of an engine can be named, apart from the parameters of a job. -/
structure ProgramSource where
  /-- The program that the client prefers. -/
  preferred : Option String
  /-- The program that the environment names; an empty name names none. -/
  environment : Option String
deriving DecidableEq, Repr

namespace ProgramSource

/-- A source that names no program. -/
def silent : ProgramSource := ⟨none, none⟩

/-- The program for some parameters. -/
def resolve (s : ProgramSource) (p : Parameters) : String :=
  (p.solver <|> s.preferred <|> s.environment.filter (· ≠ "")).getD defaultProgram

end ProgramSource

namespace Launcher

/-- The names of the shell. -/
def shells : List String := ["sh", "/bin/sh", "/usr/bin/sh"]

/-- The step that sends a line. -/
def stepOf (line : Shell.Octets) : EngineStep :=
  match Shell.text? line with
  | some text => .say text
  | none => .garble

/-- Why a program cannot be started with some arguments, if it cannot. A folder is no program. -/
def flaw? (program : String) (arguments : List String) : Option String :=
  if (program :: arguments).any fun t => t.toList.contains '\x00' then
    some "nul byte found in provided data"
  else if shells.contains program then none
  else
    let path := FilePath.ofText program
    let isTooLong := FilePath.sizeMax < program.utf8ByteSize
      || path.names.head?.any (255 < ·.utf8ByteSize)
    if isTooLong then some (FileFlaw.message .nameTooLong)
    else if program ≠ "" ∧ path.names.all (· = "..") then some "Permission denied (os error 13)"
    else some (FileFlaw.message .notFound)

/-- The engine is a program. -/
def program (source : ProgramSource) : Launcher := fun job line =>
  let program := source.resolve job.parameters
  let arguments := job.parameters.solverArgs.getD []
  match flaw? program arguments with
  | some flaw => .error (.notStarted ("cannot start " ++ program ++ ": " ++ flaw))
  | none => .ok ((charLines (Shell.run program arguments (line ++ "\n"))).map stepOf)

end Launcher

end Scheduling
