import Scheduling.Text.Blank

/-!
# Name patterns

Names of files with placeholders for a run: its name, its name without slashes, and its seed.
-/

namespace Scheduling

namespace Pattern

/-- Replaces every occurrence of a text from left to right. The number says how many characters of
an occurrence are still to be passed over. -/
def replaceFrom (old new : List Char) : (skip : Nat) → List Char → List Char
  | _, [] => []
  | skip + 1, _ :: rest => replaceFrom old new skip rest
  | 0, c :: rest =>
    if (afterStart? old (c :: rest)).isSome then new ++ replaceFrom old new (old.length - 1) rest
    else c :: replaceFrom old new 0 rest

/-- A text with every occurrence of another one replaced. -/
def replace (text old new : String) : String :=
  String.ofList (replaceFrom old.toList new.toList 0 text.toList)

/-- Stands for the name of the run. -/
def nameMark : String := "\x7bname\x7d"

/-- Stands for the name of the run without slashes. -/
def flatNameMark : String := "\x7bflat_name\x7d"

/-- Stands for the seed of the run. -/
def seedMark : String := "\x7bseed\x7d"

/-- All placeholders. -/
def marks : List String := [nameMark, flatNameMark, seedMark]

/-- A name with underscores for slashes of both kinds. -/
def flatten (name : String) : String :=
  String.ofList (name.toList.map fun c => if c = '/' ∨ c = '\\' then '_' else c)

/-- The file name of a run. Without a seed the placeholder of the seed is dropped. -/
def expand (pattern name : String) (seed : Option Nat) : String :=
  let pattern := replace pattern flatNameMark (flatten name)
  let pattern := replace pattern nameMark name
  replace pattern seedMark ((seed.map Nat.repr).getD "")

/-- Whether a text occurs in another one. -/
def occurs (what : List Char) : List Char → Bool
  | [] => what.isEmpty
  | c :: rest => (afterStart? what (c :: rest)).isSome || occurs what rest

/-- Whether a pattern has a placeholder. -/
def varies (pattern : String) : Bool := marks.any fun mark => occurs mark.toList pattern.toList

end Pattern

end Scheduling
