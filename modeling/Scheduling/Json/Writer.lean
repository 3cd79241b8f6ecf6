import Scheduling.Arith
import Scheduling.Decimal.Layout
import Scheduling.Json.Basic

/-!
# Writing JSON

The text of a JSON value, on one line without spaces or indented by two spaces a level. Only quotes,
backslashes and controls are escaped, so one line never holds a line feed.
-/

namespace Scheduling

namespace Json

/-- A JSON number shows a point or an exponent when it is a float, and a sign on every exponent. -/
def number : Layout := ⟨some (-5, 15), true, true, .even⟩

/-- A hexadecimal digit of an escape. -/
def escapeDigit (n : Nat) : Char := Nat.digitChar (n % 16)

/-- How a character is written inside a JSON string. -/
def escapeChar (c : Char) : List Char :=
  if c = '"' then ['\\', '"']
  else if c = '\\' then ['\\', '\\']
  else if c = '\n' then ['\\', 'n']
  else if c = '\r' then ['\\', 'r']
  else if c = '\t' then ['\\', 't']
  else if c.toNat = 8 then ['\\', 'b']
  else if c.toNat = 12 then ['\\', 'f']
  else if c.toNat < 32 then ['\\', 'u', '0', '0', escapeDigit (c.toNat / 16), escapeDigit c.toNat]
  else [c]

/-- A JSON string. -/
def writeString (s : String) : String :=
  "\"" ++ String.ofList (s.toList.flatMap escapeChar) ++ "\""

/-- A JSON number, or null for a float that is not finite. -/
def writeFloat (x : Float) : String := if x.isFinite then number.write x else "null"

mutual

/-- The text on one line, without spaces. -/
def compact : Json → String
  | null => "null"
  | bool b => if b then "true" else "false"
  | int v => intText v
  | float x => writeFloat x
  | str s => writeString s
  | arr items => "[" ++ compactItems items true ++ "]"
  | obj members => "\x7b" ++ compactMembers members true ++ "\x7d"
  | flaw _ => "null"

/-- Items with commas between them; `first` says that none stands before. -/
def compactItems : List Json → (first : Bool) → String
  | [], _ => ""
  | j :: rest, first => (if first then "" else ",") ++ compact j ++ compactItems rest false

/-- Members with commas between them; `first` says that none stands before. -/
def compactMembers : List (String × Json) → (first : Bool) → String
  | [], _ => ""
  | (k, j) :: rest, first =>
    (if first then "" else ",") ++ writeString k ++ ":" ++ compact j ++ compactMembers rest false

end

/-- A new line at a level of indentation. -/
def newLine (level : Nat) : String := "\n" ++ String.ofList (List.replicate (2 * level) ' ')

mutual

/-- The indented text; `level` is the level that the value stands at. -/
def prettyAt (level : Nat) : Json → String
  | arr [] => "[]"
  | obj [] => "\x7b\x7d"
  | arr items => "[" ++ prettyItems level items true ++ newLine level ++ "]"
  | obj members => "\x7b" ++ prettyMembers level members true ++ newLine level ++ "\x7d"
  | j => compact j

/-- Items on lines of their own. -/
def prettyItems (level : Nat) : List Json → (first : Bool) → String
  | [], _ => ""
  | j :: rest, first =>
    (if first then "" else ",") ++ newLine (level + 1) ++ prettyAt (level + 1) j
      ++ prettyItems level rest false

/-- Members on lines of their own. -/
def prettyMembers (level : Nat) : List (String × Json) → (first : Bool) → String
  | [], _ => ""
  | (k, j) :: rest, first =>
    (if first then "" else ",") ++ newLine (level + 1) ++ writeString k ++ ": "
      ++ prettyAt (level + 1) j ++ prettyMembers level rest false

end

/-- The indented text. -/
def pretty (j : Json) : String := prettyAt 0 j

end Json

end Scheduling
