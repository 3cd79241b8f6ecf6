import Scheduling.Text.Hidden

/-!
# Quoted texts

A text as a literal: in double quotes, with a backslash before quotes and backslashes, short escapes
for the common controls, and the code point of every other character that cannot be seen.
-/

namespace Scheduling

/-- A natural number in hexadecimal, in lower case. -/
def hexadecimal (n : Nat) : String := String.ofList (Nat.toDigits 16 n)

/-- How a character is written inside a quoted text. -/
def quotedChar (c : Char) : String :=
  if c = '"' then "\\\""
  else if c = '\\' then "\\\\"
  else if c = '\n' then "\\n"
  else if c = '\r' then "\\r"
  else if c = '\t' then "\\t"
  else if c.toNat = 0 then "\\0"
  else if c.toNat < 32 ∨ c.toNat = 127 ∨ (127 < c.toNat ∧ isHidden c) then
    "\\u\x7b" ++ hexadecimal c.toNat ++ "\x7d"
  else String.singleton c

/-- The text as a literal. -/
def quoted (text : String) : String :=
  "\"" ++ String.join (text.toList.map quotedChar) ++ "\""

end Scheduling
