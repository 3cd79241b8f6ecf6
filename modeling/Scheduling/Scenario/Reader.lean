import Scheduling.Decimal.Read
import Scheduling.Json.Shape

/-!
# Reading scenarios

A scenario is a JSON value that says how a model is built, how an engine behaves, or what is
reported. Readers say what is wrong with a value that they cannot read. A float is written as a
text, so that its digits are kept.
-/

namespace Scheduling

namespace Scenario

/-- A reading that says what is wrong with an input. -/
abbrev Decode (α : Type) := Except String α

/-- The member of a key. -/
def member? (j : Json) (key : String) : Option Json :=
  match j with
  | .obj members => members.lookup key
  | _ => none

/-- The member of a key that is not null. -/
def given? (j : Json) (key : String) : Option Json :=
  match member? j key with
  | some .null => none
  | found => found

/-- The member of a key that has to be there. -/
def field (j : Json) (key : String) : Decode Json :=
  match member? j key with
  | some v => .ok v
  | none => .error ("missing " ++ key)

/-- A value of a kind, or an error. -/
def need {α : Type} (what : String) (v : Option α) : Decode α :=
  match v with
  | some v => .ok v
  | none => .error ("expected " ++ what)

/-- A text. -/
def text (j : Json) : Decode String := need "a text" j.string?

/-- An integer. -/
def integer (j : Json) : Decode Int :=
  match j with
  | .int v => .ok v
  | _ => .error "expected an integer"

/-- A natural number. -/
def natural (j : Json) : Decode Nat := do pure (← integer j).toNat

/-- A truth value. -/
def truth (j : Json) : Decode Bool := need "a truth value" j.bool?

/-- The items of a list. -/
def items (j : Json) : Decode (List Json) :=
  match j with
  | .arr js => .ok js
  | _ => .error "expected a list"

/-- A float as a text. -/
def floatText (j : Json) : Decode Float := do need "a float" (readFloat (← text j))

/-- A float as an object with the one key "f". -/
def boxedFloat (j : Json) : Decode Float := do floatText (← field j "f")

/-- A member that is a text. -/
def textField (j : Json) (key : String) : Decode String := do text (← field j key)

/-- A member that is a list. -/
def listField (j : Json) (key : String) : Decode (List Json) := do items (← field j key)

/-- A member that may be missing or null. -/
def optional {α : Type} (j : Json) (key : String) (read : Json → Decode α) : Decode (Option α) :=
  match given? j key with
  | none => .ok none
  | some v => do pure (some (← read v))

/-- Whether a member is true. -/
def flag (j : Json) (key : String) : Bool := ((member? j key).bind Json.bool?).getD false

end Scenario

end Scheduling
