import Scheduling.Arith
import Scheduling.Json.Basic
import Scheduling.Yaml.Scalar

/-!
# What plain YAML scalars stand for

The null, truth value, integer or float that a scalar without quotes stands for under the core
schema. Anything else stands for itself, as a text.
-/

namespace Scheduling

namespace Yaml

/-- Whether a text is a spelling of null. -/
def isNull (text : String) : Bool := ["~", "null", "Null", "NULL"].contains text

/-- The truth value of a text. -/
def bool? (text : String) : Option Bool :=
  if ["true", "True", "TRUE"].contains text then some true
  else if ["false", "False", "FALSE"].contains text then some false
  else none

/-! ## Numbers -/

/-- Whether a text is a run of digits with a superfluous zero in front, which makes it no number. -/
def isPadded (cs : List Char) : Bool :=
  let digits := match cs with
    | '-' :: rest | '+' :: rest => rest
    | _ => cs
  decide (1 < digits.length) && digits.head? == some '0' && digits.all Char.isDigit

/-- The number of digits in a base. -/
def inBase? (base : Nat) (cs : List Char) : Option Nat := do
  if cs.isEmpty then none
  else
    let ds ← cs.mapM fun x => (hexDigit? x).filter (· < base)
    some (ds.foldl (fun n d => base * n + d) 0)

/-- The magnitude of an integer without a sign. -/
def magnitude? : List Char → Option Nat
  | '0' :: 'x' :: digits => inBase? 16 digits
  | '0' :: 'o' :: digits => inBase? 8 digits
  | '0' :: 'b' :: digits => inBase? 2 digits
  | digits => inBase? 10 digits

/-- The natural number of a text, which has no minus sign. -/
def nat? (cs : List Char) : Option Nat :=
  if isPadded cs then none
  else
    match cs with
    | '+' :: rest => magnitude? rest
    | _ => magnitude? cs

/-- The integer of a text. -/
def int? (cs : List Char) : Option Int :=
  match cs with
  | '-' :: rest => if isPadded cs then none else (magnitude? rest).map fun n => -(n : Int)
  | _ => (nat? cs).map Int.ofNat

/-- The float of a text, which has one sign at most. A decimal beyond the greatest float is none. -/
def float? (cs : List Char) : Option Float :=
  let unsigned := match cs with
    | '+' :: rest => rest
    | _ => cs
  let signs := (cs.takeWhile fun c => c = '+' || c = '-').length
  match String.ofList unsigned, String.ofList cs with
  | ".inf", _ | ".Inf", _ | ".INF", _ => some (1.0 / 0.0)
  | _, "-.inf" | _, "-.Inf" | _, "-.INF" => some (-1.0 / 0.0)
  | _, ".nan" | _, ".NaN" | _, ".NAN" => some (0.0 / 0.0)
  | text, _ => if 1 < signs then none else (readFloat text).filter Float.isFinite

/-- The least integer of 128 bits. -/
def wideMin : Int := -170141183460469231731687303715884105728

/-- The greatest natural number of 128 bits. -/
def wideMax : Int := 340282366920938463463374607431768211455

/-- How far the integers of a text reach: those of 64 bits are values, further ones of 128 bits
cannot be read, and beyond these there are only floats. -/
def integer? (cs : List Char) : Option Json := do
  let v ← int? cs
  if intMin ≤ v ∧ v ≤ wordMax then some (.int v)
  else if wideMin ≤ v ∧ v ≤ wideMax then some (.flaw .unreadable)
  else none

/-! ## Scalars -/

/-- What a plain scalar stands for. -/
def plainValue (text : String) : Json :=
  let cs := text.toList
  if text = "" ∨ isNull text then .null
  else
    match bool? text with
    | some b => .bool b
    | none =>
      match integer? cs with
      | some j => j
      | none =>
        match if isPadded cs then none else float? cs with
        | some x => .float x
        | none => .str text

end Yaml

end Scheduling
