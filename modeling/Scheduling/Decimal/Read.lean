/-!
# Reading numbers

Whole numbers and floats as a person writes them. A float is the decimal rounded to the nearest
float; magnitudes beyond the greatest float are infinite.
-/

namespace Scheduling

/-- The number that a digit stands for. -/
def digitValue (c : Char) : Nat := c.toNat - '0'.toNat

/-- The number that a run of digits stands for, after a number already read. -/
def readDigits (start : Nat) (cs : List Char) : Nat :=
  cs.foldl (fun n c => 10 * n + digitValue c) start

/-- Splits a text after its leading digits. -/
def spanDigits (cs : List Char) : List Char × List Char :=
  (cs.takeWhile Char.isDigit, cs.dropWhile Char.isDigit)

/-- The float nearest to `coefficient * 10 ^ exponent`. Far outside the range of floats the exponent
is not carried out. -/
def nearestFloat (coefficient : Nat) (exponent : Int) : Float :=
  if coefficient = 0 then 0.0
  else if 400 < exponent then 1.0 / 0.0
  else if exponent < -400 - (Nat.repr coefficient).length then 0.0
  else Float.ofScientific coefficient (exponent < 0) exponent.natAbs

/-- Why a text is not a whole number. -/
inductive IntegerFlaw where
  | empty
  | digit
  | tooLarge
  | tooSmall
deriving DecidableEq, Repr

/-- The wording of a flaw. -/
def IntegerFlaw.message : IntegerFlaw → String
  | .empty => "cannot parse integer from empty string"
  | .digit => "invalid digit found in string"
  | .tooLarge => "number too large to fit in target type"
  | .tooSmall => "number too small to fit in target type"

/-- A natural number up to `greatest`, with an optional plus sign. -/
def readNatural (greatest : Nat) (text : String) : Except IntegerFlaw Nat :=
  match text.toList with
  | [] => .error .empty
  | ['+'] | ['-'] => .error .digit
  | c :: rest =>
    let digits := if c = '+' then rest else c :: rest
    -- Digits are taken one by one: the first fault, in digit or in size, is the one reported.
    digits.foldl
      (fun read c => do
        let n ← read
        if c.isDigit then
          let n := 10 * n + digitValue c
          if greatest < n then .error .tooLarge else .ok n
        else .error .digit)
      (.ok 0)

/-- An exponent part, `e` or `E` with an optional sign and at least one digit; the whole rest must
be used. -/
def readExponent (cs : List Char) : Option Int :=
  let signed (negative : Bool) (rest : List Char) : Option Int :=
    if rest.isEmpty ∨ rest.any (fun c => !c.isDigit) then none
    else some (if negative then -(readDigits 0 rest : Int) else readDigits 0 rest)
  match cs with
  | [] => some 0
  | c :: rest =>
    if c = 'e' ∨ c = 'E' then
      match rest with
      | '-' :: rest => signed true rest
      | '+' :: rest => signed false rest
      | _ => signed false rest
    else none

/-- A decimal without a sign: digits with at most one point and at least one digit, then an optional
exponent. -/
def readMagnitude (cs : List Char) : Option Float :=
  let (whole, rest) := spanDigits cs
  let (fraction, rest) :=
    match rest with
    | '.' :: more => spanDigits more
    | _ => ([], rest)
  if whole.isEmpty ∧ fraction.isEmpty then none
  else (readExponent rest).map fun exponent =>
    nearestFloat (readDigits (readDigits 0 whole) fraction) (exponent - fraction.length)

/-- A float: a decimal, `inf`, `infinity` or `nan` in any case, with an optional sign. -/
def readFloat (text : String) : Option Float :=
  let unsigned (cs : List Char) : Option Float :=
    match String.ofList (cs.map Char.toLower) with
    | "inf" | "infinity" => some (1.0 / 0.0)
    | "nan" => some (0.0 / 0.0)
    | _ => readMagnitude cs
  match text.toList with
  | '-' :: cs => (unsigned cs).map (- ·)
  | '+' :: cs => unsigned cs
  | cs => unsigned cs

end Scheduling
