import Scheduling.Arith
import Scheduling.Decimal.Read
import Scheduling.Json.Basic

/-!
# Reading JSON numbers

A number without point and exponent that fits in 64 bits is exact. Any other number is a float, made
from its first digits that fit in 64 bits and one multiplication or division by a power of ten, so
its last bit can differ from the nearest float's.
-/

namespace Scheduling

/-- Digits read so far: a coefficient that fits in 64 bits and a power of ten. -/
structure Significand where
  coefficient : Nat
  exponent : Int
deriving DecidableEq, Repr

namespace Significand

/-- Whether another digit still fits in 64 bits. -/
def fits (s : Significand) (c : Char) : Bool :=
  ((10 * s.coefficient + digitValue c : Nat) : Int) ≤ wordMax

/-- Digits before the point: one that no longer fits, and all after it, only raise the power. -/
def whole (s : Significand) : List Char → Significand
  | [] => s
  | c :: rest =>
    if s.fits c then whole ⟨10 * s.coefficient + digitValue c, s.exponent⟩ rest
    else ⟨s.coefficient, s.exponent + (rest.length + 1)⟩

/-- Digits after the point: one that no longer fits, and all after it, are dropped. -/
def fraction (s : Significand) : List Char → Significand
  | [] => s
  | c :: rest =>
    if s.fits c then fraction ⟨10 * s.coefficient + digitValue c, s.exponent - 1⟩ rest
    else s

/-- Brings a float down by powers of ten beyond the greatest one, at most `fuel` times. -/
def lower : Nat → Float → Int → Float
  | 0, x, _ => x
  | fuel + 1, x, exponent =>
    if -308 ≤ exponent then x / Float.ofScientific 1 false exponent.natAbs
    else if x == 0.0 then x
    else lower fuel (x / 1e308) (exponent + 308)

/-- The float of the digits, if it is finite. -/
def toFloat? (s : Significand) : Option Float :=
  let x := Float.ofNat s.coefficient
  if s.exponent < 0 then some (lower 8 x s.exponent)
  else if 308 < s.exponent then if s.coefficient = 0 then some x else none
  else
    let y := x * Float.ofScientific 1 false s.exponent.natAbs
    if y.isInf then none else some y

end Significand

/-- The parts of a JSON number. -/
structure NumberText where
  negative : Bool
  whole : List Char
  /-- The digits after the point, if there is one. -/
  fraction : Option (List Char)
  /-- The sign and the digits of the exponent, if there is one. -/
  exponent : Option (Bool × List Char)
deriving DecidableEq, Repr

namespace NumberText

/-- The greatest exponent that is carried out. -/
def exponentMax : Int := 2147483647

/-- The value of a number, unless it is beyond the greatest float. -/
def value? (n : NumberText) : Option Json :=
  let whole := Significand.whole ⟨0, 0⟩ n.whole
  let signed (x : Float) : Json := .float (if n.negative then -x else x)
  match n.fraction, n.exponent with
  | none, none =>
    if whole.exponent ≠ 0 then whole.toFloat?.map signed
    else if !n.negative then some (.int whole.coefficient)
    else if whole.coefficient = 0 ∨ -intMin < whole.coefficient then
      some (signed (Float.ofNat whole.coefficient))
    else some (.int (-whole.coefficient))
  | fraction, exponent =>
    let digits := whole.fraction (fraction.getD [])
    match exponent with
    | none => digits.toFloat?.map signed
    | some (negative, power) =>
      let power : Int := readDigits 0 power
      if exponentMax < power then
        if digits.coefficient ≠ 0 ∧ !negative then none else some (signed 0.0)
      else
        let total := if negative then digits.exponent - power else digits.exponent + power
        Significand.toFloat? ⟨digits.coefficient, total⟩ |>.map signed

end NumberText

end Scheduling
