/-!
# Shortest decimals

The decimal with the fewest digits that reads back as a given float, and the float's value rounded
to a fixed number of places. Both work on the exact value `mantissa * 2 ^ exponent` in natural
numbers.
-/

namespace Scheduling

/-- The exact magnitude of a finite float: `mantissa * 2 ^ exponent`. -/
structure Binary where
  mantissa : Nat
  exponent : Int
deriving DecidableEq, Repr

/-- The magnitude `coefficient * 10 ^ exponent`. -/
structure Decimal where
  coefficient : Nat
  exponent : Int
deriving DecidableEq, Repr

/-- Whether the sign bit of a float is set; not-a-number has none. -/
def isSigned (x : Float) : Bool := decide (Nat.pow 2 63 ≤ x.toBits.toNat) && !x.isNaN

namespace Binary

/-- The magnitude of a finite float, read off its bits. -/
def ofFloat (x : Float) : Binary :=
  let bits : Nat := x.toBits.toNat % Nat.pow 2 63
  let fraction : Nat := bits % Nat.pow 2 52
  let field : Nat := bits / Nat.pow 2 52
  if field = 0 then ⟨fraction, -1074⟩ else ⟨fraction + Nat.pow 2 52, (field : Int) - 1075⟩

/-- The magnitude and the two ends of the interval of reals that round to it, as numerators over one
denominator. Below a power of two the neighbouring float is only half as far away. -/
def interval (b : Binary) : Nat × Nat × Nat × Nat :=
  let value := 4 * b.mantissa
  let below := if b.mantissa = Nat.pow 2 52 ∧ -1074 < b.exponent then 1 else 2
  let shift := b.exponent - 2
  let scale := Nat.pow 2 shift.toNat
  ((value - below) * scale, value * scale, (value + 2) * scale, Nat.pow 2 (-shift).toNat)

end Binary

namespace Decimal

/-- How many decimal digits a number has; zero has none. -/
def digitCount (n : Nat) : Nat := if n = 0 then 0 else (Nat.toDigits 10 n).length

/-- The power of ten of the leading digit of `num / den`. -/
def leading (num den : Nat) : Int :=
  if den ≤ num then (digitCount (num / den) : Int) - 1
  else -(digitCount ((den + num - 1) / num - 1) : Int)

/-- Takes trailing zeros of the coefficient into the exponent, at most `fuel` of them. -/
def trim : Nat → Decimal → Decimal
  | 0, d => d
  | fuel + 1, d =>
    if d.coefficient ≠ 0 ∧ d.coefficient % 10 = 0 then
      trim fuel ⟨d.coefficient / 10, d.exponent + 1⟩
    else d

/-- Which of two multiples a magnitude halfway between them goes to. -/
inductive Tie where
  | even
  | up
deriving DecidableEq, Repr

/-- Whether a tie above `floor` goes down. -/
def Tie.goesDown (t : Tie) (floor : Nat) : Bool :=
  match t with
  | even => floor % 2 == 0
  | up => false

/-- The multiple of `10 ^ grid` nearest to a magnitude among those that round to it. -/
def onGrid? (tie : Tie) (b : Binary) (grid : Int) : Option Decimal :=
  let (low, value, high, den) := b.interval
  let unit : Nat := Nat.pow 10 grid.toNat * den
  let scale : Nat := Nat.pow 10 (-grid).toNat
  let floor : Nat := value * scale / unit
  let inside (c : Nat) : Bool :=
    if b.mantissa % 2 = 0 then decide (low * scale ≤ c * unit ∧ c * unit ≤ high * scale)
    else decide (low * scale < c * unit ∧ c * unit < high * scale)
  let down : Nat := value * scale - floor * unit
  let up : Nat := (floor + 1) * unit - value * scale
  match inside floor, inside (floor + 1) with
  | true, true =>
    if down < up ∨ (down = up ∧ tie.goesDown floor) then some ⟨floor, grid⟩
    else some ⟨floor + 1, grid⟩
  | true, false => some ⟨floor, grid⟩
  | false, true => some ⟨floor + 1, grid⟩
  | false, false => none

/-- Tries the grids with `count`, `count + 1`, … digits, coarsest first. -/
def search (tie : Tie) (b : Binary) (lead : Int) : (tries count : Nat) → Decimal
  | 0, count => (onGrid? tie b (lead + 1 - count)).getD ⟨0, 0⟩
  | tries + 1, count =>
    (onGrid? tie b (lead + 1 - count)).getD (search tie b lead tries (count + 1))

/-- The decimal with the fewest digits that reads back as the magnitude, the nearest of those. -/
def shortest (tie : Tie) (b : Binary) : Decimal :=
  if b.mantissa = 0 then ⟨0, 0⟩
  else
    let (_, value, _, den) := b.interval
    trim 17 (search tie b (leading value den) 16 1)

/-- A quotient rounded to the nearest natural number, a tie to the even one. -/
def roundDiv (num den : Nat) : Nat :=
  let floor := num / den
  let rest := num % den
  if 2 * rest < den ∨ (2 * rest = den ∧ floor % 2 = 0) then floor else floor + 1

/-- The magnitude in units of `10 ^ -places`, rounded. -/
def rounded (b : Binary) (places : Nat) : Nat :=
  roundDiv (b.mantissa * Nat.pow 2 b.exponent.toNat * Nat.pow 10 places)
    (Nat.pow 2 (-b.exponent).toNat)

end Decimal

end Scheduling
