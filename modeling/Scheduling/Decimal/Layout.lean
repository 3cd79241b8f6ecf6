import Scheduling.Decimal.Shortest

/-!
# Layouts of decimals

How the digits of a float are written: which magnitudes go without an exponent, whether a whole
number keeps a point, and how an exponent is signed. `Layout.write` is the one writer; a layout is
plain data.
-/

namespace Scheduling

/-- The choices in writing a float. -/
structure Layout where
  /-- The least and the greatest power of ten of a leading digit written without an exponent; `none`
  when nothing has one. -/
  positional : Option (Int × Int)
  /-- Whether a whole number written without an exponent ends in `.0`. -/
  keepsPoint : Bool
  /-- Whether an exponent that is not negative has a plus sign. -/
  plusSign : Bool
  /-- Which of two equally near and equally short decimals is written. -/
  tie : Decimal.Tie
deriving DecidableEq, Repr

namespace Layout

/-- In messages and tables there is no exponent, and whole numbers look like integers. -/
def plain : Layout := ⟨none, false, false, .up⟩

/-- As a literal a float always shows that it is one. -/
def literal : Layout := ⟨some (-4, 15), true, false, .up⟩

/-- A text of `n` zeros. -/
def zeros (n : Nat) : String := String.ofList (List.replicate n '0')

/-- Digits times a power of ten, without an exponent. -/
def unscaled (l : Layout) (d : Decimal) : String :=
  let digits := Nat.repr d.coefficient
  if 0 ≤ d.exponent then
    digits ++ zeros d.exponent.toNat ++ (if l.keepsPoint then ".0" else "")
  else
    let places := (-d.exponent).toNat
    if places < digits.length then
      let cut := digits.length - places
      String.ofList (digits.toList.take cut) ++ "." ++ String.ofList (digits.toList.drop cut)
    else "0." ++ zeros (places - digits.length) ++ digits

/-- One digit, the others after a point, and the power of ten of the first. -/
def scaled (l : Layout) (d : Decimal) (lead : Int) : String :=
  let digits := (Nat.repr d.coefficient).toList
  let tail := digits.drop 1
  String.ofList (digits.take 1) ++ (if tail.isEmpty then "" else "." ++ String.ofList tail)
    ++ "e" ++ (if lead < 0 then "-" else if l.plusSign then "+" else "") ++ Nat.repr lead.natAbs

/-- The text of a decimal. -/
def magnitude (l : Layout) (d : Decimal) : String :=
  let lead := d.exponent + (Nat.repr d.coefficient).length - 1
  match l.positional with
  | none => l.unscaled d
  | some (least, greatest) =>
    if d.coefficient = 0 ∨ (least ≤ lead ∧ lead ≤ greatest) then l.unscaled d
    else l.scaled d lead

/-- The text of a float: the fewest digits that read back, laid out. -/
def write (l : Layout) (x : Float) : String :=
  if x.isNaN then "NaN"
  else
    let sign := if isSigned x then "-" else ""
    if x.isInf then sign ++ "inf"
    else sign ++ l.magnitude (Decimal.shortest l.tie (Binary.ofFloat x))

end Layout

/-- The text of a float with a fixed number of places, at least one, rounded to the nearest and a
tie to the even digit. -/
def fixedPlaces (places : Nat) (x : Float) : String :=
  if x.isNaN then "NaN"
  else
    let sign := if isSigned x then "-" else ""
    if x.isInf then sign ++ "inf"
    else
      let digits := Nat.repr (Decimal.rounded (Binary.ofFloat x) places)
      let padded := (Layout.zeros (places + 1 - digits.length) ++ digits).toList
      let cut := padded.length - places
      sign ++ String.ofList (padded.take cut) ++ "." ++ String.ofList (padded.drop cut)

end Scheduling
