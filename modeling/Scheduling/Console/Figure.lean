import Scheduling.Decimal.Layout

/-!
# Figures

Numbers for people: commas between thousands, and times in the unit that suits them.
-/

namespace Scheduling

/-- Digits with a comma before every third one from the end. -/
def separateThousands (digits : List Char) : List Char :=
  let step (c : Char) (read : Nat × List Char) : Nat × List Char :=
    let (n, out) := read
    (n + 1, if n % 3 = 0 ∧ n ≠ 0 then c :: ',' :: out else c :: out)
  (digits.foldr step (0, [])).2

/-- A natural number with commas between thousands. -/
def groupedNat (n : Nat) : String := String.ofList (separateThousands (Nat.repr n).toList)

/-- An integer with commas between thousands. -/
def groupedInt (v : Int) : String := (if v < 0 then "-" else "") ++ groupedNat v.natAbs

/-- A float: a whole number that is not too large gets commas between thousands. -/
def figure (x : Float) : String :=
  if x.floor == x && x.abs < 1e15 then groupedInt x.toInt64.toInt else Layout.plain.write x

/-- A number of seconds: milliseconds below one second, minutes from one minute on. -/
def timeSpan (seconds : Float) : String :=
  if seconds < 1.0 then Nat.repr (seconds * 1000.0).round.toUInt64.toNat ++ "ms"
  else if seconds < 60.0 then fixedPlaces 2 seconds ++ "s"
  else
    let total := seconds.toUInt64.toNat
    Nat.repr (total / 60) ++ "m " ++ Nat.repr (total % 60) ++ "s"

/-- A number of seconds to the millisecond, at least seven characters wide. -/
def stamp (seconds : Float) : String :=
  let text := fixedPlaces 3 seconds
  String.ofList (List.replicate (7 - text.length) ' ') ++ text ++ "s"

end Scheduling
