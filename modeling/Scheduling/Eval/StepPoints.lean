import Scheduling.Arith

/-!
# Step functions

An integer function that keeps the height of its last point. It is zero before its first point.
-/

namespace Scheduling

/-- The points of a step function, in ascending order of time. -/
structure StepPoints where
  points : Array (Int × Int)
deriving DecidableEq, Repr

namespace StepPoints

/-- Halves a range of `size` points from `base` on until one is left, keeping the upper half when it
begins at or before a time. -/
def halve (f : StepPoints) (time : Int) : (fuel base size : Nat) → Nat
  | 0, base, _ => base
  | fuel + 1, base, size =>
    if size ≤ 1 then base
    else
      let middle := base + size / 2
      let reached := (f.points[middle]?).any fun p => p.1 ≤ time
      halve f time fuel (if reached then middle else base) (size - size / 2)

/-- How many points lie at or before a time. -/
def reached (f : StepPoints) (time : Int) : Nat :=
  let base := f.halve time f.points.size 0 f.points.size
  if (f.points[base]?).any fun p => p.1 ≤ time then base + 1 else base

/-- The height at a time. -/
def heightAt (f : StepPoints) (time : Int) : Int :=
  match f.reached time with
  | 0 => 0
  | n + 1 => ((f.points[n]?).map Prod.snd).getD 0

/-- The time of the first point after a time. -/
def nextChange? (f : StepPoints) (time : Int) : Option Int :=
  (f.points[f.reached time]?).map Prod.fst

/-- Where the height at a time ends, at the latest at `finish`. -/
def pieceEnd (f : StepPoints) (time finish : Int) : Int :=
  match f.nextChange? time with
  | some x => min x finish
  | none => finish

/-- How many pieces a range has at most. -/
def pieces (f : StepPoints) : Nat := f.points.size + 2

/-- Adds the pieces of a range to a total. -/
def sumFrom (f : StepPoints) (finish : Int) : (fuel : Nat) → (time total : Int) → Option Int
  | 0, _, total => some total
  | fuel + 1, time, total =>
    if time < finish then
      let stop := f.pieceEnd time finish
      match checked (stop - time) with
      | some width =>
        sumFrom f finish fuel stop (saturated (total + saturated (f.heightAt time * width)))
      | none => none
    else some total

/-- The sum of the heights from `start` up to but not including `finish`; there is none when a piece
is wider than 64 bits can count. -/
def sum? (f : StepPoints) (start finish : Int) : Option Int := f.sumFrom finish f.pieces start 0

/-- Whether the function is nowhere zero from a time up to `finish`. -/
def nonzeroFrom (f : StepPoints) (finish : Int) : (fuel : Nat) → (time : Int) → Bool
  | 0, _ => true
  | fuel + 1, time =>
    if time < finish then
      if f.heightAt time = 0 then false else nonzeroFrom f finish fuel (f.pieceEnd time finish)
    else true

/-- Whether the function is nowhere zero from `start` up to but not including `finish`. -/
def nonzeroOver (f : StepPoints) (start finish : Int) : Bool := f.nonzeroFrom finish f.pieces start

end StepPoints

end Scheduling
