/-!
# Integers of 64 bits

Every integer of a model lies between `intMin` and `intMax`. Operations are carried out on exact
integers; `checked` keeps a result that fits and drops any other, `saturated` moves it to the
nearest bound.
-/

namespace Scheduling

/-- The least integer of 64 bits. -/
def intMin : Int := -9223372036854775808

/-- The greatest integer of 64 bits. -/
def intMax : Int := 9223372036854775807

/-- The greatest natural number of 64 bits. -/
def wordMax : Int := 18446744073709551615

/-- The greatest natural number of 32 bits. -/
def halfWordMax : Int := 4294967295

/-- An integer of 64 bits. -/
def Fits (v : Int) : Prop := intMin ≤ v ∧ v ≤ intMax

instance (v : Int) : Decidable (Fits v) := inferInstanceAs (Decidable (_ ∧ _))

/-- The value itself when it fits in 64 bits. -/
def checked (v : Int) : Option Int := if Fits v then some v else none

/-- The nearest integer of 64 bits. -/
def saturated (v : Int) : Int := if v < intMin then intMin else if intMax < v then intMax else v

/-- The quotient cut toward zero; there is none for a zero divisor or outside 64 bits. -/
def checkedDiv (a b : Int) : Option Int := if b = 0 then none else checked (a.tdiv b)

/-- The integer of a truth value. -/
def ofTruth (b : Bool) : Int := if b then 1 else 0

/-- The decimal text of an integer. -/
def intText (v : Int) : String := (if v < 0 then "-" else "") ++ Nat.repr v.natAbs

/-! ## Facts -/

theorem checked_eq_some {v w : Int} : checked v = some w ↔ Fits v ∧ v = w := by
  unfold checked; split <;> simp_all

theorem checked_of_fits {v : Int} (h : Fits v) : checked v = some v := if_pos h

theorem checked_eq_none {v : Int} : checked v = none ↔ ¬ Fits v := by
  unfold checked; split <;> simp_all

theorem saturated_of_fits {v : Int} (h : Fits v) : saturated v = v := by
  obtain ⟨h₁, h₂⟩ := h
  unfold saturated; split
  · omega
  · split <;> omega

theorem fits_saturated (v : Int) : Fits (saturated v) := by
  unfold saturated Fits intMin intMax; split
  · omega
  · split <;> omega

end Scheduling
