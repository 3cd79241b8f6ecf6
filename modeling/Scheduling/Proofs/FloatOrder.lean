import Mathlib

/-!
# The order of floats

Two floats that are numbers compare as their ranks do (`Binary64.compare_rank`), and ranks are in a
linear order. So `<`, `≤` and `==` on numbers are those of a linear order (`lt_iff_rank`,
`le_iff_rank`, `beq_iff_rank`), in which the two zeros stand at the same place.
-/

open Float.Model Float.Model.UnpackedFloat

namespace Scheduling

/-- Places of floats: sign and infinity first, then the exponent, then the mantissa. -/
abbrev Rank := Int ×ₗ Int ×ₗ Int

namespace Binary64

/-- The place of a float; one that is not a number has none of its own. -/
def rank : UnpackedFloat → Rank
  | .notANumber | .zero _ => toLex (0, toLex (0, 0))
  | .infinity .positive => toLex (2, toLex (0, 0))
  | .infinity .negative => toLex (-2, toLex (0, 0))
  | .finite .positive m e _ => toLex (1, toLex (e, (m : Int)))
  | .finite .negative m e _ => toLex (-1, toLex (-e, -(m : Int)))

theorem compare_toLex (a b c a' b' c' : Int) :
    compare (toLex (a, toLex (b, c)) : Rank) (toLex (a', toLex (b', c'))) =
      (compare a a').then ((compare b b').then (compare c c')) := by
  simp only [Prod.Lex.compare_def, compareLex, compareOn, ofLex_toLex]

theorem swap_compare_neg (v w : Int) : (compare (-v) (-w)).swap = compare v w := by
  obtain h | rfl | h := lt_trichotomy v w
  · rw [compare_lt_iff_lt.2 h, compare_gt_iff_gt.2 (by omega), Ordering.swap_gt]
  · rw [compare_eq_iff_eq.2 rfl, compare_eq_iff_eq.2 rfl, Ordering.swap_eq]
  · rw [compare_gt_iff_gt.2 h, compare_lt_iff_lt.2 (by omega), Ordering.swap_lt]

theorem compare_natCast (m k : Nat) : compare (m : Int) (k : Int) = compare m k := by
  obtain h | rfl | h := lt_trichotomy m k
  · rw [compare_lt_iff_lt.2 h, compare_lt_iff_lt.2 (by omega)]
  · rw [compare_eq_iff_eq.2 rfl, compare_eq_iff_eq.2 rfl]
  · rw [compare_gt_iff_gt.2 h, compare_gt_iff_gt.2 (by omega)]

/-- Numbers compare as their places. -/
theorem compare_rank {x y : UnpackedFloat} (hx : x ≠ .notANumber) (hy : y ≠ .notANumber) :
    x.compare y = some (compare (rank x) (rank y)) := by
  cases x with
  | notANumber => exact absurd rfl hx
  | infinity s =>
    cases y with
    | notANumber => exact absurd rfl hy
    | infinity t => cases s <;> cases t <;> rfl
    | zero t => cases s <;> rfl
    | finite t k f hk => cases s <;> cases t <;> rfl
  | zero s =>
    cases y with
    | notANumber => exact absurd rfl hy
    | infinity t => cases t <;> rfl
    | zero t => rfl
    | finite t k f hk => cases t <;> rfl
  | finite s m e hm =>
    cases y with
    | notANumber => exact absurd rfl hy
    | infinity t => cases s <;> cases t <;> rfl
    | zero t => cases s <;> rfl
    | finite t k f hk =>
      cases s <;> cases t
      · -- Both are negative: the order is turned around.
        show some ((compare e f).then (compare m k)).swap = _
        rw [← swap_compare_neg e, ← compare_natCast, ← swap_compare_neg (m : Int),
          ← Ordering.swap_then, Ordering.swap_swap, rank, rank, compare_toLex]
        rfl
      · rfl
      · rfl
      · -- Both are positive: the exponent decides before the mantissa.
        rw [rank, rank, compare_toLex, compare_natCast]
        rfl

end Binary64

/-- The place of a float. -/
def rank (x : Float) : Rank := Binary64.rank x.toModel.unpack

section Numbers

variable {x y : Float}

theorem lt_iff_compare : x < y ↔ x.toModel.unpack.compare y.toModel.unpack = some .lt := by
  show decide ((x.toModel.unpack.compare y.toModel.unpack == some .lt) = true) = true ↔ _
  rw [decide_eq_true_iff, beq_iff_eq]

theorem le_iff_compare :
    x ≤ y ↔ (x.toModel.unpack.compare y.toModel.unpack).any (·.isLE) = true := by
  show decide _ = true ↔ _
  exact decide_eq_true_iff

theorem beq_iff_compare :
    (x == y) = true ↔ x.toModel.unpack.compare y.toModel.unpack = some .eq := by
  show (x.toModel.unpack.compare y.toModel.unpack == some .eq) = true ↔ _
  exact beq_iff_eq

theorem unpack_ne_of_not_isNaN (h : x.isNaN = false) : x.toModel.unpack ≠ .notANumber := by
  intro hx
  have hnan : x.isNaN = true := by
    show x.toModel.unpack.isNaN = true
    rw [hx]
    rfl
  rw [h] at hnan
  exact nomatch hnan

variable (hx : x.isNaN = false) (hy : y.isNaN = false)

include hx hy

theorem compare_eq_rank :
    x.toModel.unpack.compare y.toModel.unpack = some (compare (rank x) (rank y)) :=
  Binary64.compare_rank (unpack_ne_of_not_isNaN hx) (unpack_ne_of_not_isNaN hy)

theorem lt_iff_rank : x < y ↔ rank x < rank y := by
  rw [lt_iff_compare, compare_eq_rank hx hy, Option.some.injEq, compare_lt_iff_lt]

theorem le_iff_rank : x ≤ y ↔ rank x ≤ rank y := by
  rw [le_iff_compare, compare_eq_rank hx hy, Option.any_some, Ordering.isLE_iff_ne_gt]
  exact compare_le_iff_le

theorem beq_iff_rank : (x == y) = true ↔ rank x = rank y := by
  rw [beq_iff_compare, compare_eq_rank hx hy, Option.some.injEq, compare_eq_iff_eq]

end Numbers

end Scheduling
