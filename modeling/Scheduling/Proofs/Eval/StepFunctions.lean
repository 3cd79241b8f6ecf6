import Mathlib.Algebra.BigOperators.Group.Finset.Basic
import Mathlib.Algebra.Order.BigOperators.Group.Finset
import Mathlib.Data.Int.Interval
import Scheduling.Proofs.Eval.CumulativeBound
import Scheduling.Proofs.Record.RoundTrip
import Scheduling.Proofs.Tables

/-!
# Step functions at every point

The height at a time is found by halving the points, and sums and coverage are found piece by piece.
All of them are as the definition over every point of time says: the height is that of the last
point up to the time (`heightAt_eq`), a sum adds the heights of all times of a range (`sum?_eq`),
and a range is covered when no time of it has height zero (`nonzeroFrom_iff`). A piece ends at the
next point or where the range ends, so that each piece leaves fewer points ahead (`ahead_pieceEnd`),
and the loops over the pieces end (`le_iterate_pieceEnd`).
-/

namespace Scheduling

namespace StepPoints

variable {f : StepPoints} {t u start finish : Int} {i j base size fuel : Nat} {p q : Int × Int}

/-! ### Halving -/

theorem fst_lt (hf : Ascending f.points.toList) (hp : f.points[i]? = some p)
    (hq : f.points[j]? = some q) (hij : i < j) : p.1 < q.1 := by
  rw [← Array.getElem?_toList] at hp hq
  obtain ⟨hi, rfl⟩ := List.getElem?_eq_some_iff.1 hp
  obtain ⟨hj, rfl⟩ := List.getElem?_eq_some_iff.1 hq
  exact List.pairwise_iff_getElem.1 hf i j hi hj hij

/-- The points before a range lie at or before a time, those behind the range after it. -/
structure Halved (f : StepPoints) (t : Int) (base size : Nat) : Prop where
  inside : base + size ≤ f.points.size
  before : ∀ j p, f.points[j]? = some p → j < base → p.1 ≤ t
  behind : ∀ j p, f.points[j]? = some p → base + size ≤ j → t < p.1

/-- Halving a range keeps the points on both sides of it. -/
theorem Halved.halve (hf : Ascending f.points.toList) (h : Halved f t base size)
    (hfuel : size ≤ fuel) : ∃ left ≤ 1, Halved f t (f.halve t fuel base size) left := by
  induction fuel generalizing base size with
  | zero => exact ⟨size, by omega, h⟩
  | succ fuel ih =>
    unfold StepPoints.halve
    by_cases hsize : size ≤ 1
    · rw [if_pos hsize]
      exact ⟨size, hsize, h⟩
    rw [if_neg hsize]
    have hinside := h.inside
    obtain ⟨p, hp⟩ : ∃ p, f.points[base + size / 2]? = some p :=
      ⟨_, Array.getElem?_eq_getElem (by omega)⟩
    simp only [hp, Option.any_some, decide_eq_true_eq]
    by_cases hreached : p.1 ≤ t
    · rw [if_pos hreached]
      refine ih ⟨by omega, fun j q hq hj => ?_, fun j q hq hj => ?_⟩ (by omega)
      · exact (fst_lt hf hq hp hj).le.trans hreached
      · exact h.behind j q hq (by omega)
    · rw [if_neg hreached]
      refine ih ⟨by omega, h.before, fun j q hq hj => ?_⟩ (by omega)
      obtain hj | hj := Nat.lt_or_eq_of_le (show base + size / 2 ≤ j by omega)
      · exact (Int.not_le.1 hreached).trans (fst_lt hf hp hq hj)
      · obtain rfl := Option.some.inj (hp.symm.trans (hj ▸ hq))
        exact Int.not_le.1 hreached

/-- The points up to a time are as many as were found by halving. -/
theorem reached_spec (hf : Ascending f.points.toList) (t : Int) :
    f.reached t ≤ f.points.size ∧
      ∀ j p, f.points[j]? = some p → (p.1 ≤ t ↔ j < f.reached t) := by
  have hwhole : Halved f t 0 f.points.size := by
    refine ⟨by omega, nofun, fun j p hp hj => ?_⟩
    rw [Array.getElem?_eq_none (by omega)] at hp
    exact nomatch hp
  obtain ⟨left, hleft, h⟩ := hwhole.halve hf le_rfl
  unfold reached
  generalize f.halve t f.points.size 0 f.points.size = base at h ⊢
  dsimp only
  have hinside := h.inside
  cases hq : f.points[base]? with
  | none =>
    rw [Array.getElem?_eq_none_iff] at hq
    refine ⟨Nat.le_of_add_right_le hinside, fun j p hp => ?_⟩
    obtain ⟨hj, -⟩ := Array.getElem?_eq_some_iff.1 hp
    have hj : j < base := by omega
    exact iff_of_true (h.before j p hp hj) hj
  | some q =>
    obtain ⟨hbase, -⟩ := Array.getElem?_eq_some_iff.1 hq
    simp only [Option.any_some, decide_eq_true_eq]
    by_cases hreached : q.1 ≤ t
    · rw [if_pos hreached]
      refine ⟨hbase, fun j p hp => ⟨fun hle => ?_, fun hj => ?_⟩⟩
      · by_contra hj
        exact absurd hle (Int.not_le.2 (h.behind j p hp (by omega)))
      · obtain hj | rfl := Nat.lt_succ_iff_lt_or_eq.1 hj
        · exact h.before j p hp hj
        · obtain rfl := Option.some.inj (hq.symm.trans hp)
          exact hreached
    · rw [if_neg hreached]
      refine ⟨hbase.le, fun j p hp => ⟨fun hle => ?_, h.before j p hp⟩⟩
      by_contra hj
      obtain hj | rfl := Nat.lt_or_eq_of_le (Nat.not_lt.1 hj)
      · exact absurd hle (Int.not_le.2 (h.behind j p hp (by omega)))
      · obtain rfl := Option.some.inj (hq.symm.trans hp)
        exact hreached hle

/-! ### Heights -/

section Heights

variable (hf : Ascending f.points.toList)

include hf

theorem filter_eq_take (t : Int) :
    (f.points.toList.filter fun p => p.1 ≤ t) = f.points.toList.take (f.reached t) := by
  obtain ⟨-, hreached⟩ := reached_spec hf t
  have hbefore : ∀ p ∈ f.points.toList.take (f.reached t), p.1 ≤ t := by
    intro p hp
    obtain ⟨j, hj⟩ := List.mem_iff_getElem?.1 hp
    rw [List.getElem?_take] at hj
    split at hj
    · rename_i hlt
      exact (hreached j p (by rwa [← Array.getElem?_toList])).2 hlt
    · exact nomatch hj
  have hbehind : ∀ p ∈ f.points.toList.drop (f.reached t), ¬ p.1 ≤ t := by
    intro p hp hle
    obtain ⟨j, hj⟩ := List.mem_iff_getElem?.1 hp
    rw [List.getElem?_drop] at hj
    have := (hreached _ p (by rwa [← Array.getElem?_toList])).1 hle
    omega
  conv_lhs => rw [← List.take_append_drop (f.reached t) f.points.toList]
  rw [List.filter_append, List.filter_eq_self.2 (by simpa using hbefore),
    List.filter_eq_nil_iff.2 (by simpa using hbehind), List.append_nil]

/-- The height at a time is that of the last point up to the time, and zero before all points. -/
theorem heightAt_eq (t : Int) : f.heightAt t =
    (((f.points.toList.filter fun p => p.1 ≤ t).getLast?).map Prod.snd).getD 0 := by
  have hle := (reached_spec hf t).1
  rw [filter_eq_take hf, heightAt, List.getLast?_take]
  cases hr : f.reached t with
  | zero => rfl
  | succ n =>
    rw [hr] at hle
    simp only [if_neg (Nat.succ_ne_zero n), Nat.add_sub_cancel, Array.getElem?_toList,
      Array.getElem?_eq_getElem hle, Option.some_or]

/-! ### Pieces -/

/-- The next point is the first one behind a time. -/
theorem nextChange?_spec (t : Int) :
    match f.nextChange? t with
    | some x => t < x ∧ (∃ y, (x, y) ∈ f.points.toList) ∧ ∀ p ∈ f.points.toList, t < p.1 → x ≤ p.1
    | none => ∀ p ∈ f.points.toList, p.1 ≤ t := by
  obtain ⟨hle, ht⟩ := reached_spec hf t
  unfold nextChange?
  cases hp : f.points[f.reached t]? with
  | none =>
    intro q hq
    obtain ⟨j, hj⟩ := List.mem_iff_getElem?.1 hq
    rw [Array.getElem?_toList] at hj
    rw [Array.getElem?_eq_none_iff] at hp
    obtain ⟨hlt, -⟩ := Array.getElem?_eq_some_iff.1 hj
    exact (ht j q hj).2 (by omega)
  | some p =>
    refine ⟨?_, ⟨p.2, ?_⟩, fun q hq hlt => ?_⟩
    · by_contra hlt
      exact Nat.lt_irrefl _ ((ht _ _ hp).1 (Int.not_lt.1 hlt))
    · rw [← Array.getElem?_toList] at hp
      exact List.mem_of_getElem? hp
    · obtain ⟨j, hj⟩ := List.mem_iff_getElem?.1 hq
      rw [Array.getElem?_toList] at hj
      have hnot : ¬ j < f.reached t := fun h => absurd ((ht j q hj).2 h) (Int.not_le.2 hlt)
      obtain hlt | heq := Nat.lt_or_eq_of_le (Nat.not_lt.1 hnot)
      · exact (fst_lt hf hp hj hlt).le
      · obtain rfl := Option.some.inj (hp.symm.trans (heq ▸ hj))
        exact le_rfl

omit hf in
theorem pieceEnd_le (t finish : Int) : f.pieceEnd t finish ≤ finish := by
  unfold pieceEnd
  cases f.nextChange? t with
  | none => exact le_rfl
  | some x => exact min_le_right _ _

theorem lt_pieceEnd (ht : t < finish) : t < f.pieceEnd t finish := by
  have hnext := nextChange?_spec hf t
  unfold pieceEnd
  cases h : f.nextChange? t with
  | none => exact ht
  | some x =>
    rw [h] at hnext
    exact lt_min hnext.1 ht

/-- No point lies inside a piece. -/
theorem le_of_lt_pieceEnd (hp : p ∈ f.points.toList) (hlt : p.1 < f.pieceEnd t finish) :
    p.1 ≤ t := by
  have hnext := nextChange?_spec hf t
  unfold pieceEnd at hlt
  cases h : f.nextChange? t with
  | none =>
    rw [h] at hnext
    exact hnext p hp
  | some x =>
    rw [h] at hnext hlt
    by_contra hle
    have := hnext.2.2 p hp (Int.not_le.1 hle)
    exact absurd (this.trans_lt (hlt.trans_le (min_le_left _ _))) (lt_irrefl _)

/-- A piece that ends before the range ends at a point. -/
theorem exists_pieceEnd (hlt : f.pieceEnd t finish < finish) :
    ∃ y, (f.pieceEnd t finish, y) ∈ f.points.toList := by
  have hnext := nextChange?_spec hf t
  unfold pieceEnd at hlt ⊢
  cases h : f.nextChange? t with
  | none =>
    rw [h] at hlt
    exact absurd hlt (lt_irrefl _)
  | some x =>
    rw [h] at hnext hlt
    dsimp only
    rw [min_eq_left ((min_lt_iff.1 hlt).resolve_right (lt_irrefl _)).le]
    exact hnext.2.1

/-- The height stays the same in a piece. -/
theorem heightAt_eq_of_lt_pieceEnd (htu : t ≤ u) (hu : u < f.pieceEnd t finish) :
    f.heightAt u = f.heightAt t := by
  have hsame : (f.points.toList.filter fun p => p.1 ≤ u) =
      f.points.toList.filter fun p => p.1 ≤ t := by
    refine List.filter_congr fun p hp => decide_eq_decide.2 ⟨fun hle => ?_, fun hle => ?_⟩
    · exact le_of_lt_pieceEnd hf hp (hle.trans_lt hu)
    · exact hle.trans htu
  rw [heightAt_eq hf, heightAt_eq hf, hsame]

end Heights

/-! ### Loops over pieces -/

/-- How many pieces are ahead at most, up to the end of a range. -/
def ahead (f : StepPoints) (finish t : Int) : Nat :=
  if t < finish then f.points.size - f.reached t + 1 else 0

theorem ahead_lt_pieces (f : StepPoints) (finish t : Int) : f.ahead finish t < f.pieces := by
  unfold ahead pieces
  split <;> omega

theorem le_of_ahead_eq_zero (h : f.ahead finish t = 0) : finish ≤ t := by
  unfold ahead at h
  split at h
  · omega
  · omega

section Loops

variable (hf : Ascending f.points.toList)

include hf

/-- Behind a piece, fewer pieces are ahead. -/
theorem ahead_pieceEnd (ht : t < finish) :
    f.ahead finish (f.pieceEnd t finish) < f.ahead finish t := by
  rw [ahead, ahead, if_pos ht]
  split
  · rename_i hlt
    obtain ⟨hle, hend⟩ := reached_spec hf (f.pieceEnd t finish)
    obtain ⟨-, hreached⟩ := reached_spec hf t
    obtain ⟨y, hy⟩ := exists_pieceEnd hf hlt
    obtain ⟨j, hj⟩ := List.mem_iff_getElem?.1 hy
    rw [Array.getElem?_toList] at hj
    -- The point at the end of the piece has been reached there, and not before.
    have hj' := (hend j _ hj).1 le_rfl
    have hnot : ¬ j < f.reached t := fun h =>
      absurd ((hreached j _ hj).2 h) (Int.not_le.2 (lt_pieceEnd hf ht))
    omega
  · omega

/-- Behind the range there are no pieces. -/
theorem pieceEnd_of_le (h : finish ≤ t) : f.pieceEnd t finish = finish := by
  have hnext := nextChange?_spec hf t
  unfold pieceEnd
  cases hx : f.nextChange? t with
  | none => rfl
  | some x =>
    rw [hx] at hnext
    exact min_eq_right (h.trans hnext.1.le)

/-- Stepping from piece to piece reaches the end of the range. -/
theorem le_iterate_pieceEnd {k : Nat} (hk : f.ahead finish t ≤ k) :
    finish ≤ (fun u => f.pieceEnd u finish)^[k] t := by
  induction k generalizing t with
  | zero => exact le_of_ahead_eq_zero (Nat.le_zero.1 hk)
  | succ k ih =>
    rw [Function.iterate_succ_apply]
    obtain hle | ht := le_or_gt finish t
    · refine ih ?_
      rw [pieceEnd_of_le hf hle, ahead, if_neg (lt_irrefl _)]
      exact Nat.zero_le k
    · exact ih (by have := ahead_pieceEnd hf ht; omega)

/-- A range is covered when no time of it has height zero. -/
theorem nonzeroFrom_iff (hfuel : f.ahead finish t ≤ fuel) :
    f.nonzeroFrom finish fuel t = true ↔ ∀ u, t ≤ u → u < finish → f.heightAt u ≠ 0 := by
  induction fuel generalizing t with
  | zero =>
    have := le_of_ahead_eq_zero (Nat.le_zero.1 hfuel)
    exact iff_of_true rfl fun u htu hu => absurd hu (Int.not_lt.2 (this.trans htu))
  | succ fuel ih =>
    rw [nonzeroFrom]
    by_cases ht : t < finish
    · have hstop := lt_pieceEnd hf ht
      rw [if_pos ht]
      by_cases hzero : f.heightAt t = 0
      · rw [if_pos hzero]
        exact iff_of_false nofun fun h => h t le_rfl ht hzero
      · rw [if_neg hzero, ih (by have := ahead_pieceEnd hf ht; omega)]
        refine ⟨fun h u htu hu => ?_, fun h u hu => h u (hstop.le.trans hu)⟩
        obtain hin | hout := lt_or_ge u (f.pieceEnd t finish)
        · rwa [heightAt_eq_of_lt_pieceEnd hf htu hin]
        · exact h u hout hu
    · rw [if_neg ht]
      exact iff_of_true rfl fun u htu hu => absurd (htu.trans_lt hu) ht

end Loops

/-! ### Sums -/

/-- The sum of the heights from a time up to but not including another one. -/
def total (f : StepPoints) (start finish : Int) : Int :=
  ∑ k ∈ Finset.range (finish - start).toNat, f.heightAt (start + k)

/-- A part of a range: it starts at the start of the range or at a point, it ends at the end of the
range or at a point, and no point lies inside it. -/
structure Piece (points : List (Int × Int)) (start finish a b : Int) : Prop where
  le : start ≤ a
  lt : a < b
  ends : b ≤ finish
  first : a = start ∨ ∃ y, (a, y) ∈ points
  last : b = finish ∨ ∃ y, (b, y) ∈ points
  inside : ∀ p ∈ points, p.1 < b → p.1 ≤ a

/-- Each piece of a range is no wider than 64 bits can count, and neither what it adds to the sum
nor the sum up to its end is greater. -/
def SumFits (f : StepPoints) (start finish : Int) : Prop :=
  ∀ a b, Piece f.points.toList start finish a b →
    Fits (b - a) ∧ Fits (f.heightAt a * (b - a)) ∧ Fits (f.total start b)

theorem total_add {a b c : Int} (hab : a ≤ b) (hbc : b ≤ c) :
    f.total a b + f.total b c = f.total a c := by
  have hwidth : (c - a).toNat = (b - a).toNat + (c - b).toNat := by omega
  rw [total, total, total, hwidth, Finset.sum_range_add]
  refine congrArg _ (Finset.sum_congr rfl fun k _ => congrArg f.heightAt ?_)
  omega

theorem total_eq_zero (h : finish ≤ start) : f.total start finish = 0 := by
  rw [total, Int.toNat_of_nonpos (by omega), Finset.sum_range_zero]

section Sums

variable (hf : Ascending f.points.toList)

include hf

/-- A piece adds its height as often as it is wide. -/
theorem total_pieceEnd (ht : t < finish) : f.total t (f.pieceEnd t finish) =
    f.heightAt t * (f.pieceEnd t finish - t) := by
  have hstop := lt_pieceEnd hf ht
  have hsame : ∀ k ∈ Finset.range (f.pieceEnd t finish - t).toNat,
      f.heightAt (t + k) = f.heightAt t := by
    intro k hk
    have hk := Finset.mem_range.1 hk
    have hlt : t + (k : Int) < f.pieceEnd t finish := by omega
    exact heightAt_eq_of_lt_pieceEnd hf (by omega) hlt
  rw [total, Finset.sum_congr rfl hsame, Finset.sum_const, Finset.card_range, nsmul_eq_mul,
    Int.toNat_of_nonneg (by omega), mul_comm]

theorem piece_pieceEnd (hle : start ≤ t) (ht : t < finish)
    (hfirst : t = start ∨ ∃ y, (t, y) ∈ f.points.toList) :
    Piece f.points.toList start finish t (f.pieceEnd t finish) where
  le := hle
  lt := lt_pieceEnd hf ht
  ends := pieceEnd_le t finish
  first := hfirst
  last := by
    obtain h | h := (pieceEnd_le t finish).eq_or_lt
    · exact .inl h
    · exact .inr (exists_pieceEnd hf h)
  inside := fun _ hp hlt => le_of_lt_pieceEnd hf hp hlt

/-- From the start of a piece on, the rest of a range is added to what came before. -/
theorem sumFrom_eq (hfits : f.SumFits start finish) (hfuel : f.ahead finish t ≤ fuel)
    (hle : start ≤ t) (htf : t ≤ finish)
    (hfirst : t < finish → t = start ∨ ∃ y, (t, y) ∈ f.points.toList) :
    f.sumFrom finish fuel t (f.total start t) = some (f.total start finish) := by
  induction fuel generalizing t with
  | zero =>
    obtain rfl := htf.antisymm (le_of_ahead_eq_zero (Nat.le_zero.1 hfuel))
    rfl
  | succ fuel ih =>
    rw [sumFrom]
    obtain rfl | ht := htf.eq_or_lt
    · rw [if_neg (lt_irrefl _)]
    have hpiece := piece_pieceEnd hf hle ht (hfirst ht)
    obtain ⟨hwidth, hadd, hsum⟩ := hfits _ _ hpiece
    have htotal : f.total start t + f.heightAt t * (f.pieceEnd t finish - t) =
        f.total start (f.pieceEnd t finish) := by
      rw [← total_pieceEnd hf ht, total_add hle hpiece.lt.le]
    simp only [if_pos ht, checked_of_fits hwidth, saturated_of_fits hadd, htotal,
      saturated_of_fits hsum]
    have hnext := ahead_pieceEnd hf ht
    exact ih (by omega) (hle.trans hpiece.lt.le) hpiece.ends fun h =>
      .inr (hpiece.last.resolve_left h.ne)

/-- Where pieces and partial sums fit in 64 bits, a sum is the sum of the heights of all times. -/
theorem sum?_eq (hfits : f.SumFits start finish) :
    f.sum? start finish = some (f.total start finish) := by
  obtain hle | hlt := le_or_gt finish start
  · rw [sum?, pieces, sumFrom, if_neg (not_lt.2 hle), total_eq_zero hle]
  · have hsum := sumFrom_eq hf hfits (ahead_lt_pieces f finish start).le le_rfl hlt.le
      fun _ => .inl rfl
    rwa [total_eq_zero le_rfl] at hsum

/-- The sum ends with the range, however many more pieces it may add. -/
theorem sumFrom_add {v : Int} (more : Nat) (hfuel : f.ahead finish t ≤ fuel) :
    f.sumFrom finish (fuel + more) t v = f.sumFrom finish fuel t v := by
  induction fuel generalizing t v with
  | zero =>
    have hle := le_of_ahead_eq_zero (Nat.le_zero.1 hfuel)
    cases more with
    | zero => rfl
    | succ more => simp only [sumFrom, if_neg (not_lt.2 hle)]
  | succ fuel ih =>
    rw [Nat.add_right_comm, sumFrom, sumFrom]
    by_cases ht : t < finish
    · have hnext := ahead_pieceEnd hf ht
      simp only [if_pos ht]
      cases checked (f.pieceEnd t finish - t) with
      | none => rfl
      | some width => exact ih (by omega)
    · rw [if_neg ht, if_neg ht]

end Sums

end StepPoints

/-! ### Intervals that keep clear of zeros -/

namespace Forbidden

/-- What is not forbidden of an interval: a height of zero at its start, at its last point or at any
of its points. -/
def KeepsClear (height : Int → Int) (start finish : Int) : Forbidden → Prop
  | .start => height start ≠ 0
  | .finish => height (finish - 1) ≠ 0
  | .extent => ∀ u, start ≤ u → u < finish → height u ≠ 0

/-- An interval keeps clear of the zeros of a function as the points of the interval do. -/
theorem clear_iff {what : Forbidden} {f : StepPoints} {start finish : Int}
    (hf : Ascending f.points.toList) (hpoints : ∀ p ∈ f.points.toList, Fits p.1)
    (hfinish : Fits finish) (hextent : what = .extent → start < finish) :
    what.clear f (start, finish) = true ↔ what.KeepsClear f.heightAt start finish := by
  cases what with
  | start => exact decide_eq_true_iff
  | finish =>
    rw [clear]
    by_cases hlast : Fits (finish - 1)
    · simp only [checked_of_fits hlast]
      exact decide_eq_true_iff
    · -- No point lies before the least time, so that the height there is zero.
      have hnone : (f.points.toList.filter fun p => p.1 ≤ finish - 1) = [] := by
        refine List.filter_eq_nil_iff.2 fun p hp => ?_
        have := (hpoints p hp).1
        simp only [Fits, intMin, intMax, decide_eq_true_eq] at *
        omega
      have hzero : f.heightAt (finish - 1) = 0 := by
        rw [StepPoints.heightAt_eq hf, hnone]
        rfl
      rw [checked_eq_none.2 hlast]
      exact iff_of_false nofun fun h => h hzero
  | extent =>
    rw [clear, if_neg (not_le.2 (hextent rfl)), StepPoints.nonzeroOver,
      StepPoints.nonzeroFrom_iff hf (StepPoints.ahead_lt_pieces f finish start).le]
    exact Iff.rfl

end Forbidden

namespace Model

open Query

variable {m : Model} {s : Solution} {id g : NodeId} {n fn : Node} {a : Arg} {start finish : Int}
  {points : List (Int × Int)} {what : Forbidden}

theorem pairs_map (id : NodeId) (n : Node) (points : List (Int × Int)) :
    pairs id n (points.map pointRow) = .answer points := by
  induction points with
  | nil => rfl
  | cons p points ih =>
    show (pairs id n (points.map pointRow) >>= fun ps => _) = _
    rw [ih]
    rfl

/-- A node that is a step function names the one through its points. -/
theorem stepPoints_node (hg : m.node? g = some fn) (ho : fn.operator = .stepFunction)
    (hv : fn.values = some (points.map pointRow)) :
    m.stepPoints (.node g) = .answer ⟨points.toArray⟩ := by
  show (m.lookup g >>= fun n => _) = _
  rw [lookup, node_eq_ok.2 hg]
  show (if fn.operator ≠ .stepFunction then _ else _ : Query StepPoints) = _
  rw [if_neg (not_not.2 ho), hv, Option.getD_some, pairs_map]
  rfl

/-- An interval that is present, as a node reads it. -/
theorem resolve_intervalAt {i : Nat} (ha : n.args[i]? = some a)
    (hvalue : m.argValue s a = .ok (.interval start finish)) :
    (n.intervalAt id i).resolve (m.value s) = .ok (some (start, finish)) := by
  rw [Node.intervalAt, resolve_arg_bind, ha]
  show (a.value >>= fun v => _).resolve (m.value s) = _
  rw [argValue] at hvalue
  rw [resolve_bind_eq, hvalue]
  rfl

theorem resolve_forbid (depth : Nat) (ho : n.operator = .forbid what) (ha : n.args[0]? = some a)
    (hg : n.args[1]? = some (.node g)) (hvalue : m.argValue s a = .ok (.interval start finish))
    (hfn : m.node? g = some fn) (hf : fn.operator = .stepFunction)
    (hv : fn.values = some (points.map pointRow)) :
    (m.constraintValue depth id n).resolve (m.value s) =
      .ok (some (what.clear ⟨points.toArray⟩ (start, finish))) := by
  rw [constraintValue, ho]
  show (n.intervalAt id 0 >>= fun interval => _).resolve (m.value s) = _
  rw [resolve_bind_eq, resolve_intervalAt ha hvalue]
  show (n.arg id 1 >>= fun a => _).resolve (m.value s) = _
  rw [resolve_arg_bind, hg]
  show (m.stepPoints (.node g) >>= fun f => _).resolve (m.value s) = _
  rw [stepPoints_node hfn hf hv]
  rfl

/-- A step function is found by halving and piece by piece, and it is as if looked at in every
point: it has the height of the last point up to a time, its sums are those of the heights at all
times of a range, and it covers a range when no height in it is zero; the loops over its pieces
reach the end of the range. What a constraint forbids about an interval that is present, it forbids
about the points of the interval. -/
theorem stepFunction_pointwise {rows : List (List Int)} (h : checkStepPoints rows = .ok ()) :
    ∃ points : List (Int × Int), rows = points.map pointRow ∧ Ascending points ∧
      let f : StepPoints := ⟨points.toArray⟩
      (∀ t, f.heightAt t = (((points.filter fun p => p.1 ≤ t).getLast?).map Prod.snd).getD 0) ∧
      (∀ start finish, finish ≤ start → f.sum? start finish = some 0) ∧
      (∀ start finish, f.SumFits start finish →
        f.sum? start finish =
          some (∑ k ∈ Finset.range (finish - start).toNat, f.heightAt (start + k))) ∧
      (∀ start finish, f.nonzeroOver start finish = true ↔
        ∀ u, start ≤ u → u < finish → f.heightAt u ≠ 0) ∧
      (∀ start finish, ∃ k ≤ points.length + 1,
        finish ≤ (fun t => f.pieceEnd t finish)^[k] start) ∧
      (∀ start finish more, f.sumFrom finish (f.pieces + more) start 0 = f.sum? start finish ∧
        f.nonzeroFrom finish (f.pieces + more) start = f.nonzeroOver start finish) ∧
      ∀ (m : Model) (s : Solution) (id g : NodeId) (n fn : Node) (what : Forbidden) (a : Arg)
        (start finish : Int), m.Obtained → m.node? id = some n → n.operator = .forbid what →
        n.args[0]? = some a → n.args[1]? = some (.node g) → m.node? g = some fn →
        fn.operator = .stepFunction → fn.values = some rows →
        m.argValue s a = .ok (.interval start finish) → (∀ p ∈ points, Fits p.1) → Fits finish →
        (what = .extent → start < finish) →
        ∃ v, m.evalConstraint s id = .ok (some v) ∧ m.eval s id = .ok (.bool v) ∧
          (v = true ↔ what.KeepsClear f.heightAt start finish) := by
  obtain ⟨points, rfl, hf⟩ := checkStepPoints_ok.1 h
  refine ⟨points, rfl, hf, ?_⟩
  intro f
  have hahead (start finish : Int) : f.ahead finish start ≤ f.pieces :=
    (f.ahead_lt_pieces finish start).le
  refine ⟨StepPoints.heightAt_eq hf, fun start finish hle => ?_,
    fun start finish => StepPoints.sum?_eq hf,
    fun start finish => StepPoints.nonzeroFrom_iff hf (hahead start finish),
    fun start finish => ⟨f.ahead finish start, ?_, StepPoints.le_iterate_pieceEnd hf le_rfl⟩,
    fun start finish more => ⟨StepPoints.sumFrom_add hf more (hahead start finish), ?_⟩, ?_⟩
  · rw [StepPoints.sum?, StepPoints.pieces, StepPoints.sumFrom, if_neg (not_lt.2 hle)]
  · exact Nat.le_of_lt_succ (f.ahead_lt_pieces finish start)
  · have hmore : f.ahead finish start ≤ f.pieces + more := by
      have := hahead start finish
      omega
    rw [Bool.eq_iff_iff, StepPoints.nonzeroOver, StepPoints.nonzeroFrom_iff hf hmore,
      StepPoints.nonzeroFrom_iff hf (hahead start finish)]
  · intro m s id g n fn what a start finish hm hn ho ha hg hfn hfo hv hvalue hpoints hfinish hextent
    refine ⟨what.clear f (start, finish), ?_, ?_, Forbidden.clear_iff hf hpoints hfinish hextent⟩
    · have hholds := agree_constraintValue (s := s) hm.sound hn (by rw [ho]; rfl)
      rw [resolve_forbid m.nodes.size ho ha hg hvalue hfn hfo hv] at hholds
      exact (hholds.ok_iff _).2 rfl
    · have heval := agree_nodeValue (s := s) hm.sound hn
      rw [nodeValue, ho] at heval
      have hresolve : (do .answer (Value.ofBool? (← m.constraintValue m.nodes.size id n)) :
          Query Value).resolve (m.value s) = .ok (.bool (what.clear f (start, finish))) := by
        rw [resolve_bind_eq, resolve_forbid m.nodes.size ho ha hg hvalue hfn hfo hv]
        rfl
      exact (heval.ok_iff _).2 hresolve

/-- An interval that may not meet the zeros of a function of shifts, and may not end in one. -/
def shifts : List Call :=
  [.intervalVar ⟨.none, none, none⟩, .stepFunction [(0, 2), (4, 0), (6, 5)],
    .forbid .extent ⟨0, 0⟩ ⟨0, 1⟩, .forbid .finish ⟨0, 0⟩ ⟨0, 1⟩]

/-- The interval lasts from the first shift to the second one. -/
def shiftsSolution : Solution := Solution.empty.set ⟨0, 0⟩ (.interval 2 8)

theorem stepFunction_pointwise_shifts :
    let f : StepPoints := ⟨#[(0, 2), (4, 0), (6, 5)]⟩
    let m := (empty 0 none).calls shifts
    f.sum? 2 8 = some (∑ k ∈ Finset.range 6, f.heightAt (2 + k)) ∧
      m.evalConstraint shiftsSolution ⟨0, 2⟩ = .ok (some false) ∧
      m.evalConstraint shiftsSolution ⟨0, 3⟩ = .ok (some true) := by
  intro f m
  have hm : m.Obtained := (Obtained.empty 0 none).calls shifts
  have hrows : checkStepPoints [[0, 2], [4, 0], [6, 5]] = .ok () := by rfl
  obtain ⟨points, hpoints, -, hall⟩ := stepFunction_pointwise hrows
  obtain rfl : points = [(0, 2), (4, 0), (6, 5)] := by
    refine (List.map_inj_right fun _ _ => pointRow_injective).1 (hpoints.symm.trans ?_)
    rfl
  obtain ⟨-, -, hsum, -, -, -, hforbid⟩ := hall
  have hfits : f.SumFits 2 8 := by
    intro a b hpiece
    have hsmall : ∀ a ∈ Finset.Ico 2 8, ∀ b ∈ Finset.Ioc 2 8,
        Fits (b - a) ∧ Fits (f.heightAt a * (b - a)) ∧ Fits (f.total 2 b) := by decide +kernel
    have := hpiece.le
    have := hpiece.lt
    have := hpiece.ends
    exact hsmall a (Finset.mem_Ico.2 (by omega)) b (Finset.mem_Ioc.2 (by omega))
  have hvalue : m.argValue shiftsSolution (.node ⟨0, 0⟩) = .ok (.interval 2 8) := by
    decide +kernel
  have hwithin : ∀ p ∈ [((0 : Int), (2 : Int)), (4, 0), (6, 5)], Fits p.1 := by decide
  obtain ⟨v, hv, -, hv'⟩ := hforbid m shiftsSolution ⟨0, 2⟩ ⟨0, 1⟩ _ _ .extent (.node ⟨0, 0⟩) 2 8 hm
    rfl rfl rfl rfl rfl rfl rfl hvalue hwithin (by decide) (fun _ => by decide)
  obtain ⟨w, hw, -, hw'⟩ := hforbid m shiftsSolution ⟨0, 3⟩ ⟨0, 1⟩ _ _ .finish (.node ⟨0, 0⟩) 2 8 hm
    rfl rfl rfl rfl rfl rfl rfl hvalue hwithin (by decide) nofun
  obtain rfl : v = false := by
    refine Bool.eq_false_iff.2 fun htrue => hv'.1 htrue 4 (by decide) (by decide) ?_
    rfl
  obtain rfl : w = true := hw'.2 (show f.heightAt 7 ≠ 0 by decide)
  exact ⟨hsum 2 8 hfits, hv, hw⟩

end Model

end Scheduling
