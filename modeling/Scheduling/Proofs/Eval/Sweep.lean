import Mathlib.Algebra.BigOperators.Group.List.Basic
import Mathlib.Algebra.Ring.Int.Defs
import Mathlib.Data.List.Sort
import Scheduling.Eval.Node

/-!
# Levels of changes

The level at a time is the sum of all changes up to the time. A sweep over the changes in order of
time tests the level at every time, not only at those of the changes (`staysWithin_iff`). The levels
in between, while the changes of one time are made, are those of a cut: all changes before a time,
and those at the time that stand among the first ones of the list (`exists_cut`). Only a stable
order makes this true.
-/

namespace Scheduling

namespace Model

variable {cs ds l p : List Change} {t : Int} {k : Nat}

/-- The sum of changes. -/
def total (cs : List Change) : Int := (cs.map Prod.snd).sum

/-- The sum of the changes up to a time. -/
def levelAt (t : Int) (cs : List Change) : Int := total (cs.filter fun c => decide (c.1 ≤ t))

/-- The sum of the changes before a time, and of those at the time among the first ones. -/
def cut (t : Int) (k : Nat) (cs : List Change) : Int :=
  total (cs.filter fun c => decide (c.1 < t))
    + total ((cs.take k).filter fun c => decide (c.1 = t))

@[simp] theorem total_nil : total [] = 0 := rfl

@[simp] theorem total_cons (c : Change) (cs : List Change) : total (c :: cs) = c.2 + total cs := rfl

@[simp] theorem total_append : total (cs ++ ds) = total cs + total ds := by
  rw [total, List.map_append, List.sum_append]
  rfl

theorem total_perm (h : cs.Perm ds) : total cs = total ds := (h.map Prod.snd).sum_eq

theorem levelAt_cons (c : Change) (cs : List Change) :
    levelAt t (c :: cs) = (if c.1 ≤ t then c.2 else 0) + levelAt t cs := by
  by_cases h : c.1 ≤ t <;> simp [levelAt, h]

theorem levelAt_append : levelAt t (cs ++ ds) = levelAt t cs + levelAt t ds := by
  simp [levelAt]

theorem levelAt_perm (h : cs.Perm ds) : levelAt t cs = levelAt t ds := total_perm (h.filter _)

theorem levelAt_eq_zero (h : ∀ c ∈ cs, t < c.1) : levelAt t cs = 0 := by
  have hnone : cs.filter (fun c => decide (c.1 ≤ t)) = [] :=
    List.filter_eq_nil_iff.2 fun c hc => by simpa using h c hc
  rw [levelAt, hnone, total_nil]

/-! ### The order of time -/

/-- Whether a change is not after another one. -/
def notAfter (c d : Change) : Bool := decide (c.1 ≤ d.1)

theorem notAfter_trans (a b c : Change) (h : notAfter a b = true) (h' : notAfter b c = true) :
    notAfter a c = true := by
  simp only [notAfter, decide_eq_true_eq] at *
  omega

theorem notAfter_total (a b : Change) : (notAfter a b || notAfter b a) = true := by
  simp only [notAfter, Bool.or_eq_true, decide_eq_true_eq]
  omega

/-- Changes in order of time. -/
def Ordered (cs : List Change) : Prop := cs.Pairwise fun c d => c.1 ≤ d.1

theorem ordered_mergeSort (cs : List Change) : Ordered (cs.mergeSort notAfter) :=
  (List.pairwise_mergeSort notAfter_trans notAfter_total cs).imp fun h => by
    simpa [notAfter] using h

/-- Changes at one time keep their order. -/
theorem filter_mergeSort (cs : List Change) (t : Int) :
    (cs.mergeSort notAfter).filter (fun c => decide (c.1 = t)) =
      cs.filter fun c => decide (c.1 = t) := by
  have hsame : (cs.filter fun c => decide (c.1 = t)).Pairwise fun a b => notAfter a b = true := by
    refine List.pairwise_iff_forall_sublist.2 fun {a b} hab => ?_
    have ha := (List.mem_filter.1 (hab.subset (List.mem_cons_self))).2
    have hb := (List.mem_filter.1 (hab.subset (List.mem_cons_of_mem _ List.mem_cons_self))).2
    simp only [notAfter, decide_eq_true_eq] at *
    omega
  have hsub := (List.sublist_mergeSort notAfter_trans notAfter_total hsame
    List.filter_sublist).filter fun c => decide (c.1 = t)
  rw [List.filter_filter, List.filter_congr (q := fun c => decide (c.1 = t)) (by simp)] at hsub
  exact (hsub.eq_of_length ((List.mergeSort_perm cs notAfter).filter _).length_eq.symm).symm

/-! ### The levels in between -/

theorem exists_take_filter {q : Change → Bool} (h : p <+: cs.filter q) :
    ∃ k, p = (cs.take k).filter q := by
  induction cs generalizing p with
  | nil => exact ⟨0, List.prefix_nil.1 h⟩
  | cons c cs ih =>
    by_cases hc : q c
    · rw [List.filter_cons_of_pos hc] at h
      obtain rfl | ⟨p, rfl, hp⟩ := List.prefix_cons_iff.1 h
      · exact ⟨0, rfl⟩
      · obtain ⟨k, rfl⟩ := ih hp
        exact ⟨k + 1, by rw [List.take_succ_cons, List.filter_cons_of_pos hc]⟩
    · rw [List.filter_cons_of_neg hc] at h
      obtain ⟨k, rfl⟩ := ih h
      exact ⟨k + 1, by rw [List.take_succ_cons, List.filter_cons_of_neg hc]⟩

theorem total_split (t : Int) (h : ∀ c ∈ p, c.1 ≤ t) : total p =
    total (p.filter fun c => decide (c.1 < t)) + total (p.filter fun c => decide (c.1 = t)) := by
  have hrest : p.filter (fun c => decide (c.1 = t)) = p.filter fun c => !decide (c.1 < t) := by
    refine List.filter_congr fun c hc => ?_
    have := h c hc
    rw [← decide_not, decide_eq_decide]
    omega
  rw [hrest, ← total_append]
  exact (total_perm (List.filter_append_perm (fun c => decide (c.1 < t)) p)).symm

/-- What is summed up when the first changes in order of time are made is a cut. -/
theorem exists_cut (hp : p <+: cs.mergeSort notAfter) : ∃ t k, total p = cut t k cs := by
  obtain ⟨rest, hrest⟩ := hp
  have hordered := ordered_mergeSort cs
  rw [← hrest] at hordered
  obtain ⟨hfirst, -, hlater⟩ := List.pairwise_append.1 hordered
  -- The cut is at the time of the last change that is made.
  obtain ⟨t, hle, hge⟩ : ∃ t, (∀ c ∈ p, c.1 ≤ t) ∧ ∀ c ∈ rest, t ≤ c.1 := by
    obtain rfl | ⟨q, c, rfl⟩ := p.eq_nil_or_concat
    · cases rest with
      | nil => exact ⟨0, by simp, by simp⟩
      | cons c rest =>
        rw [List.nil_append] at hordered
        exact ⟨c.1, by simp,
          List.forall_mem_cons.2 ⟨Int.le_refl _, (List.pairwise_cons.1 hordered).1⟩⟩
    · rw [List.concat_eq_append] at hfirst hlater ⊢
      refine ⟨c.1, fun d hd => ?_, fun d hd => hlater c (by simp) d hd⟩
      obtain hd | hd := List.mem_append.1 hd
      · exact (List.pairwise_append.1 hfirst).2.2 d hd c (by simp)
      · rw [List.mem_singleton.1 hd]
  have hbefore : p.filter (fun c => decide (c.1 < t)) =
      (cs.mergeSort notAfter).filter fun c => decide (c.1 < t) := by
    have hnone : rest.filter (fun c => decide (c.1 < t)) = [] :=
      List.filter_eq_nil_iff.2 fun c hc => by simpa using hge c hc
    rw [← hrest, List.filter_append, hnone, List.append_nil]
  have hat : p.filter (fun c => decide (c.1 = t)) <+: cs.filter fun c => decide (c.1 = t) := by
    rw [← filter_mergeSort cs, ← hrest, List.filter_append]
    exact List.prefix_append _ _
  obtain ⟨k, hk⟩ := exists_take_filter hat
  refine ⟨t, k, ?_⟩
  rw [total_split t hle, hbefore, hk, cut,
    total_perm ((List.mergeSort_perm cs notAfter).filter fun c => decide (c.1 < t))]

/-! ### The sweep -/

/-- From the first change on, the sweep tests the level of every time. -/
theorem staysWithin_cons {within : Int → Bool} (c : Change) (cs : List Change) (level : Int)
    (hordered : Ordered (c :: cs)) (hfits : ∀ p, p <+: c :: cs → Fits (level + total p)) :
    staysWithin within level (c :: cs) = true ↔
      ∀ t, c.1 ≤ t → within (level + levelAt t (c :: cs)) = true := by
  induction cs generalizing c level with
  | nil =>
    have hfit : saturated (level + c.2) = level + c.2 :=
      saturated_of_fits (by simpa using hfits [c] (List.prefix_refl _))
    have hlevel (t : Int) (ht : c.1 ≤ t) : levelAt t [c] = c.2 := by simp [levelAt, ht]
    rw [staysWithin, hfit]
    refine ⟨fun h t ht => by rw [hlevel t ht]; exact h, fun h => ?_⟩
    have := h c.1 (Int.le_refl _)
    rwa [hlevel c.1 (Int.le_refl _)] at this
  | cons d cs ih =>
    obtain ⟨hfirst, hrest⟩ := List.pairwise_cons.1 hordered
    have hcd : c.1 ≤ d.1 := hfirst d List.mem_cons_self
    have hfit : saturated (level + c.2) = level + c.2 :=
      saturated_of_fits (by simpa using hfits [c] ⟨d :: cs, rfl⟩)
    have hlater := ih d (level + c.2) hrest fun p hp => by
      have := hfits (c :: p) (List.cons_prefix_cons.2 ⟨rfl, hp⟩)
      rwa [total_cons, ← Int.add_assoc] at this
    have hlevel (t : Int) (ht : c.1 ≤ t) :
        level + levelAt t (c :: d :: cs) = level + c.2 + levelAt t (d :: cs) := by
      rw [levelAt_cons, if_pos ht]
      omega
    have hgap (t : Int) (ht : t < d.1) : levelAt t (d :: cs) = 0 := levelAt_eq_zero fun e he => by
      obtain rfl | he := List.mem_cons.1 he
      · exact ht
      · exact Int.lt_of_lt_of_le ht ((List.pairwise_cons.1 hrest).1 e he)
    obtain ⟨u, δ⟩ := c
    obtain ⟨v, ε⟩ := d
    simp only [staysWithin, hfit, Bool.and_eq_true, Bool.or_eq_true, decide_eq_true_eq, hlater]
    refine ⟨fun ⟨hnow, hthen⟩ t ht => ?_, fun h => ⟨?_, fun t ht => ?_⟩⟩
    · rw [hlevel t ht]
      by_cases hv : v ≤ t
      · exact hthen t hv
      · rw [hgap t (by simpa using hv), Int.add_zero]
        obtain rfl | hnow := hnow
        · exact absurd ht hv
        · exact hnow
    · by_cases huv : u = v
      · exact .inl huv
      · refine .inr ?_
        have := h u (Int.le_refl _)
        rwa [hlevel u (Int.le_refl _), hgap u (by simp only at hcd; omega), Int.add_zero] at this
    · rw [← hlevel t (by simp only at hcd ht ⊢; omega)]
      exact h t (by simp only at hcd ht ⊢; omega)

/-- The levels before all changes and after each of them are within a bound exactly when the levels
of all times are. -/
theorem staysWithin_iff {within : Int → Bool} (hfits : ∀ t k, Fits (cut t k cs)) :
    (within 0 = true ∧ staysWithin within 0 (cs.mergeSort notAfter) = true) ↔
      ∀ t, within (levelAt t cs) = true := by
  have hlevel (t : Int) : levelAt t (cs.mergeSort notAfter) = levelAt t cs :=
    levelAt_perm (List.mergeSort_perm cs notAfter)
  have hprefix (p : List Change) (hp : p <+: cs.mergeSort notAfter) : Fits (0 + total p) := by
    obtain ⟨t, k, ht⟩ := exists_cut hp
    rw [ht, Int.zero_add]
    exact hfits t k
  have hordered := ordered_mergeSort cs
  simp only [← hlevel]
  generalize cs.mergeSort notAfter = l at hordered hprefix ⊢
  cases l with
  | nil => simp [staysWithin, levelAt]
  | cons c l =>
    have hstart : ∀ t < c.1, levelAt t (c :: l) = 0 := fun t ht => levelAt_eq_zero fun d hd => by
      obtain rfl | hd := List.mem_cons.1 hd
      · exact ht
      · exact Int.lt_of_lt_of_le ht ((List.pairwise_cons.1 hordered).1 d hd)
    rw [staysWithin_cons c l 0 hordered hprefix]
    simp only [Int.zero_add]
    refine ⟨fun ⟨hzero, h⟩ t => ?_, fun h => ⟨?_, fun t _ => h t⟩⟩
    · by_cases ht : c.1 ≤ t
      · exact h t ht
      · rw [hstart t (by omega)]
        exact hzero
    · have := h (c.1 - 1)
      rwa [hstart (c.1 - 1) (by omega)] at this

end Model

end Scheduling
