import Scheduling.Proofs.Eval.Sweep

/-!
# Cumulative functions of time

A cumulative function is a tree of pulses and steps, and its level at a time is defined by recursion
over the tree (`Cumulative.level`). Its changes have the same level at every time
(`levelAt_changes`), and no level that a sweep passes through is greater than the sum of the heights
(`natAbs_cut_changes`): a pulse adds its height once, however its two changes are cut apart. The
changes are found unless one of those that are turned cannot be turned in 64 bits
(`found_eq_overflow`).
-/

namespace Scheduling

open Model

/-- A cumulative function of time. -/
inductive Cumulative where
  | zero
  | pulse (start finish height : Int)
  | step (time height : Int)
  | plus (a b : Cumulative)
  | minus (a b : Cumulative)
  | neg (a : Cumulative)
deriving DecidableEq, Repr

namespace Cumulative

/-- The level at a time. A pulse has its height from its start to before its end, a step from its
time on. -/
def level : Cumulative → Int → Int
  | zero, _ => 0
  | pulse start finish height, t => if start ≤ t ∧ t < finish then height else 0
  | step time height, t => if time ≤ t then height else 0
  | plus a b, t => a.level t + b.level t
  | minus a b, t => a.level t - b.level t
  | neg a, t => -a.level t

/-- The sum of the absolute values of all heights. -/
def weight : Cumulative → Nat
  | zero => 0
  | pulse _ _ height | step _ height => height.natAbs
  | plus a b | minus a b => a.weight + b.weight
  | neg a => a.weight

/-- No pulse ends before it starts. -/
def Proper : Cumulative → Prop
  | zero | step _ _ => True
  | pulse start finish _ => start ≤ finish
  | plus a b | minus a b => a.Proper ∧ b.Proper
  | neg a => a.Proper

/-- The changes of a cumulative function, part by part. -/
def changes : Cumulative → List Change
  | zero => []
  | pulse start finish height => [(start, height), (finish, -height)]
  | step time height => [(time, height)]
  | plus a b => a.changes ++ b.changes
  | minus a b => a.changes ++ b.changes.map fun c => (c.1, -c.2)
  | neg a => a.changes.map fun c => (c.1, -c.2)

/-- The changes whose signs are turned while the changes of a cumulative function are found: every
pulse turns its height, and what is taken away is turned change by change. -/
def turned : Cumulative → List Int
  | zero | step _ _ => []
  | pulse _ _ height => [height]
  | plus a b => a.turned ++ b.turned
  | minus a b => a.turned ++ b.turned ++ b.changes.map Prod.snd
  | neg a => a.turned ++ a.changes.map Prod.snd

/-- What is found for a cumulative function: its changes, or an overflow when one cannot be turned in
64 bits. -/
def found (c : Cumulative) : Except EvalError (List Change) :=
  if ∀ d ∈ c.turned, Fits (-d) then .ok c.changes else .error .overflow

variable {c : Cumulative} {t : Int} {k : Nat}

/-! ### Levels of changes -/

theorem total_neg (cs : List Change) : total (cs.map fun c => (c.1, -c.2)) = -total cs := by
  induction cs with
  | nil => rfl
  | cons c cs ih =>
    rw [List.map_cons, total_cons, total_cons, ih]
    omega

theorem filter_neg (q : Int → Bool) (cs : List Change) :
    (cs.map fun c => (c.1, -c.2)).filter (fun c => q c.1) =
      (cs.filter fun c => q c.1).map fun c => (c.1, -c.2) := by
  rw [List.filter_map]
  rfl

theorem levelAt_neg (cs : List Change) :
    levelAt t (cs.map fun c => (c.1, -c.2)) = -levelAt t cs := by
  rw [levelAt, filter_neg (fun u => decide (u ≤ t)), total_neg]
  rfl

theorem cut_neg (cs : List Change) : cut t k (cs.map fun c => (c.1, -c.2)) = -cut t k cs := by
  rw [cut, ← List.map_take, filter_neg (fun u => decide (u < t)),
    filter_neg (fun u => decide (u = t)), total_neg, total_neg, cut]
  omega

theorem cut_append (cs ds : List Change) :
    cut t k (cs ++ ds) = cut t k cs + cut t (k - cs.length) ds := by
  simp only [cut, List.filter_append, List.take_append, total_append]
  omega

/-- No change is greater than the sum of the heights. -/
theorem natAbs_change_le : ∀ d ∈ c.changes, d.2.natAbs ≤ c.weight := by
  induction c with
  | zero => exact nofun
  | pulse start finish height => simp [changes, weight]
  | step time height => simp [changes, weight]
  | plus a b iha ihb =>
    intro d hd
    obtain hd | hd := List.mem_append.1 hd
    · exact Nat.le_trans (iha d hd) (Nat.le_add_right _ _)
    · exact Nat.le_trans (ihb d hd) (Nat.le_add_left _ _)
  | minus a b iha ihb =>
    intro d hd
    obtain hd | hd := List.mem_append.1 hd
    · exact Nat.le_trans (iha d hd) (Nat.le_add_right _ _)
    · obtain ⟨e, he, rfl⟩ := List.mem_map.1 hd
      rw [Int.natAbs_neg]
      exact Nat.le_trans (ihb e he) (Nat.le_add_left _ _)
  | neg a iha =>
    intro d hd
    obtain ⟨e, he, rfl⟩ := List.mem_map.1 hd
    rw [Int.natAbs_neg]
    exact iha e he

/-- No turned change is greater than the sum of the heights. -/
theorem natAbs_turned_le : ∀ d ∈ c.turned, d.natAbs ≤ c.weight := by
  have hchanges (a : Cumulative) : ∀ d ∈ a.changes.map Prod.snd, d.natAbs ≤ a.weight :=
    List.forall_mem_map.2 a.natAbs_change_le
  induction c with
  | zero | step time height => exact nofun
  | pulse start finish height => simp [turned, weight]
  | plus a b iha ihb =>
    simp only [turned, weight, List.forall_mem_append]
    exact ⟨fun d hd => (iha d hd).trans (Nat.le_add_right _ _),
      fun d hd => (ihb d hd).trans (Nat.le_add_left _ _)⟩
  | minus a b iha ihb =>
    simp only [turned, weight, List.forall_mem_append]
    exact ⟨⟨fun d hd => (iha d hd).trans (Nat.le_add_right _ _),
      fun d hd => (ihb d hd).trans (Nat.le_add_left _ _)⟩,
      fun d hd => (hchanges b d hd).trans (Nat.le_add_left _ _)⟩
  | neg a iha =>
    simp only [turned, weight, List.forall_mem_append]
    exact ⟨iha, hchanges a⟩

/-- The changes are found when the heights are not too great. -/
theorem found_of_weight (h : (c.weight : Int) ≤ intMax) : c.found = .ok c.changes := by
  refine if_pos fun d hd => ?_
  have := natAbs_turned_le d hd
  unfold Fits intMin
  unfold intMax at *
  omega

/-- A pulse is found when its height can be turned. -/
theorem found_pulse (start finish height : Int) : (pulse start finish height).found =
    if Fits (-height) then .ok [(start, height), (finish, -height)] else .error .overflow := by
  simp only [found, turned, List.forall_mem_singleton]
  rfl

/-- Once the parts of a difference are found, the changes of the second one have to be turned. -/
theorem found_minus {a b : Cumulative} (h : ∀ d ∈ a.turned ++ b.turned, Fits (-d)) :
    (minus a b).found = if ∀ d ∈ b.changes.map Prod.snd, Fits (-d) then .ok (minus a b).changes
      else .error .overflow := by
  have hturned : (∀ d ∈ (minus a b).turned, Fits (-d)) ↔
      ∀ d ∈ b.changes.map Prod.snd, Fits (-d) := List.forall_mem_append.trans (and_iff_right h)
  simp only [found, hturned]

theorem found_neg {a : Cumulative} (h : ∀ d ∈ a.turned, Fits (-d)) :
    (neg a).found = if ∀ d ∈ a.changes.map Prod.snd, Fits (-d) then .ok (neg a).changes
      else .error .overflow := by
  simp only [found, turned, List.forall_mem_append, and_iff_right h]

theorem found_eq_overflow : c.found = .error .overflow ↔ ∃ d ∈ c.turned, ¬ Fits (-d) := by
  unfold found
  split
  · rename_i h
    exact iff_of_false nofun fun ⟨d, hd, hnot⟩ => hnot (h d hd)
  · rename_i h
    simpa using h

/-- The changes of a cumulative function have its level at every time. -/
theorem levelAt_changes (h : c.Proper) : levelAt t c.changes = c.level t := by
  induction c with
  | zero => rfl
  | pulse start finish height =>
    have h : start ≤ finish := h
    have hnil : levelAt t [] = 0 := rfl
    rw [changes, levelAt_cons, levelAt_cons, hnil, level]
    simp only
    split_ifs <;> omega
  | step time height =>
    have hnil : levelAt t [] = 0 := rfl
    rw [changes, levelAt_cons, hnil, level, Int.add_zero]
  | plus a b iha ihb => rw [changes, levelAt_append, iha h.1, ihb h.2, level]
  | minus a b iha ihb =>
    rw [changes, levelAt_append, levelAt_neg, iha h.1, ihb h.2, level]
    omega
  | neg a iha => rw [changes, levelAt_neg, iha h, level]

/-- However changes are cut apart, what is summed up is not greater than the sum of the heights. -/
theorem natAbs_cut_changes (h : c.Proper) (t : Int) (k : Nat) :
    (cut t k c.changes).natAbs ≤ c.weight := by
  induction c generalizing k with
  | zero => simp [changes, cut]
  | pulse start finish height =>
    have h : start ≤ finish := h
    -- A pulse counts in full, or is over, or has not begun.
    have hcut : cut t k (changes (pulse start finish height)) = 0 ∨
        cut t k (changes (pulse start finish height)) = height := by
      obtain _ | _ | k := k <;>
        simp only [changes, cut, List.take_zero, List.take_succ_cons, List.take_nil,
          List.filter_cons, List.filter_nil, decide_eq_true_eq] <;>
        split_ifs <;> (simp only [total_cons, total_nil]; omega)
    obtain h | h := hcut <;> rw [h] <;> simp [weight]
  | step time height =>
    obtain _ | k := k <;>
      simp only [changes, cut, List.take_zero, List.take_succ_cons, List.take_nil,
        List.filter_cons, List.filter_nil, decide_eq_true_eq] <;>
      split_ifs <;> (simp only [total_cons, total_nil, weight]; omega)
  | plus a b iha ihb =>
    have ha := iha h.1 k
    have hb := ihb h.2 (k - a.changes.length)
    rw [changes, cut_append, weight]
    omega
  | minus a b iha ihb =>
    have ha := iha h.1 k
    have hb := ihb h.2 (k - a.changes.length)
    rw [changes, cut_append, cut_neg, weight]
    omega
  | neg a iha =>
    rw [changes, cut_neg, Int.natAbs_neg]
    exact iha h k

end Cumulative

end Scheduling
