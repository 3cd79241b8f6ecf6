import Mathlib.Order.Bounds.Basic
import Scheduling.Proofs.Eval.Reading

/-!
# Aggregates

An aggregate drops the operands that are absent. The least and the greatest of the others do not
depend on their order. A sum is exact, but it adds from left to right in 64 bits, so it is absent when
a partial sum does not fit, also where the whole one does (`Aggregate.sumInts?_eq_some`). It is
present in every order of the operands when the positive ones together fit and the negative ones do
(`Aggregate.forall_perm_partialSumsFit`).
-/

namespace Scheduling

open Query (resolve_bind_eq)

namespace Aggregate

variable {op : Aggregate} {vs ws : List Int} {total v : Int}

/-! ### Sums -/

/-- All sums of the first integers fit in 64 bits. -/
def PartialSumsFit (vs : List Int) : Prop := ∀ ws, ws <+: vs → Fits ws.sum

/-- The sum from a total on is exact, and there when all partial sums fit. -/
theorem sumInts?_eq_some (h : Fits total) :
    sumInts? total vs = some v ↔ v = total + vs.sum ∧ ∀ ws, ws <+: vs → Fits (total + ws.sum) := by
  induction vs generalizing total with
  | nil =>
    rw [sumInts?, Option.some.injEq, List.sum_nil, add_zero, eq_comm]
    refine (and_iff_left fun ws hws => ?_).symm
    rwa [List.prefix_nil.1 hws, List.sum_nil, add_zero]
  | cons w vs ih =>
    have hprefixes : (∀ ws, ws <+: w :: vs → Fits (total + ws.sum)) ↔
        Fits (total + w) ∧ ∀ ws, ws <+: vs → Fits (total + w + ws.sum) := by
      constructor
      · intro hall
        refine ⟨?_, fun ws hws => ?_⟩
        · simpa using hall [w] ⟨vs, rfl⟩
        · simpa [add_assoc] using hall (w :: ws) (List.cons_prefix_cons.2 ⟨rfl, hws⟩)
      · rintro ⟨-, hall⟩ ws hws
        obtain rfl | ⟨us, rfl, hus⟩ := List.prefix_cons_iff.1 hws
        · simpa using h
        · simpa [add_assoc] using hall us hus
    rw [sumInts?, hprefixes, List.sum_cons, ← add_assoc]
    cases hw : checked (total + w) with
    | none => exact iff_of_false nofun fun hall => checked_eq_none.1 hw hall.2.1
    | some t =>
      obtain ⟨hfits, rfl⟩ := checked_eq_some.1 hw
      dsimp only
      rw [ih hfits, and_iff_right hfits]

theorem ints?_sum_eq_some : ints? .sum vs = some v ↔ v = vs.sum ∧ PartialSumsFit vs := by
  rw [ints?, sumInts?_eq_some (by decide), PartialSumsFit]
  simp only [zero_add]

theorem ints?_sum_eq_none : ints? .sum vs = none ↔ ¬ PartialSumsFit vs := by
  rw [Option.eq_none_iff_forall_ne_some]
  simp only [ne_eq, ints?_sum_eq_some, not_and, forall_eq]

/-- Some of the integers add up to no more than the positive ones, and to no less than the negative
ones. -/
theorem sum_bounds_of_sublist (h : ws.Sublist vs) :
    (vs.filter (· < 0)).sum ≤ ws.sum ∧ ws.sum ≤ (vs.filter (0 < ·)).sum := by
  induction h with
  | slnil => exact ⟨le_rfl, le_rfl⟩
  | cons v _ ih =>
    simp only [List.filter_cons, decide_eq_true_eq, apply_ite List.sum, List.sum_cons]
    split_ifs <;> omega
  | cons_cons v _ ih =>
    simp only [List.filter_cons, decide_eq_true_eq, apply_ite List.sum, List.sum_cons]
    split_ifs <;> omega

/-- A sum is there in every order exactly when the positive integers together fit and the negative
ones do. -/
theorem forall_perm_partialSumsFit : (∀ ws, ws.Perm vs → PartialSumsFit ws) ↔
    (vs.filter (0 < ·)).sum ≤ intMax ∧ intMin ≤ (vs.filter (· < 0)).sum := by
  constructor
  · intro hall
    -- The integers that a test picks can come first.
    have hfirst (p : Int → Bool) : Fits (vs.filter p).sum :=
      hall _ (List.filter_append_perm p vs) _ (List.prefix_append _ _)
    exact ⟨(hfirst _).2, (hfirst _).1⟩
  · rintro ⟨hmax, hmin⟩ ws hperm us hus
    obtain ⟨hlow, hhigh⟩ := sum_bounds_of_sublist hus.sublist
    rw [(hperm.filter _).sum_eq] at hlow hhigh
    exact ⟨hmin.trans hlow, hhigh.trans hmax⟩

/-! ### The least and the greatest -/

theorem ints?_min_eq_some : ints? .min vs = some v ↔ IsLeast {w | w ∈ vs} v :=
  List.min?_eq_some_iff

theorem ints?_max_eq_some : ints? .max vs = some v ↔ IsGreatest {w | w ∈ vs} v :=
  List.max?_eq_some_iff

/-! ### Order -/

/-- The order of the integers does not matter, unless partial sums of another order do not fit. -/
theorem ints?_perm (h : ws.Perm vs) (hsum : op = .sum → ∀ us, us.Perm vs → PartialSumsFit us) :
    op.ints? ws = op.ints? vs := by
  cases op with
  | sum =>
    have hfits := hsum rfl
    rw [ints?_sum_eq_some.2 ⟨rfl, hfits ws h⟩, ints?_sum_eq_some.2 ⟨rfl, hfits vs (.refl _)⟩,
      h.sum_eq]
  | min =>
    refine Option.ext fun v => ?_
    rw [ints?_min_eq_some, ints?_min_eq_some]
    simp only [h.mem_iff]
  | max =>
    refine Option.ext fun v => ?_
    rw [ints?_max_eq_some, ints?_max_eq_some]
    simp only [h.mem_iff]

end Aggregate

namespace Model

variable {m : Model} {s : Solution} {id : NodeId} {n : Node} {op : Aggregate} {items : List Arg}
  {os : List (Option Int)}

/-- An aggregate is one of the operands that are present. -/
theorem eval_aggregate (h : Sound m) (hn : m.node? id = some n) (ho : n.operator = .intAggregate op)
    (hitems : n.args[0]? = some (.list items)) (hos : List.Forall₂ (m.Reads s Value.int?) items os) :
    m.eval s id = .ok (.ofInt? (op.ints? (present os))) := by
  have hlist : n.listArg id 0 = .answer items := by
    rw [Node.listArg, Node.arg, hitems]
    rfl
  rw [eval_node h hn, nodeValue, ho]
  show (n.listArg id 0 >>= fun items => _).resolve (m.value s) = _
  rw [hlist]
  show (n.presentOf _ _ id items >>= fun vs => _).resolve (m.value s) = _
  rw [resolve_bind_eq, resolve_presentOf rfl hos]
  rfl

/-- The least and the greatest operand that is present, absent when none is, do not depend on the
order of the operands. A sum adds those that are present exactly, and is absent when a partial sum
from left to right does not fit in 64 bits. It does not depend on the order when the positive ones
together fit and the negative ones do, and only then is it there in every order. -/
theorem aggregate_value (hm : m.Obtained) (hn : m.node? id = some n)
    (ho : n.operator = .intAggregate op) (hitems : n.args[0]? = some (.list items))
    (hos : List.Forall₂ (m.Reads s Value.int?) items os) :
    let vs := present os
    ∃ o : Option Int, m.eval s id = .ok (.ofInt? o) ∧
      (op = .min → (∀ v, o = some v ↔ IsLeast {w | w ∈ vs} v) ∧ (o = none ↔ vs = [])) ∧
      (op = .max → (∀ v, o = some v ↔ IsGreatest {w | w ∈ vs} v) ∧ (o = none ↔ vs = [])) ∧
      (op = .sum → (∀ v, o = some v ↔ v = vs.sum ∧ Aggregate.PartialSumsFit vs) ∧
        (o = none ↔ ¬ Aggregate.PartialSumsFit vs)) ∧
      ((∀ ws, ws.Perm vs → Aggregate.PartialSumsFit ws) ↔
        (vs.filter (0 < ·)).sum ≤ intMax ∧ intMin ≤ (vs.filter (· < 0)).sum) ∧
      ∀ id' n' items', m.node? id' = some n' → n'.operator = .intAggregate op →
        n'.args[0]? = some (.list items') → items'.Perm items →
        (op = .sum → (vs.filter (0 < ·)).sum ≤ intMax ∧ intMin ≤ (vs.filter (· < 0)).sum) →
        m.eval s id' = m.eval s id := by
  intro vs
  refine ⟨op.ints? vs, eval_aggregate hm.sound hn ho hitems hos, ?_, ?_, ?_,
    Aggregate.forall_perm_partialSumsFit, ?_⟩
  · rintro rfl
    exact ⟨fun v => Aggregate.ints?_min_eq_some, List.min?_eq_none_iff⟩
  · rintro rfl
    exact ⟨fun v => Aggregate.ints?_max_eq_some, List.max?_eq_none_iff⟩
  · rintro rfl
    exact ⟨fun v => Aggregate.ints?_sum_eq_some, Aggregate.ints?_sum_eq_none⟩
  · intro id' n' items' hn' ho' hitems' hperm hsum
    obtain ⟨os', hos', hperm'⟩ := List.perm_comp_forall₂ hperm hos
    rw [eval_aggregate hm.sound hn ho hitems hos, eval_aggregate hm.sound hn' ho' hitems' hos',
      Aggregate.ints?_perm (hperm'.filterMap _) fun h =>
        Aggregate.forall_perm_partialSumsFit.2 (hsum h)]

/-- The least of three variables. -/
def least : List Call :=
  [.intVar ⟨none, none, none, none⟩, .intVar ⟨none, none, none, none⟩,
    .intVar ⟨none, none, none, none⟩,
    .intAggregate .min [.node ⟨0, 0⟩, .node ⟨0, 1⟩, .node ⟨0, 2⟩]]

/-- The first variable is absent. -/
def leastSolution : Solution :=
  ((Solution.empty.set ⟨0, 0⟩ .absent).set ⟨0, 1⟩ (.int 1)).set ⟨0, 2⟩ (.int (-1))

theorem aggregate_value_least :
    ((empty 0 none).calls least).eval leastSolution ⟨0, 3⟩ = .ok (.int (-1)) := by
  have hm : ((empty 0 none).calls least).Obtained := (Obtained.empty 0 none).calls least
  obtain ⟨n, hn, ho, hitems⟩ : ∃ n, ((empty 0 none).calls least).node? ⟨0, 3⟩ = some n ∧
      n.operator = .intAggregate .min ∧
      n.args[0]? = some (.list [.node ⟨0, 0⟩, .node ⟨0, 1⟩, .node ⟨0, 2⟩]) := ⟨_, rfl, rfl, rfl⟩
  have hos : List.Forall₂ (((empty 0 none).calls least).Reads leastSolution Value.int?)
      [.node ⟨0, 0⟩, .node ⟨0, 1⟩, .node ⟨0, 2⟩] [none, some 1, some (-1)] := by
    refine .cons ?_ (.cons ⟨.int 1, ?_, rfl⟩ (.cons ⟨.int (-1), ?_, rfl⟩ .nil))
    · show _ = _
      decide +kernel
    · decide +kernel
    · decide +kernel
  obtain ⟨o, heval, hmin, -⟩ := aggregate_value hm hn ho hitems hos
  rw [heval, ((hmin rfl).1 (-1)).2 ⟨by decide, by simp [mem_lowerBounds, present]⟩]
  rfl

/-- Two sums of the same numbers. -/
def totals : List Call :=
  [.intAggregate .sum [.const 9223372036854775807, .const 1, .const (-1)],
    .intAggregate .sum [.const (-1), .const 9223372036854775807, .const 1]]

/-- A sum fits in 64 bits and is absent, since its first two numbers add up to more; the sum of the
same numbers in another order is there. -/
theorem fitting_sum_absent :
    let m := (empty 0 none).calls totals
    (m.node? ⟨0, 3⟩).map (fun n => (n.operator, n.operands)) =
      some (.intAggregate .sum, [⟨0, 0⟩, ⟨0, 1⟩, ⟨0, 2⟩]) ∧
    (m.node? ⟨0, 4⟩).map (fun n => (n.operator, n.operands)) =
      some (.intAggregate .sum, [⟨0, 2⟩, ⟨0, 0⟩, ⟨0, 1⟩]) ∧
    m.eval .empty ⟨0, 0⟩ = .ok (.int 9223372036854775807) ∧
    m.eval .empty ⟨0, 1⟩ = .ok (.int 1) ∧ m.eval .empty ⟨0, 2⟩ = .ok (.int (-1)) ∧
    Fits (9223372036854775807 + 1 + -1) ∧ m.eval .empty ⟨0, 3⟩ = .ok .absent ∧
    m.eval .empty ⟨0, 4⟩ = .ok (.int 9223372036854775807) := by
  decide +kernel

end Model

end Scheduling
