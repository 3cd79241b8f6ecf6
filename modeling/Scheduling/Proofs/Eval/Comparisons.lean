import Scheduling.Proofs.Eval.Reading
import Scheduling.Proofs.Rounding

/-!
# Comparisons of integers

A comparison reads its operands as floats, also where both are integers. So its verdict is that on
the rounded integers, and a check of a solution goes by it (`comparison_verdict`): it is the verdict
on the integers unless rounding makes different integers equal, which it does not up to `2 ^ 53`.
-/

namespace Scheduling

open Query (resolve_bind_eq)

/-- How a node compares its operands; identity asks whether they are equal. -/
def Operator.comparison? : Operator → Option Comparison
  | .compare c => some c
  | .identity => some .eq
  | _ => none

theorem Operator.comparison?_eq_some {op : Operator} {c : Comparison} (h : op.comparison? = some c) :
    op = .compare c ∨ op = .identity ∧ c = .eq := by
  cases op <;> simp_all [comparison?]

theorem Value.float?_of_int? {v : Value} {a : Int} (h : v.int? = some a) :
    v.float? = some (Float.ofInt a) := by
  cases v <;> simp only [int?, Option.some.injEq, reduceCtorEq] at h <;> rw [float?, h]

namespace Model

variable {m : Model} {s : Solution} {id : NodeId} {n : Node} {c : Comparison} {x y : Arg} {a b : Int}

/-- An integer operand is read as its float. -/
theorem Reads.float (h : m.Reads s Value.int? x (some a)) :
    m.Reads s Value.float? x (some (Float.ofInt a)) := by
  obtain ⟨v, hv, ha⟩ := h
  exact ⟨v, hv, Value.float?_of_int? ha⟩

/-- What a node makes of integers that it compares. -/
theorem resolve_comparison (depth : Nat) (ho : n.operator.comparison? = some c)
    (hx : n.args[0]? = some x) (hy : n.args[1]? = some y) (ha : m.Reads s Value.int? x (some a))
    (hb : m.Reads s Value.int? y (some b)) :
    (m.nodeValue s depth id n).resolve (m.value s) =
      .ok (.bool (c.holds (Float.ofInt a) (Float.ofInt b))) := by
  have hfirst : (n.floatAt id 0).resolve (m.value s) = .ok (some (Float.ofInt a)) :=
    resolve_readArg rfl hx ha.float
  have hsecond : (n.floatAt id 1).resolve (m.value s) = .ok (some (Float.ofInt b)) :=
    resolve_readArg rfl hy hb.float
  have hread (k : Option Float → Option Float → Query Value) :
      (n.floatAt id 0 >>= fun a => n.floatAt id 1 >>= fun b => k a b).resolve (m.value s) =
        (k (some (Float.ofInt a)) (some (Float.ofInt b))).resolve (m.value s) := by
    rw [resolve_bind_eq, hfirst]
    show (n.floatAt id 1 >>= fun b => _).resolve (m.value s) = _
    rw [resolve_bind_eq, hsecond]
    rfl
  rw [nodeValue]
  obtain hop | ⟨hop, rfl⟩ := Operator.comparison?_eq_some ho <;> rw [hop] <;> exact hread _

/-- The verdict of a comparison of integers is that on the rounded integers, and a check of a solution
accepts or refuses the comparison by it. It is the verdict on the integers, unless rounding makes them
equal and the comparison tells them from equal ones; so it is for all integers up to `2 ^ 53`. -/
theorem comparison_verdict (hm : m.Obtained) (hn : m.node? id = some n)
    (ho : n.operator.comparison? = some c) (hx : n.args[0]? = some x) (hy : n.args[1]? = some y)
    (ha : m.Reads s Value.int? x (some a)) (hb : m.Reads s Value.int? y (some b)) (hfa : Fits a)
    (hfb : Fits b) :
    m.Verdict s id (some (c.decides (rounded a) (rounded b))) ∧
      (id ∈ m.topLevel.toList →
        (m.verify s = .ok () ↔ m.PassesBut s id ∧ c.decides (rounded a) (rounded b) = true)) ∧
      (c.decides (rounded a) (rounded b) = c.decides a b ↔
        (rounded a = rounded b → c.decides a b = c.decides a a)) ∧
      (a.natAbs ≤ 2 ^ 53 → b.natAbs ≤ 2 ^ 53 →
        c.decides (rounded a) (rounded b) = c.decides a b) := by
  have hconstraint : n.operator.isConstraint = false := by
    obtain hop | ⟨hop, -⟩ := Operator.comparison?_eq_some ho <;> rw [hop] <;> rfl
  have hverdict : m.Verdict s id (some (c.decides (rounded a) (rounded b))) := by
    refine .expression hm.sound hn hconstraint ?_
    rw [eval_node hm.sound hn, resolve_comparison _ ho hx hy ha hb, c.holds_ofInt hfa hfb]
    rfl
  refine ⟨hverdict, fun hid => ?_, c.decides_rounded_iff, fun ha hb => ?_⟩
  · rw [hverdict.verify_ok_iff hm.sound hid, Ne, Option.some.injEq, Bool.not_eq_false]
  · rw [rounded_of_natAbs_le ha, rounded_of_natAbs_le hb]

/-- A product of two variables, which is to be greater than one of them. -/
def product : List Call :=
  [.intVar ⟨none, none, none, none⟩, .intVar ⟨none, none, none, none⟩,
    .int .times (.node ⟨0, 0⟩) (.node ⟨0, 1⟩), .compare .gt (.node ⟨0, 2⟩) (.node ⟨0, 0⟩)]

/-- Both factors are `2 ^ 27`. -/
def productSolution : Solution :=
  (Solution.empty.set ⟨0, 0⟩ (.int 134217728)).set ⟨0, 1⟩ (.int 134217728)

theorem comparison_verdict_product :
    ((empty 0 none).calls product).Verdict productSolution ⟨0, 3⟩ (some true) := by
  have hm : ((empty 0 none).calls product).Obtained := (Obtained.empty 0 none).calls product
  obtain ⟨n, hn, ho, hx, hy⟩ : ∃ n, ((empty 0 none).calls product).node? ⟨0, 3⟩ = some n ∧
      n.operator.comparison? = some .gt ∧ n.args[0]? = some (.node ⟨0, 2⟩) ∧
      n.args[1]? = some (.node ⟨0, 0⟩) := ⟨_, rfl, rfl, rfl, rfl⟩
  have hfirst : ((empty 0 none).calls product).Reads productSolution Value.int? (.node ⟨0, 2⟩)
      (some 18014398509481984) := ⟨.int 18014398509481984, by decide +kernel, rfl⟩
  have hsecond : ((empty 0 none).calls product).Reads productSolution Value.int? (.node ⟨0, 0⟩)
      (some 134217728) := ⟨.int 134217728, by decide +kernel, rfl⟩
  obtain ⟨hverdict, -, hexact, -⟩ :=
    comparison_verdict hm hn ho hx hy hfirst hsecond (by decide) (by decide)
  have hapart : rounded 18014398509481984 ≠ rounded 134217728 := by decide +kernel
  rw [hexact.2 fun h => absurd h hapart] at hverdict
  exact hverdict

/-- The product is to be one more than `2 ^ 54`. A solution with the product `2 ^ 54` passes the
checks. -/
theorem wrong_product_accepted :
    let m := (empty 0 none).calls
      (product ++ [.compare .eq (.node ⟨0, 2⟩) (.int 18014398509481985), .constraint (.node ⟨0, 5⟩)])
    (m.node? ⟨0, 5⟩).map (fun n => (n.operator, n.operands)) =
      some (.compare .eq, [⟨0, 2⟩, ⟨0, 4⟩]) ∧
    ⟨0, 5⟩ ∈ m.topLevel.toList ∧
    m.eval productSolution ⟨0, 2⟩ = .ok (.int 18014398509481984) ∧
    m.eval productSolution ⟨0, 4⟩ = .ok (.int 18014398509481985) ∧
    m.evalConstraint productSolution ⟨0, 5⟩ = .ok (some true) ∧
    m.eval productSolution ⟨0, 5⟩ = .ok (.bool true) ∧ m.verify productSolution = .ok () := by
  decide +kernel

end Model

end Scheduling
