import Scheduling.Eval.Basic

/-!
# Queries that are alike

Two queries are alike when they ask for related nodes, go on alike whatever the answers are, and
give related results in the end (`Query.Alike`). Where related nodes have the same values, queries
that are alike have the same outcome, whether values are found from scratch or remembered
(`Alike.resolve`, `Alike.resolveWith`).
-/

namespace Scheduling

namespace Query

variable {α β γ δ : Type} {R : α → β → Prop} {T : γ → δ → Prop} {S : NodeId → NodeId → Prop}

/-- The queries ask for related nodes and give related answers, or both fail. -/
inductive Alike (R : α → β → Prop) (S : NodeId → NodeId → Prop) : Query α → Query β → Prop where
  | answer {a : α} {b : β} : R a b → Alike R S (.answer a) (.answer b)
  | fail {e e' : EvalError} : Alike R S (.fail e) (.fail e')
  | ask {x y : NodeId} {next : Value → Query α} {next' : Value → Query β} : S x y →
      (∀ v, Alike R S (next v) (next' v)) → Alike R S (.ask x next) (.ask y next')

/-- Both outcomes are related values, or both are errors. -/
inductive Agree (R : α → β → Prop) : Except EvalError α → Except EvalError β → Prop where
  | ok {a : α} {b : β} : R a b → Agree R (.ok a) (.ok b)
  | error {e e' : EvalError} : Agree R (.error e) (.error e')

theorem Agree.ok_iff {r r' : Except EvalError α} (h : Agree Eq r r') (a : α) :
    r = .ok a ↔ r' = .ok a := by
  cases h with
  | ok h => rw [h]
  | error => exact ⟨nofun, nofun⟩

theorem agree_eq_iff {r r' : Except EvalError α} : Agree Eq r r' ↔ ∀ a, r = .ok a ↔ r' = .ok a := by
  refine ⟨Agree.ok_iff, fun h => ?_⟩
  cases r with
  | ok a =>
    rw [(h a).1 rfl]
    exact .ok rfl
  | error e =>
    cases r' with
    | ok a => exact nomatch (h a).2 rfl
    | error e' => exact .error

theorem Agree.symm {r r' : Except EvalError α} (h : Agree Eq r r') : Agree Eq r' r :=
  agree_eq_iff.2 fun a => (h.ok_iff a).symm

theorem Agree.trans {r r' r'' : Except EvalError α} (h : Agree Eq r r') (h' : Agree Eq r' r'') :
    Agree Eq r r'' := agree_eq_iff.2 fun a => (h.ok_iff a).trans (h'.ok_iff a)

namespace Alike

variable {q : Query α} {q' : Query β}

theorem bind {f : α → Query γ} {f' : β → Query δ} (h : Alike R S q q')
    (hf : ∀ a b, R a b → Alike T S (f a) (f' b)) : Alike T S (q >>= f) (q' >>= f') := by
  induction h with
  | answer h => exact hf _ _ h
  | fail => exact .fail
  | ask h _ ih => exact .ask h ih

theorem map {f : α → γ} {f' : β → δ} (h : Alike R S q q') (hf : ∀ a b, R a b → T (f a) (f' b)) :
    Alike T S (f <$> q) (f' <$> q') :=
  h.bind fun a b hab => .answer (hf a b hab)

theorem mono {S' : NodeId → NodeId → Prop} (h : Alike R S q q') (hS : ∀ x y, S x y → S' x y) :
    Alike R S' q q' := by
  induction h with
  | answer h => exact .answer h
  | fail => exact .fail
  | ask h _ ih => exact .ask (hS _ _ h) ih

theorem value {x y : NodeId} (h : S x y) : Alike Eq S (value x) (value y) :=
  .ask h fun _ => .answer rfl

/-- A query that asks nothing is like itself. -/
theorem fitting (v : Int) : Alike Eq S (fitting v) (fitting v) := by
  unfold Query.fitting
  split
  · exact .answer rfl
  · exact .fail

/-- Alike queries have the same outcome when related nodes have the same values. -/
theorem resolve {value value' : NodeId → Except EvalError Value} (h : Alike R S q q')
    (hv : ∀ x y, S x y → Agree Eq (value x) (value' y)) :
    Agree R (q.resolve value) (q'.resolve value') := by
  induction h with
  | answer h => exact .ok h
  | fail => exact .error
  | @ask x y _ _ h _ ih =>
    have hxy := hv x y h
    simp only [Query.resolve]
    cases hx : value x with
    | ok v =>
      rw [(hxy.ok_iff v).1 hx]
      exact ih v
    | error e =>
      rw [hx] at hxy
      cases hy : value' y with
      | ok v => exact nomatch (hxy.ok_iff v).2 hy
      | error e' => exact .error

/-- The same when the values on one side are remembered, as long as what is remembered stays
good. -/
theorem resolveWith {value : NodeId → Remembering Value} {value' : NodeId → Except EvalError Value}
    {Good : Memory → Prop} (h : Alike R S q q')
    (hv : ∀ x y, S x y → ∀ memory, Good memory →
      Agree Eq (value x memory).1 (value' y) ∧ Good (value x memory).2)
    {memory : Memory} (hmemory : Good memory) :
    Agree R (q.resolveWith value memory).1 (q'.resolve value') ∧
      Good (q.resolveWith value memory).2 := by
  induction h generalizing memory with
  | answer h => exact ⟨.ok h, hmemory⟩
  | fail => exact ⟨.error, hmemory⟩
  | @ask x y _ _ h _ ih =>
    obtain ⟨hxy, hgood⟩ := hv x y h memory hmemory
    simp only [Query.resolveWith, Query.resolve]
    obtain ⟨r, memory', hx⟩ : ∃ r memory', value x memory = (r, memory') := ⟨_, _, rfl⟩
    rw [hx] at hxy hgood
    rw [hx]
    cases r with
    | ok v =>
      rw [(hxy.ok_iff v).1 rfl]
      exact ih v hgood
    | error e =>
      cases hy : value' y with
      | ok v => exact nomatch (hxy.ok_iff v).2 hy
      | error e' => exact ⟨.error, hgood⟩

end Alike

end Query

end Scheduling
