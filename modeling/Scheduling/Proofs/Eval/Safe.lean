import Scheduling.Eval.Basic

/-!
# Safe queries

What a query can end in, given what the nodes it asks for can end in (`Query.Safe`). A safe query
ends as it should with an evaluator that remembers values, as long as what is remembered stays good
(`Safe.resolveWith`).
-/

namespace Scheduling

namespace Query

variable {α β : Type} {asks asks' : NodeId → Prop} {spec : NodeId → Except EvalError Value → Prop}
  {E E' : EvalError → Prop} {P P' : α → Prop} {T : β → Prop}

/-- A value is as `P` says, an error as `E` says. -/
inductive Ends (E : EvalError → Prop) (P : α → Prop) : Except EvalError α → Prop where
  | ok {a : α} : P a → Ends E P (.ok a)
  | error {e : EvalError} : E e → Ends E P (.error e)

theorem Ends.imp {r : Except EvalError α} (h : Ends E P r) (hE : ∀ e, E e → E' e)
    (hP : ∀ a, P a → P' a) : Ends E' P' r := by
  cases h with
  | ok h => exact .ok (hP _ h)
  | error h => exact .error (hE _ h)

/-- The query only asks for nodes that it may ask for. As long as these end as `spec` says, its
answer is as `P` says, or its failure as `E` says. -/
inductive Safe (asks : NodeId → Prop) (spec : NodeId → Except EvalError Value → Prop)
    (E : EvalError → Prop) (P : α → Prop) : Query α → Prop where
  | answer {a : α} : P a → Safe asks spec E P (.answer a)
  | fail {e : EvalError} : E e → Safe asks spec E P (.fail e)
  | ask {x : NodeId} {next : Value → Query α} : asks x → (∀ e, spec x (.error e) → E e) →
      (∀ v, spec x (.ok v) → Safe asks spec E P (next v)) → Safe asks spec E P (.ask x next)

namespace Safe

variable {q : Query α}

theorem bind {f : α → Query β} (h : Safe asks spec E P q)
    (hf : ∀ a, P a → Safe asks spec E T (f a)) : Safe asks spec E T (q >>= f) := by
  induction h with
  | answer h => exact hf _ h
  | fail h => exact .fail h
  | ask hx he _ ih => exact .ask hx he ih

theorem map {f : α → β} (h : Safe asks spec E P q) (hf : ∀ a, P a → T (f a)) :
    Safe asks spec E T (f <$> q) :=
  h.bind fun a ha => .answer (hf a ha)

theorem imp (h : Safe asks spec E P q) (hx : ∀ x, asks x → asks' x) (hE : ∀ e, E e → E' e)
    (hP : ∀ a, P a → P' a) : Safe asks' spec E' P' q := by
  induction h with
  | answer h => exact .answer (hP _ h)
  | fail h => exact .fail (hE _ h)
  | ask hask he _ ih => exact .ask (hx _ hask) (fun e hs => hE e (he e hs)) ih

theorem value {x : NodeId} {P : Value → Prop} (hx : asks x) (he : ∀ e, spec x (.error e) → E e)
    (hv : ∀ v, spec x (.ok v) → P v) : Safe asks spec E P (value x) :=
  .ask hx he fun v h => .answer (hv v h)

theorem fitting (he : E .overflow) (v : Int) :
    Safe asks spec E (fun _ => True) (Query.fitting v) := by
  unfold Query.fitting
  split
  · exact .answer trivial
  · exact .fail he

/-- A safe query ends as it should when the nodes that it asks for do, and leaves what is remembered
good. -/
theorem resolveWith {value : NodeId → Remembering Value} {Good : Memory → Prop}
    (h : Safe asks spec E P q)
    (hv : ∀ x, asks x → ∀ memory, Good memory →
      spec x (value x memory).1 ∧ Good (value x memory).2)
    {memory : Memory} (hmemory : Good memory) :
    Ends E P (q.resolveWith value memory).1 ∧ Good (q.resolveWith value memory).2 := by
  induction h generalizing memory with
  | answer h => exact ⟨.ok h, hmemory⟩
  | fail h => exact ⟨.error h, hmemory⟩
  | @ask x next hx he _ ih =>
    obtain ⟨hspec, hgood⟩ := hv x hx memory hmemory
    obtain ⟨r, memory', hr⟩ : ∃ r memory', value x memory = (r, memory') := ⟨_, _, rfl⟩
    rw [hr] at hspec hgood
    simp only [Query.resolveWith, hr]
    cases r with
    | ok v => exact ih v hspec hgood
    | error e => exact ⟨.error (he e hspec), hgood⟩

end Safe

end Query

end Scheduling
