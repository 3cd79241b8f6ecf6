import Scheduling.Proofs.Eval.Reading

/-!
# Answers to queries

What holds of the answer to a query, given the values of nodes, if it has one (`Query.Answers`). A
node that answers has read its operands on the way (`Model.answers_readArg`,
`Model.answers_intervalAt`, `Model.answers_presentOf`), so what it answers can be said in terms of
their values.
-/

namespace Scheduling

open Query (resolve_bind_eq)

/-! ### Queries in turn -/

namespace Query

variable {α β : Type} {value : NodeId → Except EvalError Value} {P P' : α → Prop} {T : β → Prop}
  {q : Query α}

/-- An answer to the query is as `P` says. -/
def Answers (value : NodeId → Except EvalError Value) (P : α → Prop) (q : Query α) : Prop :=
  ∀ a, q.resolve value = .ok a → P a

namespace Answers

theorem answer {a : α} (h : P a) : Answers value P (.answer a) := fun _ he => Except.ok.inj he ▸ h

theorem fail {e : EvalError} : Answers value P (.fail e) := nofun

theorem unknown (q : Query α) : Answers value (fun _ => True) q := fun _ _ => trivial

theorem bind {k : α → Query β} (h : Answers value P q) (hk : ∀ a, P a → Answers value T (k a)) :
    Answers value T (q >>= k) := by
  intro b hb
  rw [resolve_bind_eq] at hb
  cases ha : q.resolve value with
  | ok a =>
    rw [ha] at hb
    exact hk a (h a ha) b hb
  | error e =>
    rw [ha] at hb
    exact nomatch hb

theorem imp (h : Answers value P q) (hP : ∀ a, P a → P' a) : Answers value P' q :=
  fun a ha => hP a (h a ha)

end Answers

end Query

/-! ### Operands -/

theorem Value.isAbsent_iff {v : Value} : v.isAbsent = true ↔ v = .absent := by
  cases v <;> simp [isAbsent]

namespace Model

open Query (Answers)

variable {α : Type} {m : Model} {s : Solution} {id x : NodeId} {n : Node} {a : Arg} {i : Nat}
  {items : List Arg} {read : Value → Option α} {o : Option α}

theorem answers_value (a : Arg) : a.value.Answers (m.value s) (fun v => m.argValue s a = .ok v) :=
  fun _ hv => hv

theorem answers_lookup (hn : m.node? id = some n) :
    (m.lookup id).Answers (m.value s) (fun n' => n' = n) := by
  rw [lookup, node_eq_ok.2 hn]
  exact .answer rfl

section Argument

variable (ha : n.args[i]? = some a)

include ha

theorem answers_arg : (n.arg id i).Answers (m.value s) (fun b => b = a) := by
  rw [Node.arg, ha]
  exact .answer rfl

/-- The operand at a position is as the node reads it. -/
theorem answers_readArg {flaw : Nat → NodeFlaw} :
    (Node.readArg read flaw id n i).Answers (m.value s) (m.Reads s read a) := by
  refine (answers_arg ha).bind ?_
  rintro _ rfl
  refine (answers_value _).bind fun v hv => ?_
  cases habsent : v.isAbsent with
  | true =>
    obtain rfl := Value.isAbsent_iff.1 habsent
    exact .answer hv
  | false =>
    cases hread : read v with
    | some x => exact .answer ⟨v, hv, hread⟩
    | none => exact .fail

theorem answers_intervalAt :
    (n.intervalAt id i).Answers (m.value s) (m.Reads s Value.interval? a) := by
  refine (answers_arg ha).bind ?_
  rintro _ rfl
  exact fun o ho => resolve_intervalOf.1 ho

theorem answers_listArg (hitems : a.list? = some items) :
    (n.listArg id i).Answers (m.value s) (fun as => as = items) := by
  refine (answers_arg ha).bind ?_
  rintro _ rfl
  rw [hitems]
  exact .answer rfl

end Argument

/-- The operands of a list are as the node reads them. -/
theorem answers_presentOf {flaw : NodeFlaw} :
    (Node.presentOf read flaw id n items).Answers (m.value s)
      (fun xs => ∃ os, List.Forall₂ (m.Reads s read) items os ∧ xs = present os) := by
  induction items with
  | nil => exact .answer ⟨[], .nil, rfl⟩
  | cons a rest ih =>
    refine (answers_value a).bind fun v hv => ?_
    cases hx : read v with
    | some x =>
      refine ih.bind ?_
      rintro _ ⟨os, hos, rfl⟩
      exact .answer ⟨some x :: os, .cons ⟨v, hv, hx⟩ hos, rfl⟩
    | none =>
      cases habsent : v.isAbsent with
      | true =>
        obtain rfl := Value.isAbsent_iff.1 habsent
        refine ih.imp ?_
        rintro _ ⟨os, hos, rfl⟩
        exact ⟨none :: os, .cons hv hos, rfl⟩
      | false => exact .fail

end Model

end Scheduling
