import Scheduling.Proofs.Eval.CumulativeBound
import Scheduling.Proofs.Eval.Memory

/-!
# Reading operands

A node reads an operand as an integer, a float, a truth value or an interval, unless the operand is
absent (`Model.Reads`). What a node reads decides the answers to its queries: those for one operand
(`resolve_readArg`), for a list of intervals (`resolve_intervalsOf`) and for the present ones of a
list (`resolve_presentOf`). A constraint or truth-valued node has a verdict, which is what evaluation
says of it and what a check of a solution goes by (`Verdict.constraintQuery_ok`).
-/

namespace Scheduling

open Query (resolve_bind_eq)

/-- The operands that are present. -/
abbrev present {α : Type} (os : List (Option α)) : List α := os.filterMap id

namespace Model

variable {α β : Type} {m : Model} {s : Solution} {id : NodeId} {n : Node} {a : Arg}
  {items : List Arg} {read : Value → Option α} {o : Option α} {i : Nat}

/-! ### Operands -/

/-- An operand is absent, or has a value that is read in some way. -/
def Reads (m : Model) (s : Solution) (read : Value → Option α) (a : Arg) : Option α → Prop
  | none => m.argValue s a = .ok .absent
  | some x => ∃ v, m.argValue s a = .ok v ∧ read v = some x

theorem Reads.unique {o' : Option α} (hread : read .absent = none) (h : m.Reads s read a o)
    (h' : m.Reads s read a o') : o = o' := by
  cases o <;> cases o' <;> simp only [Reads] at h h'
  · rfl
  · obtain ⟨v, hv, hx⟩ := h'
    obtain rfl := Except.ok.inj (h.symm.trans hv)
    exact nomatch hread.symm.trans hx
  · obtain ⟨v, hv, hx⟩ := h
    obtain rfl := Except.ok.inj (h'.symm.trans hv)
    exact nomatch hread.symm.trans hx
  · obtain ⟨v, hv, hx⟩ := h
    obtain ⟨w, hw, hy⟩ := h'
    obtain rfl := Except.ok.inj (hv.symm.trans hw)
    exact hx.symm.trans hy

theorem resolve_value_bind (a : Arg) (k : Value → Query β) :
    (a.value >>= k).resolve (m.value s) = m.argValue s a >>= fun v => (k v).resolve (m.value s) :=
  resolve_bind_eq _ _

/-- The operand at a position, as a node reads it. -/
theorem resolve_readArg {flaw : Nat → NodeFlaw} (hread : read .absent = none)
    (ha : n.args[i]? = some a) (h : m.Reads s read a o) :
    (Node.readArg read flaw id n i).resolve (m.value s) = .ok o := by
  rw [Node.readArg, resolve_arg_bind, ha]
  show (a.value >>= fun v => _).resolve (m.value s) = _
  rw [resolve_value_bind]
  cases o with
  | none =>
    rw [h]
    rfl
  | some x =>
    obtain ⟨v, hv, hx⟩ := h
    have hpresent : v.isAbsent = false := by
      cases v <;> first | rfl | exact nomatch hread.symm.trans hx
    rw [hv]
    show (if v.isAbsent then _ else _ : Query (Option α)).resolve _ = _
    simp only [hpresent, hx]
    rfl

/-- An operand as an interval. -/
theorem resolve_intervalOf {o : Option (Int × Int)} :
    (n.intervalOf id a).resolve (m.value s) = .ok o ↔ m.Reads s Value.interval? a o := by
  rw [Node.intervalOf, resolve_value_bind]
  cases hv : m.argValue s a with
  | error e => cases o <;> simp [Reads, hv, bind, Except.bind]
  | ok v =>
    cases v <;> cases o <;>
      simp [Reads, hv, bind, Except.bind, Query.resolve, Value.interval?, Node.flawed]

theorem resolve_intervalAt_of_reads {o : Option (Int × Int)} (ha : n.args[i]? = some a)
    (h : m.Reads s Value.interval? a o) : (n.intervalAt id i).resolve (m.value s) = .ok o := by
  rw [Node.intervalAt, resolve_arg_bind, ha]
  exact resolve_intervalOf.2 h

/-- Operands as intervals, one by one. -/
theorem resolve_intervalsOf {os : List (Option (Int × Int))} :
    (n.intervalsOf id items).resolve (m.value s) = .ok os ↔
      List.Forall₂ (m.Reads s Value.interval?) items os := by
  induction items generalizing os with
  | nil =>
    rw [List.forall₂_nil_left_iff]
    exact ⟨fun h => (Except.ok.inj h).symm, fun h => h ▸ rfl⟩
  | cons a rest ih =>
    rw [Node.intervalsOf, resolve_bind_eq, List.forall₂_cons_left_iff]
    cases hfirst : (n.intervalOf id a).resolve (m.value s) with
    | error e =>
      refine iff_of_false nofun ?_
      rintro ⟨o, os, ho, -, -⟩
      exact nomatch hfirst.symm.trans (resolve_intervalOf.2 ho)
    | ok o =>
      have ho := resolve_intervalOf.1 hfirst
      show (n.intervalsOf id rest >>= fun os => _).resolve _ = _ ↔ _
      rw [resolve_bind_eq]
      cases hrest : (n.intervalsOf id rest).resolve (m.value s) with
      | error e =>
        refine iff_of_false nofun ?_
        rintro ⟨o, os, -, hos, -⟩
        exact nomatch hrest.symm.trans (ih.2 hos)
      | ok os' =>
        refine ⟨fun h => ⟨o, os', ho, ih.1 hrest, (Except.ok.inj h).symm⟩, ?_⟩
        rintro ⟨o', os, ho', hos, rfl⟩
        obtain rfl := ho.unique rfl ho'
        obtain rfl := Except.ok.inj (hrest.symm.trans (ih.2 hos))
        rfl

/-- What is present of operands, one by one. -/
theorem resolve_presentOf {flaw : NodeFlaw} {os : List (Option α)} (hread : read .absent = none)
    (h : List.Forall₂ (m.Reads s read) items os) :
    (Node.presentOf read flaw id n items).resolve (m.value s) = .ok (present os) := by
  induction h with
  | nil => rfl
  | @cons a o items os ho _ ih =>
    rw [Node.presentOf, resolve_value_bind]
    cases o with
    | none =>
      simp only [show m.argValue s a = .ok .absent from ho, bind, Except.bind, hread]
      exact ih
    | some x =>
      obtain ⟨v, hv, hx⟩ := ho
      simp only [hv, bind, Except.bind, hx]
      show (Node.presentOf read flaw id n items >>= fun xs => _).resolve _ = _
      rw [resolve_bind_eq, ih]
      rfl

/-! ### Verdicts -/

section Sound

variable (h : Sound m)

include h

/-- Evaluation finds the value of a node. -/
theorem eval_eq : m.eval s id = m.value s id :=
  (found_eq h (fun hx => hx.2) (remembers_start _ m m s)).1

theorem eval_node (hn : m.node? id = some n) :
    m.eval s id = (m.nodeValue s m.nodes.size id n).resolve (m.value s) :=
  (eval_eq h).trans (value_eq h hn)

/-- Evaluation finds whether a node holds. -/
theorem evalConstraint_eq : m.evalConstraint s id = m.holds s id :=
  (resolveWith_eq h _ (remembers_start _ m m s)).1

variable (hn : m.node? id = some n) (ho : n.operator.isConstraint)

include hn ho

theorem evalConstraint_constraint :
    m.evalConstraint s id = (m.constraintValue m.nodes.size id n).resolve (m.value s) := by
  rw [evalConstraint_eq h, holds, holdsQuery, resolve_lookup, hn]
  simp only [ho, if_true]

/-- A constraint has the value that it holds or not. -/
theorem eval_constraint : m.eval s id = (m.evalConstraint s id).map .ofBool? := by
  have hnode (depth : Nat) : m.nodeValue s depth id n =
      m.constraintValue depth id n >>= fun b => .answer (.ofBool? b) := by
    unfold nodeValue
    cases hop : n.operator <;> rw [hop] at ho <;> first | rfl | exact nomatch ho
  rw [eval_node h hn, hnode, resolve_bind_eq, evalConstraint_constraint h hn ho]
  cases (m.constraintValue m.nodes.size id n).resolve (m.value s) <;> rfl

end Sound

/-- What evaluation says of a constraint or a truth-valued node; `none` when it is absent. -/
structure Verdict (m : Model) (s : Solution) (id : NodeId) (verdict : Option Bool) : Prop where
  holds : m.evalConstraint s id = .ok verdict
  value : m.eval s id = .ok (.ofBool? verdict)

namespace Verdict

variable {verdict verdict' : Option Bool}

theorem unique (h : m.Verdict s id verdict) (h' : m.Verdict s id verdict') : verdict = verdict' :=
  Except.ok.inj (h.holds.symm.trans h'.holds)

theorem constraint (h : Sound m) (hn : m.node? id = some n) (ho : n.operator.isConstraint)
    (hq : (m.constraintValue m.nodes.size id n).resolve (m.value s) = .ok verdict) :
    m.Verdict s id verdict where
  holds := (evalConstraint_constraint h hn ho).trans hq
  value := by
    rw [eval_constraint h hn ho, evalConstraint_constraint h hn ho, hq]
    rfl

theorem expression (h : Sound m) (hn : m.node? id = some n)
    (ho : n.operator.isConstraint = false) (hv : m.eval s id = .ok (.ofBool? verdict)) :
    m.Verdict s id verdict where
  holds := by
    rw [eval_eq h] at hv
    rw [evalConstraint_eq h, Model.holds, holdsQuery, resolve_lookup, hn]
    simp only [ho, Bool.false_eq_true, if_false]
    show (Query.value id >>= fun v => _).resolve _ = _
    rw [resolve_bind_eq, Query.value, Query.resolve, hv]
    cases verdict <;> rfl
  value := hv

/-- A check of a solution refuses a constraint exactly when its verdict is that it fails. -/
theorem constraintQuery_ok (h : Sound m) (hv : m.Verdict s id verdict) :
    (m.constraintQuery id).resolve (m.value s) = .ok () ↔ verdict ≠ some false := by
  have hholds : (m.holdsQuery m.nodes.size id).resolve (m.value s) = .ok verdict :=
    (evalConstraint_eq h).symm.trans hv.holds
  rw [constraintQuery, resolve_bind_eq, hholds]
  match verdict with
  | none | some true => exact iff_of_true rfl nofun
  | some false =>
    refine iff_of_false ?_ fun hne => hne rfl
    show (m.lookup id >>= fun n => _).resolve _ ≠ _
    rw [resolve_lookup]
    cases m.node? id <;> exact nofun

end Verdict

/-- A solution passes all checks but that of one constraint. -/
structure PassesBut (m : Model) (s : Solution) (id : NodeId) : Prop where
  domains : ∀ x ∈ m.variableIds, (m.domainQuery x).resolve (m.value s) = .ok ()
  constraints : ∀ x ∈ m.topLevel.toList, x ≠ id → (m.constraintQuery x).resolve (m.value s) = .ok ()
  objective : (m.objectiveQuery s.objective).resolve (m.value s) = .ok ()

theorem Verdict.verify_ok_iff {verdict : Option Bool} (h : Sound m) (hv : m.Verdict s id verdict)
    (hid : id ∈ m.topLevel.toList) :
    m.verify s = .ok () ↔ m.PassesBut s id ∧ verdict ≠ some false := by
  rw [verify_ok h]
  constructor
  · rintro ⟨hdomains, hconstraints, hobjective⟩
    exact ⟨⟨hdomains, fun x hx _ => hconstraints x hx, hobjective⟩,
      (hv.constraintQuery_ok h).1 (hconstraints id hid)⟩
  · rintro ⟨hpasses, hverdict⟩
    refine ⟨hpasses.domains, fun x hx => ?_, hpasses.objective⟩
    by_cases hxid : x = id
    · exact hxid ▸ (hv.constraintQuery_ok h).2 hverdict
    · exact hpasses.constraints x hx hxid

end Model

end Scheduling
