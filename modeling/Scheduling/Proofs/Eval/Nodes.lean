import Scheduling.Eval.Verify
import Scheduling.Proofs.Eval.Kinds

/-!
# Safe nodes

Every node of a model that calls have built asks for what its operator can read: the value of the
node is of its kind, and it fails for nothing but the solution or a node within it that asks for the
presence of what has no value (`safe_nodeValue`). The cases follow the operators.
-/

namespace Scheduling

namespace Model

open Query (Safe Ends Memory)

variable {m : Model} {asked : NodeId → Prop} {sent : List NodeId} {s : Solution} {d d' : Nat}
  {id x : NodeId} {n n' : Node}

/-! ### Variables -/

theorem safe_variableValue (ho : n.operator.isVariable) (hs : n.operator ≠ .sequenceVar) :
    (variableValue s id n).Safe (m.Before d) m.Yields (m.Excuses id)
      (fun v => Value.fits n.kind v) := by
  have hfail {e : EvalError} (he : e.isStructural = false) :
      (Query.fail e).Safe (m.Before d) m.Yields (m.Excuses id) (fun v => Value.fits n.kind v) :=
    .fail (excuses_of_not_structural he)
  unfold variableValue
  cases s.value? id with
  | none => exact hfail rfl
  | some v =>
    rw [Node.kind] at hfail ⊢
    cases hop : n.operator <;> simp only [hop, Operator.isVariable, Bool.false_eq_true, ne_eq,
        not_true_eq_false] at ho hs <;>
      rw [hop] at hfail <;> cases v <;> first | exact .answer rfl | exact hfail rfl

/-! ### Tables and changes of level -/

theorem safe_lookup (hn : m.node? id = some n) :
    (m.lookup id).Safe (m.Before d) m.Yields (m.Excuses x) (fun n' => n' = n) := by
  rw [lookup, node_eq_ok.2 hn]
  exact .answer rfl

/-- Points that passed the check of a step function are pairs. -/
theorem safe_pairs {points : List (List Int)} {previous : Option Int}
    (hp : checkPointsAfter previous points = .ok ()) :
    (pairs id n points).Safe (m.Before d) m.Yields (m.Excuses x) (fun _ => True) := by
  induction points generalizing previous with
  | nil => exact .answer trivial
  | cons point rest ih =>
    match point with
    | [x, y] =>
      have hrest : checkPointsAfter (some x) rest = .ok () := by
        cases previous with
        | none => exact hp
        | some p =>
          simp only [checkPointsAfter] at hp
          split at hp
          · exact nomatch hp
          · exact hp
      exact (ih hrest).bind fun _ _ => .answer trivial
    | [] | [_] | _ :: _ :: _ :: _ => simp [checkPointsAfter] at hp

theorem safe_negated (cs : List Change) :
    (negated cs).Safe (m.Before d) m.Yields (m.Excuses id) (fun _ => True) := by
  induction cs with
  | nil => exact .answer trivial
  | cons c rest ih =>
    refine (Safe.fitting (excuses_of_not_structural rfl) _).bind fun _ _ => ?_
    exact ih.bind fun _ _ => .answer trivial

theorem safe_changesOfAll {parts : NodeId → Query (List Change)} {as : List Arg}
    (has : m.Lists d' id .cumulative as)
    (hparts : ∀ y, m.Is .cumulative y → m.Feeds d' id y →
      (parts y).Safe (m.Before d) m.Yields (m.Excuses id) (fun _ => True)) :
    (changesOfAll parts x n as).Safe (m.Before d) m.Yields (m.Excuses id) (fun _ => True) := by
  obtain ⟨ids, rfl, hall⟩ := has
  induction ids with
  | nil => exact .answer trivial
  | cons y ids ih =>
    obtain ⟨⟨hy, hf⟩, hall⟩ := List.forall_mem_cons.1 hall
    exact (hparts y hy hf).bind fun _ _ => (ih hall).bind fun _ _ => .answer trivial

variable (h : Built m asked sent)

include h

theorem safe_stepPoints {a : Arg} (ha : m.Takes (.node .stepFunction) a)
    (hf : ∀ x ∈ a.nodes, m.Feeds d id x) :
    (m.stepPoints a).Safe (m.Before d) m.Yields (m.Excuses id) (fun _ => True) := by
  cases a with
  | node x =>
    obtain ⟨n, hn, hk⟩ := ha
    have ho : n.operator = .stepFunction := by
      cases hop : n.operator <;> simp_all [Expectation.accepts, Node.kind, Operator.kind]
    have htable := (formed_of_node? h hn).table
    rw [Table, ho] at htable
    obtain ⟨points, hp, hc⟩ := htable
    refine (safe_lookup hn).bind fun n' hn' => ?_
    subst hn'
    rw [if_neg (not_not_intro ho), hp]
    exact (safe_pairs hc).bind fun _ _ => .answer trivial
  | _ => exact ha.elim

/-- The changes of a cumulative function fail only for what feeds it. -/
theorem safe_changes (hx : m.Is .cumulative x) (hd' : x.index < d') (hd : d' ≤ d) :
    (m.changes d' x).Safe (m.Before d) m.Yields (m.Excuses x) (fun _ => True) := by
  -- The depth of the search goes down, that of the evaluation around it stays.
  induction d' generalizing x with
  | zero => exact absurd hd' (Nat.not_lt_zero _)
  | succ d' ih =>
    obtain ⟨n, hn, hk⟩ := hx
    have hle : x.index ≤ d := by omega
    have hdeep {α : Type} {P : α → Prop} {q : Query α}
        (hq : q.Safe (m.Before x.index) m.Yields (m.Excuses x) P) :
        q.Safe (m.Before d) m.Yields (m.Excuses x) P :=
      hq.imp (fun y hy => ⟨hy.1, Nat.lt_of_lt_of_le hy.2 hle⟩) (fun _ he => he) fun _ ha => ha
    have hpart (y : NodeId) (hy : m.Is .cumulative y) (hf : m.Feeds x.index x y) :
        (m.changes d' y).Safe (m.Before d) m.Yields (m.Excuses x) (fun _ => True) :=
      (ih hy (Nat.lt_of_lt_of_le hf.1.2 (by omega)) (by omega)).imp (fun _ hz => hz) hf.2
        fun _ ht => ht
    have hat {i : Nat} (hin : n.operator.inputAt? i = some (.node .cumulative)) :
        (changesAt (m.changes d') x n i).Safe (m.Before d) m.Yields (m.Excuses x)
          (fun _ => True) := by
      refine (hdeep (safe_arg h hn (Nat.le_refl _) rfl hin)).bind fun a ⟨ha, hf⟩ => ?_
      cases a with
      | node y => exact hpart y ha (hf y (List.mem_singleton_self y))
      | _ => exact ha.elim
    refine (safe_lookup hn).bind fun n' hn' => ?_
    subst hn'
    cases ho : n'.operator with
    | intervalStep step =>
      refine (safe_intervalAt h hn hle ho (i := 0) rfl).bind fun interval _ => ?_
      cases interval with
      | none => exact safe_argValue_bind h hn hle ho (i := 1) rfl rfl rfl fun _ _ => .answer trivial
      | some interval =>
        refine safe_argValue_bind h hn hle ho (i := 1) rfl rfl rfl fun v _ => ?_
        cases v.int? with
        | none => exact .answer trivial
        | some height =>
          cases step with
          | pulse =>
            exact (Safe.fitting (excuses_of_not_structural rfl) _).bind fun _ _ => .answer trivial
          | _ => exact .answer trivial
    | stepAt =>
      refine safe_argValue_bind h hn hle ho (i := 0) rfl rfl rfl fun t _ =>
        safe_argValue_bind h hn hle ho (i := 1) rfl rfl rfl fun height _ => ?_
      cases t.int? <;> cases height.int? <;> exact .answer trivial
    | cumulPlus =>
      rw [ho] at hat
      exact (hat (i := 0) rfl).bind fun _ _ => (hat (i := 1) rfl).bind fun _ _ => .answer trivial
    | cumulMinus =>
      rw [ho] at hat
      refine (hat (i := 0) rfl).bind fun _ _ => (hat (i := 1) rfl).bind fun cs _ => ?_
      exact (safe_negated cs).bind fun _ _ => .answer trivial
    | cumulNeg =>
      rw [ho] at hat
      exact (hat (i := 0) rfl).bind fun cs _ => safe_negated cs
    | cumulSum =>
      refine (hdeep (safe_listArg h hn (Nat.le_refl _) ho (i := 0) rfl)).bind fun as has => ?_
      exact safe_changesOfAll has hpart
    | _ => simp [Expectation.accepts, Node.kind, ho, Operator.kind] at hk

/-! ### Constraints -/

section Nodes

variable (hn : m.node? id = some n) (hd : id.index ≤ d)

include hn hd

theorem safe_cumulBoundHolds {b : Bounding} (ho : n.operator = .cumulBound b) :
    (m.cumulBoundHolds d id n b).Safe (m.Before d) m.Yields (m.Excuses id) (fun _ => True) := by
  refine (safe_arg h hn hd ho (i := 0) rfl).bind fun a ⟨ha, hf⟩ => ?_
  cases a with
  | node f =>
    obtain ⟨⟨-, hlt⟩, hexcuses⟩ := hf f (List.mem_singleton_self f)
    refine safe_argValue_bind h hn hd ho (i := 1) rfl rfl rfl fun v hv => ?_
    by_cases habsent : v.isAbsent
    · rw [if_pos habsent]
      exact .answer trivial
    · rw [if_neg habsent]
      cases hbound : v.int? with
      | none => exact absurd (Value.isAbsent_of_int? hv hbound) habsent
      | some bound =>
        by_cases hb : b.within bound 0
        · simp only [if_pos hb]
          have hc := safe_changes h ha hlt (Nat.le_refl d)
          exact (hc.imp (fun _ hx => hx) hexcuses fun _ ht => ht).bind fun _ _ => .answer trivial
        · simp only [if_neg hb]
          exact .answer trivial
  | _ => exact ha.elim

theorem safe_noOverlapItems (ho : n.operator = .noOverlap) :
    (m.noOverlapItems id n).Safe (m.Before d) m.Yields (m.Excuses id)
      (fun p => m.Lists d id .interval p.1) := by
  refine (safe_arg h hn hd ho (i := 0) rfl).bind fun a ⟨ha, hf⟩ => ?_
  cases a with
  | list items =>
    obtain ⟨ids, rfl, hall⟩ := ha
    rw [Arg.nodes, nodesOf_map_node] at hf
    exact .answer ⟨ids, rfl, fun x hx => ⟨hall x hx, hf x hx⟩⟩
  | node x =>
    obtain ⟨seq, hseq, hk⟩ := ha
    have hx : m.Feeds d id x := hf x (List.mem_singleton_self x)
    have hso : seq.operator = .sequenceVar := by
      cases hop : seq.operator <;> simp_all [Expectation.accepts, Node.kind, Operator.kind]
    obtain ⟨a, hargs, hta⟩ := (hso ▸ (formed_of_node? h hseq).args).single rfl rfl
    refine (safe_lookup hseq).bind fun seq' hseq' => ?_
    subst hseq'
    cases a with
    | list items =>
      obtain ⟨ids, rfl, hall⟩ := hta
      rw [hargs]
      refine .answer ⟨ids, rfl, fun y hy => ⟨hall y hy, hx.trans ?_⟩⟩
      refine feeds_operand h.toSound hseq (Nat.le_of_lt hx.1.2) ?_
      rwa [Node.operands, hargs, Arg.nodesOf, Arg.nodesOf, List.append_nil, Arg.nodes,
        nodesOf_map_node]
    | _ => exact hta.elim
  | _ => exact ha.elim

theorem safe_constraintValue :
    (m.constraintValue d id n).Safe (m.Before d) m.Yields (m.Excuses id) (fun _ => True) := by
  unfold constraintValue
  cases ho : n.operator with
  | precedence p =>
    refine (safe_intervalAt h hn hd ho (i := 0) rfl).bind fun a _ =>
      (safe_intervalAt h hn hd ho (i := 1) rfl).bind fun b _ => ?_
    cases a with
    | none => exact .answer trivial
    | some a =>
      cases b with
      | none => exact .answer trivial
      | some b =>
        cases hdelay : n.args[2]? with
        | none => exact .answer trivial
        | some delay =>
          obtain ⟨input, hin, hta⟩ := (ho ▸ (formed_of_node? h hn).args).of_getElem? hdelay
          obtain rfl : Input.amount = input := Option.some.inj hin
          have hf (x : NodeId) (hx : x ∈ delay.nodes) : m.Feeds d id x :=
            feeds_operand h.toSound hn hd (Arg.nodesOf_of_mem (List.mem_of_getElem? hdelay) hx)
          refine (safe_argument hta rfl rfl hf).bind fun v _ => ?_
          cases v.int? <;> exact .answer trivial
  | alternative =>
    refine (safe_intervalAt h hn hd ho (i := 0) rfl).bind fun _ _ =>
      (safe_listArg h hn hd ho (i := 1) rfl).bind fun _ has => ?_
    exact (safe_intervalsOf has).bind fun _ _ => .answer trivial
  | span =>
    refine (safe_intervalAt h hn hd ho (i := 0) rfl).bind fun _ _ =>
      (safe_listArg h hn hd ho (i := 1) rfl).bind fun _ has => ?_
    exact (safe_intervalsOf has).bind fun _ _ => .answer trivial
  | noOverlap =>
    refine (safe_noOverlapItems h hn hd ho).bind fun p hp => ?_
    obtain ⟨items, types⟩ := p
    exact (safe_intervalsOf hp).bind fun _ _ => .answer trivial
  | cumulBound b => exact (safe_cumulBoundHolds h hn hd ho).map fun _ _ => trivial
  | forbid what =>
    refine (safe_intervalAt h hn hd ho (i := 0) rfl).bind fun _ _ =>
      (safe_arg h hn hd ho (i := 1) rfl).bind fun a ⟨ha, hf⟩ => ?_
    exact (safe_stepPoints h ha hf).bind fun _ _ => .answer trivial
  | _ => exact .answer trivial

/-! ### Nodes -/

omit h hn hd in
theorem safe_binary {α : Type} {read : NodeId → Node → Nat → Query (Option α)} {g : α → α → Value}
    {P : Value → Prop}
    (ha : (read id n 0).Safe (m.Before d) m.Yields (m.Excuses id) (fun _ => True))
    (hb : (read id n 1).Safe (m.Before d) m.Yields (m.Excuses id) (fun _ => True))
    (hg : ∀ a b, P (g a b)) (habsent : P .absent) :
    (binary read g id n).Safe (m.Before d) m.Yields (m.Excuses id) P := by
  refine ha.bind fun a _ => hb.bind fun b _ => ?_
  cases a <;> cases b <;> first | exact .answer (hg _ _) | exact .answer habsent

omit h hn hd in
theorem safe_unary {α : Type} {read : NodeId → Node → Nat → Query (Option α)} {g : α → Value}
    {P : Value → Prop}
    (ha : (read id n 0).Safe (m.Before d) m.Yields (m.Excuses id) (fun _ => True))
    (hg : ∀ a, P (g a)) (habsent : P .absent) :
    (unary read g id n).Safe (m.Before d) m.Yields (m.Excuses id) P := by
  refine ha.bind fun a _ => ?_
  cases a <;> first | exact .answer (hg _) | exact .answer habsent

/-- The presence of a node can be asked whatever its kind. -/
theorem safe_presence (ho : n.operator = .presence) {g : Value → Value} {P : Value → Prop}
    (hg : ∀ v, P (g v)) :
    (n.arg id 0 >>= fun a => a.value >>= fun v => .answer (g v)).Safe (m.Before d) m.Yields
      (m.Excuses id) P := by
  refine Safe.bind (P := fun a => ∃ x ∈ n.operands, a = .node x) ?_ fun a ⟨x, hx, ha⟩ => ?_
  · obtain ⟨a, hargs, ha⟩ := (ho ▸ (formed_of_node? h hn).args).single rfl rfl
    rw [Node.arg, hargs]
    cases a with
    | node x =>
      refine .answer ⟨x, ?_, rfl⟩
      rw [Node.operands, hargs]
      exact List.mem_singleton_self x
    | _ => exact ha.elim
  · subst ha
    have hf := feeds_operand h.toSound hn hd hx
    obtain ⟨n', hn'⟩ := hf.1.1.exists_node
    refine (Safe.value (P := fun _ => True) hf.1 (fun e he => ?_) fun _ _ => trivial).bind
      fun v _ => .answer (hg v)
    obtain _ | he := he n' hn'
    exact he.elim (hf.2 e) fun hno _ => .presence hn ho hx hno

/-- A node of a kind with values has one of its kind. -/
theorem safe_scalarValue (hs : n.kind.isScalar) :
    (m.nodeValue s d id n).Safe (m.Before d) m.Yields (m.Excuses id)
      (fun v => v.fits n.kind) := by
  have hvar (hv : n.operator.isVariable) (hq : n.operator ≠ .sequenceVar) :
      (variableValue s id n).Safe (m.Before d) m.Yields (m.Excuses id)
        (fun v => v.fits n.kind) := safe_variableValue hv hq
  have hholds : (m.constraintValue d id n).Safe (m.Before d) m.Yields (m.Excuses id)
      (fun _ => True) := safe_constraintValue h hn hd
  rw [Node.kind] at hs hvar ⊢
  unfold nodeValue
  cases ho : n.operator with
  | intVar | boolVar | floatVar | intervalVar =>
    rw [ho] at hvar
    exact hvar rfl (by decide)
  | intConst | floatConst | boolConst => exact safe_argValue h hn hd ho (i := 0) rfl rfl rfl
  | int op =>
    exact safe_binary (safe_intAt h hn hd ho (i := 0) rfl rfl)
      (safe_intAt h hn hd ho (i := 1) rfl rfl) (fun _ _ => Value.fits_ofInt? _) rfl
  | intNeg | intAbs =>
    exact safe_unary (safe_intAt h hn hd ho (i := 0) rfl rfl) (fun _ => Value.fits_ofInt? _) rfl
  | intAggregate op =>
    refine (safe_listArg h hn hd ho (i := 0) rfl).bind fun as has => ?_
    exact (safe_presentOf has rfl fun _ => Value.isAbsent_of_int?).bind fun _ _ =>
      .answer (Value.fits_ofInt? _)
  | float op =>
    exact safe_binary (safe_floatAt h hn hd ho (i := 0) rfl rfl)
      (safe_floatAt h hn hd ho (i := 1) rfl rfl) (fun _ _ => Value.fits_ofFloat? _) rfl
  | floatNeg | floatAbs =>
    exact safe_unary (safe_floatAt h hn hd ho (i := 0) rfl rfl) (fun _ => rfl) rfl
  | floatAggregate op =>
    refine (safe_listArg h hn hd ho (i := 0) rfl).bind fun as has => ?_
    exact (safe_presentOf has rfl fun _ => Value.isAbsent_of_float?).bind fun _ _ =>
      .answer (Value.fits_ofFloat? _)
  | intGuard | floatGuard =>
    refine safe_argValue_bind h hn hd ho (i := 0) rfl rfl rfl fun v hv => ?_
    by_cases ha : v.isAbsent
    · rw [if_pos ha]
      exact safe_argValue h hn hd ho (i := 1) rfl rfl rfl
    · rw [if_neg ha]
      exact .answer hv
  | presence => exact safe_presence h hn hd ho fun _ => rfl
  | identity =>
    refine (safe_floatAt h hn hd ho (i := 0) rfl rfl).bind fun _ _ => ?_
    exact (safe_floatAt h hn hd ho (i := 1) rfl rfl).bind fun _ _ => .answer rfl
  | compare c =>
    exact safe_binary (safe_floatAt h hn hd ho (i := 0) rfl rfl)
      (safe_floatAt h hn hd ho (i := 1) rfl rfl) (fun _ _ => rfl) rfl
  | inRange =>
    refine (safe_floatAt h hn hd ho (i := 0) rfl rfl).bind fun x _ => ?_
    cases x with
    | none => exact .answer rfl
    | some x =>
      refine (safe_floatAt h hn hd ho (i := 1) rfl rfl).bind fun _ _ => ?_
      exact (safe_floatAt h hn hd ho (i := 2) rfl rfl).bind fun _ _ => .answer rfl
  | connect c =>
    exact safe_binary (safe_boolAt h hn hd ho (i := 0) rfl rfl)
      (safe_boolAt h hn hd ho (i := 1) rfl rfl) (fun _ _ => rfl) rfl
  | not => exact safe_unary (safe_boolAt h hn hd ho (i := 0) rfl rfl) (fun _ => rfl) rfl
  | measure what =>
    refine (safe_intervalAt h hn hd ho (i := 0) rfl).bind fun interval _ => ?_
    cases interval with
    | some interval => exact .answer (Value.fits_ofInt? _)
    | none => exact .answer rfl
  | measureOr what =>
    refine (safe_intervalAt h hn hd ho (i := 0) rfl).bind fun interval _ => ?_
    cases interval with
    | some interval => exact .answer (Value.fits_ofInt? _)
    | none => exact safe_argValue h hn hd ho (i := 1) rfl rfl rfl
  | stepFunctionEval =>
    refine (safe_arg h hn hd ho (i := 0) rfl).bind fun a ha =>
      (safe_stepPoints h ha.1 ha.2).bind fun f _ =>
        (safe_intAt h hn hd ho (i := 1) rfl rfl).bind fun t _ => ?_
    cases t <;> exact .answer rfl
  | stepFunctionSum =>
    refine (safe_arg h hn hd ho (i := 0) rfl).bind fun a ha =>
      (safe_stepPoints h ha.1 ha.2).bind fun f _ =>
        (safe_intervalAt h hn hd ho (i := 1) rfl).bind fun interval _ => ?_
    cases interval with
    | none => exact .answer rfl
    | some interval =>
      cases hsum : f.sum? interval.1 interval.2 with
      | none =>
        simp only [hsum]
        exact .fail (excuses_of_not_structural rfl)
      | some total =>
        simp only [hsum]
        exact .answer rfl
  | precedence | alternative | span | noOverlap | cumulBound | forbid =>
    exact hholds.bind fun _ _ => .answer (Value.fits_ofBool? _)
  | sequenceVar | stepFunction | intervalStep | stepAt | cumulPlus | cumulMinus | cumulNeg
  | cumulSum =>
    rw [ho] at hs
    cases hs

/-- A node has a value of its kind; one of a kind without values says so. -/
theorem safe_nodeValue : (m.nodeValue s d id n).Safe (m.Before d) m.Yields
    (fun e => m.Excuses id e ∨ m.Valueless id e) (fun v => v.fits n.kind) := by
  by_cases hs : n.kind.isScalar
  · exact (safe_scalarValue h hn hd hs).imp (fun _ hx => hx) (fun _ he => .inl he) fun _ hv => hv
  · rw [Bool.not_eq_true] at hs
    rw [nodeValue_of_not_scalar hs]
    exact .fail (.inr ⟨n, hn, hs, rfl⟩)

end Nodes

/-- Whether a constraint or a truth-valued node holds can be said. -/
theorem safe_holdsQuery (hx : m.Before d x) (hb : m.constrains x ∨ m.Is .boolean x) :
    (m.holdsQuery d x).Safe (m.Before d) m.Yields (m.Excuses x) (fun _ => True) := by
  obtain ⟨n, hn⟩ := hx.1.exists_node
  refine (safe_lookup hn).bind fun n' hn' => ?_
  subst hn'
  by_cases ho : n'.operator.isConstraint
  · rw [if_pos ho]
    exact safe_constraintValue h hn (Nat.le_of_lt hx.2)
  · rw [if_neg ho]
    have hbool : m.Is .boolean x := hb.resolve_left (by simp [constrains, hn, ho])
    refine (safe_value ⟨hx, fun _ he => he⟩ hbool rfl).bind fun v hv => ?_
    by_cases ha : v.isAbsent
    · rw [if_pos ha]
      exact .answer trivial
    · rw [if_neg ha]
      cases hr : v.bool? with
      | some b => exact .answer trivial
      | none => exact absurd (Value.isAbsent_of_bool? hv hr) ha

end Model

end Scheduling
