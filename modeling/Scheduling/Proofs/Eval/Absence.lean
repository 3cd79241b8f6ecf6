import Scheduling.Proofs.Eval.Aggregates
import Scheduling.Proofs.Eval.Answers
import Scheduling.Proofs.Eval.Soundness

/-!
# Absence

When a node is absent (`Model.Lacks`). Most nodes are absent as soon as an operand is. Guards,
presence, identity, the measures with a default, the sum of floats and the constraints over lists
never are; the least and the greatest of a list are when the whole list is. With operands that are
present, only integers that do not fit in 64 bits and divisions by zero are absent
(`Operator.Undefined`). So it is for every node that answers, of a model that calls have built and
under a solution whose variables are in their domains (`Model.absent_iff`).
-/

namespace Scheduling

open Query (Answers resolve_bind_eq)

/-! ### Results -/

namespace Arithmetic

/-- An operator on integers has no result: it does not fit in 64 bits, or the divisor is zero. -/
inductive Undefined : Arithmetic → Int → Int → Prop where
  | plus {a b : Int} : ¬ Fits (a + b) → Undefined plus a b
  | minus {a b : Int} : ¬ Fits (a - b) → Undefined minus a b
  | times {a b : Int} : ¬ Fits (a * b) → Undefined times a b
  | quotient {a b : Int} : ¬ Fits (a.tdiv b) → Undefined div a b
  | zero {a : Int} : Undefined div a 0

theorem ints?_eq_none {op : Arithmetic} {a b : Int} : op.ints? a b = none ↔ op.Undefined a b := by
  cases op with
  | plus => exact checked_eq_none.trans ⟨.plus, fun | .plus h => h⟩
  | minus => exact checked_eq_none.trans ⟨.minus, fun | .minus h => h⟩
  | times => exact checked_eq_none.trans ⟨.times, fun | .times h => h⟩
  | div =>
    rw [ints?, checkedDiv]
    split
    · rename_i hzero
      exact iff_of_true rfl (hzero ▸ .zero)
    · rename_i hzero
      exact checked_eq_none.trans ⟨.quotient, fun | .quotient h => h | .zero => absurd rfl hzero⟩
  | min2 | max2 => exact iff_of_false nofun nofun

theorem floats?_eq_none {op : Arithmetic} {a b : Float} :
    op.floats? a b = none ↔ op = div ∧ b == 0.0 := by
  cases op with
  | div =>
    rw [floats?]
    split
    · rename_i hzero
      exact iff_of_true rfl ⟨rfl, hzero⟩
    · rename_i hzero
      exact iff_of_false nofun fun h => hzero h.2
  | _ => exact iff_of_false nofun nofun

end Arithmetic

theorem Aggregate.reduce?_eq_none {f : Float → Float → Float} {xs : List Float} :
    reduce? f xs = none ↔ xs = [] := by
  cases xs with
  | nil => exact iff_of_true rfl rfl
  | cons x xs => exact iff_of_false nofun nofun

/-- An operator has no result on values: an integer does not fit in 64 bits, or it divides by zero. -/
def Operator.Undefined : Operator → List Value → Prop
  | .int op, [v, w] => ∃ a b, v.int? = some a ∧ w.int? = some b ∧ op.Undefined a b
  | .intNeg, [v] => ∃ a, v.int? = some a ∧ ¬ Fits (-a)
  | .intAbs, [v] => ∃ a, v.int? = some a ∧ ¬ Fits a.natAbs
  | .float .div, [v, w] => ∃ a b, v.float? = some a ∧ w.float? = some b ∧ b == 0.0
  | _, _ => False

namespace Operator

variable {op : Arithmetic} {v w : Value}

theorem undefined_int {a b : Int} (hv : v.int? = some a) (hw : w.int? = some b) :
    (int op).Undefined [v, w] ↔ op.Undefined a b := by
  simp [Undefined, hv, hw]

theorem undefined_intNeg {a : Int} (hv : v.int? = some a) : intNeg.Undefined [v] ↔ ¬ Fits (-a) := by
  simp [Undefined, hv]

theorem undefined_intAbs {a : Int} (hv : v.int? = some a) :
    intAbs.Undefined [v] ↔ ¬ Fits a.natAbs := by
  simp [Undefined, hv]

theorem undefined_float {a b : Float} (hv : v.float? = some a) (hw : w.float? = some b) :
    (float op).Undefined [v, w] ↔ op = .div ∧ b == 0.0 := by
  cases op <;> simp [Undefined, hv, hw]

end Operator

namespace Value

theorem ofInt?_eq_absent {o : Option Int} : ofInt? o = .absent ↔ o = none := by
  cases o <;> simp [ofInt?]

theorem ofFloat?_eq_absent {o : Option Float} : ofFloat? o = .absent ↔ o = none := by
  cases o <;> simp [ofFloat?]

theorem ofBool?_eq_absent {o : Option Bool} : ofBool? o = .absent ↔ o = none := by
  cases o <;> simp [ofBool?]

end Value

/-! ### What a node needs -/

/-- What a node needs to have a value. -/
inductive Need where
  /-- It always has one. -/
  | nothing
  /-- An operand that is present. -/
  | operand
  /-- A sum of the operands that are present. -/
  | sum
  /-- All operands, and a result on their values. -/
  | operands

/-- What a node with the operator needs to have a value. -/
def Operator.need : Operator → Need
  | intGuard | floatGuard | presence | identity | measureOr _ | floatAggregate .sum => .nothing
  | alternative | span | noOverlap | cumulBound _ => .nothing
  | intAggregate .min | intAggregate .max | floatAggregate .min | floatAggregate .max => .operand
  | intAggregate .sum => .sum
  | _ => .operands

namespace Model

variable {α : Type} {m : Model} {s : Solution} {id x y : NodeId} {xs : List NodeId} {n : Node}
  {a b : Arg} {v w : Value} {vs : List Value} {o : Option α} {read : Value → Option α}
  {U : List Value → Prop}

/-! ### What makes a node absent -/

/-- The nodes have the values, one by one. -/
abbrev HaveValues (m : Model) (s : Solution) (xs : List NodeId) (vs : List Value) : Prop :=
  List.Forall₂ (fun x v => m.eval s x = .ok v) xs vs

/-- A node is absent, or the values of all nodes are as `U` says. -/
def SomeAbsentOr (m : Model) (s : Solution) (xs : List NodeId) (U : List Value → Prop) : Prop :=
  (∃ x ∈ xs, m.eval s x = .ok .absent) ∨ ∃ vs, m.HaveValues s xs vs ∧ U vs

/-- What the absence of a node comes from. -/
def Lacks (m : Model) (s : Solution) (n : Node) : Prop :=
  match n.operator.need with
  | .nothing => False
  | .operand => ∀ x ∈ n.operands, m.eval s x = .ok .absent
  | .sum => ∃ vs, m.HaveValues s n.operands vs ∧
      ¬ Aggregate.PartialSumsFit (vs.filterMap Value.int?)
  | .operands => m.SomeAbsentOr s n.operands n.operator.Undefined

theorem HaveValues.unique {ws : List Value} (h : m.HaveValues s xs vs) (h' : m.HaveValues s xs ws) :
    vs = ws := by
  induction h generalizing ws with
  | nil => exact (List.forall₂_nil_left_iff.1 h').symm
  | cons hv _ ih =>
    obtain ⟨w, ws, hw, hws, rfl⟩ := List.forall₂_cons_left_iff.1 h'
    rw [Except.ok.inj (hv.symm.trans hw), ih hws]

theorem HaveValues.mem (h : m.HaveValues s xs vs) (hx : x ∈ xs) : ∃ v ∈ vs, m.eval s x = .ok v :=
  exists_of_forall₂ h.flip hx

section Lacks

variable {op : Operator} (ho : n.operator = op)

include ho

theorem not_lacks (hneed : op.need = .nothing) : ¬ m.Lacks s n := by
  rw [Lacks, ho, hneed]
  exact not_false

theorem lacks_iff_forall (hneed : op.need = .operand) :
    m.Lacks s n ↔ ∀ x ∈ n.operands, m.eval s x = .ok .absent := by
  rw [Lacks, ho, hneed]

theorem lacks_iff_sum (hneed : op.need = .sum) (h : m.HaveValues s n.operands vs) :
    m.Lacks s n ↔ ¬ Aggregate.PartialSumsFit (vs.filterMap Value.int?) := by
  rw [Lacks, ho, hneed]
  refine ⟨?_, fun hno => ⟨vs, h, hno⟩⟩
  rintro ⟨ws, hws, hno⟩
  rwa [h.unique hws]

theorem lacks_iff (hneed : op.need = .operands) :
    m.Lacks s n ↔ m.SomeAbsentOr s n.operands op.Undefined := by
  rw [Lacks, ho, hneed]

theorem lacks_iff_exists (hneed : op.need = .operands) (hU : ∀ vs, ¬ op.Undefined vs) :
    m.Lacks s n ↔ ∃ x ∈ n.operands, m.eval s x = .ok .absent :=
  (lacks_iff ho hneed).trans (or_iff_left fun ⟨vs, _, hvs⟩ => hU vs hvs)

end Lacks

/-- Where all nodes are present, it is their values that count. -/
theorem someAbsentOr_iff (h : m.HaveValues s xs vs) (hvs : .absent ∉ vs) :
    m.SomeAbsentOr s xs U ↔ U vs := by
  constructor
  · rintro (⟨x, hx, habsent⟩ | ⟨ws, hws, hU⟩)
    · obtain ⟨v, hv, hxv⟩ := h.mem hx
      exact absurd (Except.ok.inj (habsent.symm.trans hxv) ▸ hv) hvs
    · rwa [h.unique hws]
  · exact fun hU => .inr ⟨vs, h, hU⟩

/-! ### Values of operands -/

section Sound

variable (h : Sound m)

include h

theorem argValue_node : m.argValue s (.node x) = m.eval s x := by
  rw [eval_eq h]
  show (Query.value x).resolve _ = _
  rw [Query.value, Query.resolve]
  cases m.value s x <;> rfl

/-- A node that is read has a value, and is absent when nothing is read. -/
theorem Reads.exists_value (hread : read .absent = none) (hr : m.Reads s read (.node x) o) :
    ∃ v, m.eval s x = .ok v ∧ read v = o ∧ (v = .absent ↔ o = none) := by
  cases o with
  | none =>
    rw [Reads, argValue_node h] at hr
    exact ⟨.absent, hr, hread, iff_of_true rfl rfl⟩
  | some c =>
    obtain ⟨v, hv, hc⟩ := hr
    rw [argValue_node h] at hv
    refine ⟨v, hv, hc, iff_of_false ?_ (Option.some_ne_none c)⟩
    rintro rfl
    exact Option.some_ne_none c (hc.symm.trans hread)

theorem Reads.eval_absent_iff (hread : read .absent = none) (hr : m.Reads s read (.node x) o) :
    m.eval s x = .ok .absent ↔ o = none := by
  obtain ⟨v, hv, -, habsent⟩ := hr.exists_value h hread
  rw [hv, Except.ok.injEq, habsent]

/-- The values of a list that is read. -/
theorem exists_haveValues {os : List (Option α)} (hread : read .absent = none)
    (hos : List.Forall₂ (m.Reads s read) (xs.map Arg.node) os) :
    ∃ vs, m.HaveValues s xs vs ∧ vs.filterMap read = present os ∧
      (present os = [] ↔ ∀ x ∈ xs, m.eval s x = .ok .absent) := by
  induction xs generalizing os with
  | nil =>
    obtain rfl := List.forall₂_nil_left_iff.1 hos
    exact ⟨[], .nil, rfl, iff_of_true rfl nofun⟩
  | cons x xs ih =>
    obtain ⟨o, os, ho, hrest, rfl⟩ := List.forall₂_cons_left_iff.1 hos
    obtain ⟨v, hv, hvo, habsent⟩ := ho.exists_value h hread
    obtain ⟨vs, hvs, hpresent, hall⟩ := ih hrest
    refine ⟨v :: vs, .cons hv hvs, ?_, ?_⟩
    · rw [List.filterMap_cons, hvo, hpresent]
      cases o <;> rfl
    · rw [List.forall_mem_cons, ← hall, hv, Except.ok.injEq, habsent]
      cases o <;> simp [present]

/-- What an operator makes of the operands of a list that are present. -/
theorem answers_list {flaw : NodeFlaw} {f : List α → Value} {P : Value → Prop}
    (hread : read .absent = none) (hargs : n.args = [.list (xs.map .node)])
    (hf : ∀ vs, m.HaveValues s xs vs →
      (vs.filterMap read = [] ↔ ∀ x ∈ xs, m.eval s x = .ok .absent) → P (f (vs.filterMap read))) :
    (n.listArg id 0 >>= fun items => Node.presentOf read flaw id n items >>= fun cs =>
      .answer (f cs)).Answers (m.value s) P := by
  refine (answers_listArg (by rw [hargs]; rfl) rfl).bind ?_
  rintro items rfl
  refine answers_presentOf.bind ?_
  rintro cs ⟨os, hos, rfl⟩
  obtain ⟨vs, hvs, hlist, hall⟩ := exists_haveValues h hread hos
  rw [← hlist] at hall ⊢
  exact .answer (hf vs hvs hall)

theorem eval_ne_ok_of_not_scalar (hn : m.node? id = some n) (hs : n.kind.isScalar = false) :
    m.eval s id ≠ .ok v := by
  rw [eval_node h hn, nodeValue_of_not_scalar hs]
  exact nofun

/-- Whether a node holds is absent when its value is. -/
theorem evalConstraint_eq_none_iff (hn : m.node? id = some n) (hv : m.eval s id = .ok v) :
    m.evalConstraint s id = .ok none ↔ v = .absent := by
  cases ho : n.operator.isConstraint with
  | true =>
    rw [eval_constraint h hn ho] at hv
    cases hc : m.evalConstraint s id with
    | error e =>
      rw [hc] at hv
      cases hv
    | ok o =>
      rw [hc] at hv
      obtain rfl := Except.ok.inj hv
      rw [Value.ofBool?_eq_absent, Except.ok.injEq]
  | false =>
    rw [eval_eq h] at hv
    rw [evalConstraint_eq h, Model.holds, holdsQuery, resolve_lookup, hn]
    simp only [ho, Bool.false_eq_true, if_false]
    show (Query.value id >>= fun v => _).resolve _ = _ ↔ _
    rw [resolve_bind_eq, Query.value, Query.resolve, hv]
    cases v with
    | absent => exact iff_of_true rfl rfl
    | _ => exact iff_of_false (by rintro ⟨⟩) (by rintro ⟨⟩)

/-! ### Nodes that are absent with an operand -/

theorem answers_unary {flaw : Nat → NodeFlaw} {f : α → Value} (hread : read .absent = none)
    (hargs : n.args = [.node x]) (hops : n.operands = [x])
    (hf : ∀ v c, read v = some c → (f c = .absent ↔ U [v])) :
    (unary (Node.readArg read flaw) f id n).Answers (m.value s)
      (fun v => v = .absent ↔ m.SomeAbsentOr s n.operands U) := by
  refine (answers_readArg (by rw [hargs]; rfl)).bind fun o ho => ?_
  obtain ⟨v, hv, hvo, habsent⟩ := ho.exists_value h hread
  rw [hops]
  cases o with
  | none =>
    rw [habsent.2 rfl] at hv
    exact .answer (iff_of_true rfl (.inl ⟨x, List.mem_singleton_self x, hv⟩))
  | some c =>
    have hvs : m.HaveValues s [x] [v] := .cons hv .nil
    refine .answer ?_
    rw [someAbsentOr_iff hvs (by simpa [eq_comm] using habsent)]
    exact hf v c hvo

theorem answers_binary {flaw : Nat → NodeFlaw} {f : α → α → Value} (hread : read .absent = none)
    (hargs : n.args = [.node x, .node y]) (hops : n.operands = [x, y])
    (hf : ∀ v w c d, read v = some c → read w = some d → (f c d = .absent ↔ U [v, w])) :
    (binary (Node.readArg read flaw) f id n).Answers (m.value s)
      (fun v => v = .absent ↔ m.SomeAbsentOr s n.operands U) := by
  refine (answers_readArg (by rw [hargs]; rfl)).bind fun o ho => ?_
  refine (answers_readArg (by rw [hargs]; rfl)).bind fun p hp => ?_
  obtain ⟨v, hv, hvo, hx⟩ := ho.exists_value h hread
  obtain ⟨w, hw, hwp, hy⟩ := hp.exists_value h hread
  rw [hops]
  cases o with
  | none =>
    rw [hx.2 rfl] at hv
    exact .answer (iff_of_true rfl (.inl ⟨x, by simp, hv⟩))
  | some c =>
    cases p with
    | none =>
      rw [hy.2 rfl] at hw
      exact .answer (iff_of_true rfl (.inl ⟨y, by simp, hw⟩))
    | some d =>
      have hvs : m.HaveValues s [x, y] [v, w] := .cons hv (.cons hw .nil)
      refine .answer ?_
      rw [someAbsentOr_iff hvs (by simp_all [eq_comm])]
      exact hf v w c d hvo hwp

/-! ### Intervals in their domains -/

omit h in
/-- Every variable passes the check of its domain. -/
def InDomains (m : Model) (s : Solution) : Prop :=
  ∀ x ∈ m.variableIds, (Evaluator.checkDomain m s x (Evaluator.start m)).1 = .ok ()

/-- The length of an interval in its domain fits in 64 bits. -/
theorem InDomains.fits_length {start finish : Int} (hd : m.InDomains s) (hx : m.Is .interval x)
    (hv : m.eval s x = .ok (.interval start finish)) : Fits (finish - start) := by
  obtain ⟨n, hn, hk⟩ := hx
  have ho : n.operator = .intervalVar := eq_intervalVar hk
  have hmem : x ∈ m.variableIds := by
    simp [variableIds, mem_ids, has_of_node? hn, hn, ho, Operator.isVariable]
  have hbounds : (checkBounds x n (.interval start finish)).Answers (m.value s)
      (fun _ => Fits (finish - start)) := by
    unfold checkBounds
    rw [ho]
    refine (Answers.unknown _).bind fun _ _ => (Answers.unknown _).bind fun _ _ => ?_
    cases hlength : checked (finish - start) with
    | none => exact .fail
    | some length => exact (Answers.unknown _).imp fun _ _ => (checked_eq_some.1 hlength).1
  have hquery : (m.domainQuery x).Answers (m.value s) (fun _ => Fits (finish - start)) := by
    refine (answers_lookup hn).bind ?_
    rintro n rfl
    rw [if_neg (by rw [ho]; rintro ⟨⟩)]
    refine (answers_value (.node x)).bind fun v hx => ?_
    rw [argValue_node h, hv] at hx
    obtain rfl := Except.ok.inj hx
    cases n.presence.getD .present <;> first | exact hbounds | exact .fail
  have hcheck := hd x hmem
  rw [Evaluator.checkDomain, (resolveWith_eq h _ (remembers_start _ m m s)).1] at hcheck
  exact hquery () hcheck

/-- A measure of an interval in its domain is there. -/
theorem measured_ne_absent (hd : m.InDomains s) (hx : m.Is .interval x) {i : Int × Int}
    (hr : m.Reads s Value.interval? (.node x) (some i)) (what : Measure) :
    Value.ofInt? (what.of? i) ≠ .absent := by
  obtain ⟨v, hv, hi, -⟩ := hr.exists_value h rfl
  cases v with
  | interval start finish =>
    obtain rfl := Option.some.inj hi
    have hfits : Fits (finish - start) := hd.fits_length h hx hv
    rw [Ne, Value.ofInt?_eq_absent]
    cases what with
    | length => exact fun hnone => checked_eq_none.1 hnone hfits
    | _ => exact nofun
  | _ => exact nomatch hi

end Sound

/-! ### Nodes that calls have built -/

section Built

variable {asked : NodeId → Prop} {sent : List NodeId} (h : Built m asked sent)

include h

/-- A node that is as asked has a value of the kind. -/
theorem fits_of_eval {e : Expectation} (hx : m.Is e x) (he : e.kind.isScalar)
    (hv : m.eval s x = .ok v) : v.fits e.kind := by
  obtain ⟨n, hn, hk⟩ := hx
  have hends := ends_eval (s := s) h hn (Expectation.isScalar_of_accepts hk he)
  rw [hv] at hends
  obtain hfits | _ := hends
  exact Expectation.fits_of_accepts hk hfits

theorem eval_stepFunction_ne (hx : m.Is .stepFunction x) : m.eval s x ≠ .ok v := by
  obtain ⟨n, hn, hk⟩ := hx
  refine eval_ne_ok_of_not_scalar h.toSound hn ?_
  cases hkind : n.kind <;> simp_all [Expectation.accepts, Kind.isScalar]

/-- A node is absent with the one operand that has a value. -/
theorem lacks_iff_none {op : Operator} (ho : n.operator = op) (hneed : op.need = .operands)
    (hU : ∀ vs, ¬ op.Undefined vs) (hread : read .absent = none)
    (hr : m.Reads s read (.node x) o) (hx : x ∈ n.operands)
    (hothers : ∀ y ∈ n.operands, y = x ∨ m.Is .stepFunction y) : m.Lacks s n ↔ o = none := by
  rw [lacks_iff_exists ho hneed hU, ← hr.eval_absent_iff h.toSound hread]
  constructor
  · rintro ⟨y, hy, habsent⟩
    obtain rfl | hf := hothers y hy
    · exact habsent
    · exact absurd habsent (eval_stepFunction_ne h hf)
  · exact fun habsent => ⟨x, hx, habsent⟩

/-- An amount is there unless it is a node that is absent. -/
theorem answers_amount (ha : m.Takes .amount a) : a.value.Answers (m.value s)
    (fun v => v.int? = none ↔ ∃ x ∈ a.nodes, m.eval s x = .ok .absent) := by
  refine (answers_value a).imp fun v hv => ?_
  cases a with
  | int k =>
    obtain rfl := Except.ok.inj hv
    exact iff_of_false nofun (by simp [Arg.nodes])
  | node x =>
    rw [argValue_node h.toSound] at hv
    have hfits : v.fits .int := fits_of_eval h (e := .integral) ha rfl hv
    simp only [Arg.nodes, List.mem_singleton, exists_eq_left, hv, Except.ok.injEq]
    exact ⟨fun hnone => Value.isAbsent_iff.1 (Value.isAbsent_of_int? hfits hnone), fun h => h ▸ rfl⟩
  | _ => exact ha.elim

variable (hn : m.node? id = some n)

include hn

section Arguments

variable {op : Operator} {e e' : Expectation} {input : Input}

theorem exists_unary (ho : n.operator = op)
    (hin : op.inputs = [.node e]) (hle : op.arity.1 = 1) :
    ∃ x, n.args = [.node x] ∧ n.operands = [x] ∧ m.Is e x := by
  obtain ⟨a, hargs, ha⟩ := (ho ▸ (formed_of_node? h hn).args).single hin hle
  cases a with
  | node x => exact ⟨x, hargs, by rw [Node.operands, hargs]; rfl, ha⟩
  | _ => exact ha.elim

theorem exists_binary (ho : n.operator = op)
    (hin : op.inputs = [.node e, .node e']) (hle : op.arity.1 = 2) :
    ∃ x y, n.args = [.node x, .node y] ∧ n.operands = [x, y] ∧ m.Is e x ∧ m.Is e' y := by
  obtain ⟨a, b, hargs, ha, hb⟩ := (ho ▸ (formed_of_node? h hn).args).pair hin hle
  cases a with
  | node x =>
    cases b with
    | node y => exact ⟨x, y, hargs, by rw [Node.operands, hargs]; rfl, ha, hb⟩
    | _ => exact hb.elim
  | _ => exact ha.elim

theorem exists_list (ho : n.operator = op)
    (hin : op.inputs = [.nodes e]) (hle : op.arity.1 = 1) :
    ∃ xs : List NodeId, n.args = [.list (xs.map .node)] ∧ n.operands = xs := by
  obtain ⟨a, hargs, ha⟩ := (ho ▸ (formed_of_node? h hn).args).single hin hle
  cases a with
  | list items =>
    obtain ⟨xs, rfl, -⟩ := ha
    refine ⟨xs, hargs, ?_⟩
    rw [Node.operands, hargs, Arg.nodesOf, Arg.nodesOf, List.append_nil, Arg.nodes, nodesOf_map_node]
  | _ => exact ha.elim

theorem exists_inRange (ho : n.operator = .inRange) :
    ∃ x, n.args[0]? = some (.node x) ∧ n.operands = [x] := by
  obtain ⟨a, b, ha, hb, ⟨-, hle⟩ | ⟨c, hargs, hc⟩⟩ :=
    (ho ▸ (formed_of_node? h hn).args).triple rfl (Nat.le_succ 2)
  · exact nomatch hle
  · cases a with
    | node x =>
      cases b with
      | float =>
        cases c with
        | float => exact ⟨x, by rw [hargs]; rfl, by rw [Node.operands, hargs]; rfl⟩
        | _ => exact hc.elim
      | _ => exact hb.elim
    | _ => exact ha.elim

/-- What a node with a value to fall back on makes of it. -/
theorem exists_default (ho : n.operator = op)
    (hin : op.inputs = [.node e, input]) (hle : op.arity.1 = 2)
    (hinput : input = .int ∨ input = .float) :
    ∃ x b, n.args = [.node x, b] ∧ m.Is e x ∧ ∀ v, m.argValue s b = .ok v → v ≠ .absent := by
  obtain ⟨a, b, hargs, ha, hb⟩ := (ho ▸ (formed_of_node? h hn).args).pair hin hle
  cases a with
  | node x =>
    refine ⟨x, b, hargs, ha, fun v hv => ?_⟩
    obtain rfl | rfl := hinput <;> cases b <;> first
      | exact hb.elim
      | exact Except.ok.inj hv ▸ nofun
  | _ => exact ha.elim

end Arguments

omit h hn in
theorem answers_default (hargs : n.args[1]? = some b)
    (hb : ∀ v, m.argValue s b = .ok v → v ≠ .absent) :
    (n.arg id 1 >>= Arg.value).Answers (m.value s) (fun v => v ≠ .absent) := by
  refine (answers_arg hargs).bind ?_
  rintro b rfl
  exact (answers_value _).imp hb

/-! ### Constraints -/

/-- A precedence is absent with an interval, and with its delay. -/
theorem answers_precedence (depth : Nat) {p : Precedence} (ho : n.operator = .precedence p) :
    (m.constraintValue depth id n).Answers (m.value s)
      (fun o => o = none ↔ ∃ x ∈ n.operands, m.eval s x = .ok .absent) := by
  obtain ⟨a, b, ha, hb, hargs⟩ := (ho ▸ (formed_of_node? h hn).args).triple rfl (Nat.le_refl 2)
  obtain ⟨rest, hargs, hrest⟩ : ∃ rest, n.args = a :: b :: rest ∧
      (rest = [] ∨ ∃ c, rest = [c] ∧ m.Takes .amount c) := by
    obtain ⟨hargs, -⟩ | ⟨c, hargs, hc⟩ := hargs
    · exact ⟨[], hargs, .inl rfl⟩
    · exact ⟨[c], hargs, .inr ⟨c, rfl, hc⟩⟩
  cases a with
  | node x =>
    cases b with
    | node y =>
      have hops : n.operands = x :: y :: Arg.nodesOf rest := by
        rw [Node.operands, hargs]
        rfl
      unfold constraintValue
      rw [ho]
      refine (answers_intervalAt (by rw [hargs]; rfl)).bind fun oa hoa => ?_
      refine (answers_intervalAt (by rw [hargs]; rfl)).bind fun ob hob => ?_
      have hx := hoa.eval_absent_iff h.toSound rfl
      have hy := hob.eval_absent_iff h.toSound rfl
      simp only [hops, List.exists_mem_cons_iff, hx, hy]
      cases oa with
      | none => exact .answer (iff_of_true rfl (.inl rfl))
      | some i =>
        cases ob with
        | none => exact .answer (iff_of_true rfl (.inr (.inl rfl)))
        | some j =>
          -- Only now is the delay asked for; one that is written out is no operand.
          have hthird : n.args[2]? = rest[0]? := by rw [hargs]; rfl
          simp only [hthird, reduceCtorEq, false_or]
          obtain rfl | ⟨c, rfl, hc⟩ := hrest
          · exact .answer (iff_of_false (Option.some_ne_none _) (by simp [Arg.nodesOf]))
          · refine (answers_amount h hc).bind fun v hv => ?_
            rw [Arg.nodesOf, Arg.nodesOf, List.append_nil, ← hv]
            cases v.int? with
            | none => exact .answer (iff_of_true rfl rfl)
            | some d => exact .answer (iff_of_false (Option.some_ne_none _) (Option.some_ne_none d))
    | _ => exact hb.elim
  | _ => exact ha.elim

/-- When a constraint is absent. -/
theorem answers_constraintValue (depth : Nat) (hc : n.operator.isConstraint) :
    (m.constraintValue depth id n).Answers (m.value s) (fun o => o = none ↔ m.Lacks s n) := by
  have hpresent {op : Operator} (ho : n.operator = op) (hneed : op.need = .nothing) (b : Bool) :
      (Query.answer (some b)).Answers (m.value s) (fun o => o = none ↔ m.Lacks s n) :=
    .answer (iff_of_false (Option.some_ne_none b) (not_lacks ho hneed))
  cases ho : n.operator with
  | precedence p =>
    rw [lacks_iff_exists ho rfl fun _ => not_false]
    exact answers_precedence h hn depth ho
  | alternative | span =>
    rw [constraintValue, ho]
    exact (Answers.unknown _).bind fun _ _ => (Answers.unknown _).bind fun _ _ =>
      (Answers.unknown _).bind fun _ _ => hpresent ho rfl _
  | noOverlap =>
    rw [constraintValue, ho]
    exact (Answers.unknown _).bind fun _ _ => (Answers.unknown _).bind fun _ _ =>
      hpresent ho rfl _
  | cumulBound b =>
    rw [constraintValue, ho]
    exact (Answers.unknown _).bind fun _ _ => hpresent ho rfl _
  | forbid what =>
    obtain ⟨x, f, hargs, hops, -, hf⟩ := exists_binary h hn ho rfl rfl
    rw [constraintValue, ho]
    refine (answers_intervalAt (by rw [hargs]; rfl)).bind fun o hr => ?_
    refine (Answers.unknown _).bind fun _ _ => (Answers.unknown _).bind fun _ _ => .answer ?_
    rw [lacks_iff_none h ho rfl (fun _ => not_false) rfl hr (by simp [hops]) (by simp [hops, hf]),
      Option.map_eq_none_iff]
  | _ =>
    rw [ho] at hc
    cases hc

/-! ### Nodes -/

/-- A node that needs nothing is there. -/
theorem answers_total (depth : Nat) (hd : m.InDomains s) (hneed : n.operator.need = .nothing) :
    (m.nodeValue s depth id n).Answers (m.value s) (fun v => v ≠ .absent) := by
  have hconstraint (hc : n.operator.isConstraint) :
      (m.constraintValue depth id n >>= fun b => .answer (Value.ofBool? b)).Answers (m.value s)
        (fun v => v ≠ .absent) := by
    refine (answers_constraintValue h hn depth hc).bind fun o hiff => .answer ?_
    rw [Ne, Value.ofBool?_eq_absent, hiff]
    exact not_lacks rfl hneed
  unfold nodeValue
  cases ho : n.operator with
  | intGuard | floatGuard =>
    obtain ⟨x, b, hargs, -, hb⟩ := exists_default (s := s) h hn ho rfl rfl (by simp)
    refine (Answers.unknown _).bind fun _ _ => (Answers.unknown _).bind fun v _ => ?_
    cases habsent : v.isAbsent with
    | true => exact answers_default (by rw [hargs]; rfl) hb
    | false =>
      refine .answer ?_
      rintro rfl
      exact nomatch habsent
  | measureOr what =>
    obtain ⟨x, b, hargs, hx, hb⟩ := exists_default (s := s) h hn ho rfl rfl (by simp)
    refine (answers_intervalAt (by rw [hargs]; rfl)).bind fun o hr => ?_
    cases o with
    | none => exact answers_default (by rw [hargs]; rfl) hb
    | some i => exact .answer (measured_ne_absent h.toSound hd hx hr what)
  | presence | identity =>
    exact (Answers.unknown _).bind fun _ _ => (Answers.unknown _).bind fun _ _ => .answer nofun
  | floatAggregate op =>
    cases op with
    | sum =>
      exact (Answers.unknown _).bind fun _ _ => (Answers.unknown _).bind fun _ _ => .answer nofun
    | min | max =>
      rw [ho] at hneed
      exact nomatch hneed
  | alternative | span | noOverlap | cumulBound => exact hconstraint (by rw [ho]; rfl)
  | intAggregate op =>
    rw [ho] at hneed
    cases op <;> exact nomatch hneed
  | _ =>
    rw [ho] at hneed
    exact nomatch hneed

/-- A fold over a list is absent when it lacks operands, or a sum of them. -/
theorem answers_aggregate (depth : Nat)
    (hneed : n.operator.need = .operand ∨ n.operator.need = .sum) :
    (m.nodeValue s depth id n).Answers (m.value s) (fun v => v = .absent ↔ m.Lacks s n) := by
  unfold nodeValue
  cases ho : n.operator with
  | intAggregate op =>
    obtain ⟨xs, hargs, rfl⟩ := exists_list h hn ho rfl rfl
    refine answers_list h.toSound rfl hargs fun vs hvs hall => ?_
    rw [Value.ofInt?_eq_absent]
    cases op with
    | sum => rw [Aggregate.ints?_sum_eq_none, lacks_iff_sum ho rfl hvs]
    | min => rw [Aggregate.ints?, List.min?_eq_none_iff, hall, lacks_iff_forall ho rfl]
    | max => rw [Aggregate.ints?, List.max?_eq_none_iff, hall, lacks_iff_forall ho rfl]
  | floatAggregate op =>
    obtain ⟨xs, hargs, rfl⟩ := exists_list h hn ho rfl rfl
    refine answers_list h.toSound rfl hargs fun vs hvs hall => ?_
    rw [Value.ofFloat?_eq_absent]
    cases op with
    | sum => exact iff_of_false (Option.some_ne_none _) (not_lacks ho rfl)
    | min => rw [Aggregate.floats?, Aggregate.reduce?_eq_none, hall, lacks_iff_forall ho rfl]
    | max => rw [Aggregate.floats?, Aggregate.reduce?_eq_none, hall, lacks_iff_forall ho rfl]
  | _ =>
    rw [ho] at hneed
    obtain hneed | hneed := hneed <;> cases hneed

/-- A node that needs all its operands is absent without one, or without a result on them. -/
theorem answers_strict (depth : Nat) (hd : m.InDomains s) (hvar : n.operator.isVariable = false)
    (hconst : n.operator.isConstant = false) (hneed : n.operator.need = .operands) :
    (m.nodeValue s depth id n).Answers (m.value s) (fun v => v = .absent ↔ m.Lacks s n) := by
  unfold nodeValue
  cases ho : n.operator with
  | intVar | boolVar | floatVar | intervalVar =>
    rw [ho] at hvar
    exact nomatch hvar
  | intConst | floatConst | boolConst =>
    rw [ho] at hconst
    exact nomatch hconst
  | sequenceVar | stepFunction | intervalStep | stepAt | cumulPlus | cumulMinus | cumulNeg
  | cumulSum => exact .fail
  | int op =>
    obtain ⟨x, y, hargs, hops, -, -⟩ := exists_binary h hn ho rfl rfl
    rw [lacks_iff ho rfl]
    refine answers_binary h.toSound rfl hargs hops fun v w a b hv hw => ?_
    rw [Operator.undefined_int hv hw, Value.ofInt?_eq_absent, Arithmetic.ints?_eq_none]
  | intNeg =>
    obtain ⟨x, hargs, hops, -⟩ := exists_unary h hn ho rfl rfl
    rw [lacks_iff ho rfl]
    refine answers_unary h.toSound rfl hargs hops fun v a hv => ?_
    rw [Operator.undefined_intNeg hv, Value.ofInt?_eq_absent, checked_eq_none]
  | intAbs =>
    obtain ⟨x, hargs, hops, -⟩ := exists_unary h hn ho rfl rfl
    rw [lacks_iff ho rfl]
    refine answers_unary h.toSound rfl hargs hops fun v a hv => ?_
    rw [Operator.undefined_intAbs hv, Value.ofInt?_eq_absent, checked_eq_none]
  | float op =>
    obtain ⟨x, y, hargs, hops, -, -⟩ := exists_binary h hn ho rfl rfl
    rw [lacks_iff ho rfl]
    refine answers_binary h.toSound rfl hargs hops fun v w a b hv hw => ?_
    rw [Operator.undefined_float hv hw, Value.ofFloat?_eq_absent, Arithmetic.floats?_eq_none]
  | floatNeg | floatAbs | not =>
    obtain ⟨x, hargs, hops, -⟩ := exists_unary h hn ho rfl rfl
    rw [lacks_iff ho rfl]
    exact answers_unary h.toSound rfl hargs hops fun _ _ _ => iff_of_false nofun not_false
  | compare | connect =>
    obtain ⟨x, y, hargs, hops, -, -⟩ := exists_binary h hn ho rfl rfl
    rw [lacks_iff ho rfl]
    exact answers_binary h.toSound rfl hargs hops fun _ _ _ _ _ _ => iff_of_false nofun not_false
  | inRange =>
    obtain ⟨x, hargs, hops⟩ := exists_inRange h hn ho
    refine (answers_readArg hargs).bind fun o hr => ?_
    rw [lacks_iff_none h ho rfl (fun _ => not_false) rfl hr (by simp [hops]) (by simp [hops])]
    cases o with
    | none => exact .answer (iff_of_true rfl rfl)
    | some a =>
      exact (Answers.unknown _).bind fun _ _ => (Answers.unknown _).bind fun _ _ =>
        .answer (iff_of_false nofun nofun)
  | measure what =>
    obtain ⟨x, hargs, hops, hx⟩ := exists_unary h hn ho rfl rfl
    refine (answers_intervalAt (by rw [hargs]; rfl)).bind fun o hr => ?_
    rw [lacks_iff_none h ho rfl (fun _ => not_false) rfl hr (by simp [hops]) (by simp [hops])]
    cases o with
    | none => exact .answer (iff_of_true rfl rfl)
    | some i => exact .answer (iff_of_false (measured_ne_absent h.toSound hd hx hr what) nofun)
  | stepFunctionEval =>
    -- A step function has no value, so the other operand decides.
    obtain ⟨f, x, hargs, hops, hf, -⟩ := exists_binary h hn ho rfl rfl
    refine (Answers.unknown _).bind fun _ _ => (Answers.unknown _).bind fun f' _ => ?_
    refine (answers_readArg (by rw [hargs]; rfl)).bind fun o hr => ?_
    rw [lacks_iff_none h ho rfl (fun _ => not_false) rfl hr (by simp [hops]) (by simp [hops, hf])]
    cases o with
    | none => exact .answer (iff_of_true rfl rfl)
    | some t => exact .answer (iff_of_false nofun nofun)
  | stepFunctionSum =>
    obtain ⟨f, x, hargs, hops, hf, -⟩ := exists_binary h hn ho rfl rfl
    refine (Answers.unknown _).bind fun _ _ => (Answers.unknown _).bind fun f' _ => ?_
    refine (answers_intervalAt (by rw [hargs]; rfl)).bind fun o hr => ?_
    rw [lacks_iff_none h ho rfl (fun _ => not_false) rfl hr (by simp [hops]) (by simp [hops, hf])]
    cases o with
    | none => exact .answer (iff_of_true rfl rfl)
    | some i =>
      cases hsum : f'.sum? i.1 i.2 with
      | none =>
        simp only [hsum]
        exact .fail
      | some total =>
        simp only [hsum]
        exact .answer (iff_of_false nofun nofun)
  | precedence | forbid =>
    refine (answers_constraintValue h hn depth (by rw [ho]; rfl)).bind fun o hiff => .answer ?_
    rw [Value.ofBool?_eq_absent, hiff]
  | intAggregate op | floatAggregate op =>
    rw [ho] at hneed
    cases op <;> exact nomatch hneed
  | _ =>
    rw [ho] at hneed
    exact nomatch hneed

/-- When a node is absent. -/
theorem answers_nodeValue (depth : Nat) (hd : m.InDomains s) (hvar : n.operator.isVariable = false)
    (hconst : n.operator.isConstant = false) :
    (m.nodeValue s depth id n).Answers (m.value s) (fun v => v = .absent ↔ m.Lacks s n) := by
  cases hneed : n.operator.need with
  | nothing =>
    exact (answers_total h hn depth hd hneed).imp fun v hv => iff_of_false hv (not_lacks rfl hneed)
  | operand => exact answers_aggregate h hn depth (.inl hneed)
  | sum => exact answers_aggregate h hn depth (.inr hneed)
  | operands => exact answers_strict h hn depth hd hvar hconst hneed

end Built

/-- A node that answers, of a model that calls have built, is absent exactly when it lacks what it
needs to have a value: guards, presence, identity, the measures with a default, sums of floats and
constraints over lists never do, the least and the greatest need an operand that is present, a sum
needs its partial sums to fit in 64 bits, and any other node needs all its operands and a result on
them. So it is also for whether a node holds. -/
theorem absent_iff (tag : Nat) (name : Option String) (cs : List Call) (s : Solution)
    (hd : ((empty tag name).calls cs).InDomains s) {id : NodeId} {n : Node} {v : Value}
    (hn : ((empty tag name).calls cs).node? id = some n) (hvar : n.operator.isVariable = false)
    (hconst : n.operator.isConstant = false)
    (hv : ((empty tag name).calls cs).eval s id = .ok v) :
    let m := (empty tag name).calls cs
    (v = .absent ↔ m.Lacks s n) ∧ (m.evalConstraint s id = .ok none ↔ m.Lacks s n) := by
  intro m
  have h : Built m _ _ := built_calls tag name cs
  have habsent : v = .absent ↔ m.Lacks s n :=
    answers_nodeValue h hn m.nodes.size hd hvar hconst v ((eval_node h.toSound hn).symm.trans hv)
  exact ⟨habsent, (evalConstraint_eq_none_iff h.toSound hn hv).trans habsent⟩

/-- Two variables, and the quotient of one by the other. -/
def shares : List Call :=
  [.intVar ⟨none, none, none, none⟩, .intVar ⟨none, none, none, none⟩,
    .int .div (.node ⟨0, 0⟩) (.node ⟨0, 1⟩)]

/-- The divisor is zero. -/
def sharesSolution : Solution := (Solution.empty.set ⟨0, 0⟩ (.int 5)).set ⟨0, 1⟩ (.int 0)

theorem absent_iff_shares :
    let m := (empty 0 none).calls shares
    ∃ n, m.node? ⟨0, 2⟩ = some n ∧ n.operator = .int .div ∧ m.Lacks sharesSolution n ∧
      m.evalConstraint sharesSolution ⟨0, 2⟩ = .ok none := by
  intro m
  have hd : m.InDomains sharesSolution := by
    show ∀ x ∈ m.variableIds, _ = _
    decide +kernel
  obtain ⟨n, hn, ho⟩ : ∃ n, m.node? ⟨0, 2⟩ = some n ∧ n.operator = .int .div := ⟨_, rfl, rfl⟩
  have hv : m.eval sharesSolution ⟨0, 2⟩ = .ok .absent := by decide +kernel
  obtain ⟨habsent, hholds⟩ :=
    absent_iff 0 none shares sharesSolution hd hn (by rw [ho]; rfl) (by rw [ho]; rfl) hv
  exact ⟨n, hn, ho, habsent.1 rfl, hholds.2 (habsent.1 rfl)⟩

end Model

end Scheduling
