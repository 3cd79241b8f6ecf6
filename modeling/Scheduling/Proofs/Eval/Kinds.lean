import Scheduling.Proofs.Arena.History
import Scheduling.Proofs.Eval.Operands
import Scheduling.Proofs.Eval.Safe

/-!
# Values of a kind

Which values a node of a kind can have (`Value.fits`), and which errors of an evaluation can only
come from a node that asks for the presence of what has no value (`Model.Stray`). An argument that
an operator takes has a value that fits (`safe_argValue`), so the operator can read it.
-/

namespace Scheduling

open Query (Safe Ends)

/-! ### Kinds -/

/-- Whether nodes of the kind have a value. -/
def Kind.isScalar : Kind → Bool
  | .bool | .int | .float | .interval | .constraint => true
  | .sequence | .cumul | .stepFunction => false

/-- Whether a node of a kind can have the value. A truth value also counts as a number, and an
integer as a float. -/
def Value.fits : Kind → Value → Bool
  | .bool, .absent | .bool, .bool _ => true
  | .int, .absent | .int, .bool _ | .int, .int _ => true
  | .float, .absent | .float, .bool _ | .float, .int _ | .float, .float _ => true
  | .interval, .absent | .interval, .interval .. => true
  | .constraint, .absent | .constraint, .bool _ => true
  | _, _ => false

namespace Value

variable {v : Value}

theorem fits_ofInt? (o : Option Int) : (ofInt? o).fits .int := by cases o <;> rfl

theorem fits_ofFloat? (o : Option Float) : (ofFloat? o).fits .float := by cases o <;> rfl

theorem fits_ofBool? (o : Option Bool) : (ofBool? o).fits .constraint := by cases o <;> rfl

theorem isAbsent_of_int? (h : v.fits .int) (hv : v.int? = none) : v.isAbsent := by
  cases v <;> simp_all [fits, int?, isAbsent]

theorem isAbsent_of_float? (h : v.fits .float) (hv : v.float? = none) : v.isAbsent := by
  cases v <;> simp_all [fits, float?, isAbsent]

theorem isAbsent_of_bool? (h : v.fits .bool) (hv : v.bool? = none) : v.isAbsent := by
  cases v <;> simp_all [fits, bool?, isAbsent]

end Value

/-- The widest kind that is as asked. -/
def Expectation.kind : Expectation → Kind
  | integral => .int
  | numeric => .float
  | boolean => .bool
  | interval => .interval
  | sequence => .sequence
  | cumulative => .cumul
  | stepFunction => .stepFunction

namespace Expectation

variable {e : Expectation} {k : Kind}

theorem isScalar_of_accepts (h : e.accepts k) (hs : e.kind.isScalar) : k.isScalar := by
  cases e <;> cases k <;> simp_all [accepts, kind, Kind.isScalar, Kind.isIntegral, Kind.isNumeric]

theorem fits_of_accepts {v : Value} (h : e.accepts k) (hv : v.fits k) : v.fits e.kind := by
  cases e <;> cases k <;> simp_all [accepts, kind, Kind.isIntegral, Kind.isNumeric] <;>
    cases v <;> simp_all [Value.fits]

end Expectation

/-- The kind of the values of an argument, unless it has none or can be of any kind. -/
def Input.kind? : Input → Option Kind
  | .node e => some e.kind
  | .amount | .int => some .int
  | .float => some .float
  | .bool => some .bool
  | .anyNode | .nodes _ | .intervals => none

/-- What a node of the operator always has at a position. -/
def Operator.inputAt? (op : Operator) (i : Nat) : Option Input :=
  if i < op.arity.1 then op.inputs[i]? else none

/-! ### Errors -/

/-- Whether the error says that a node is not as its operator asks, rather than that the solution is
not good. -/
def EvalError.isStructural : EvalError → Bool
  | model _ | malformed .. | listAsScalar => true
  | missingValue _ | domain .. | violated .. | objective .. | overflow => false

namespace Model

variable {m : Model} {asked : NodeId → Prop} {sent : List NodeId} {s : Solution} {d : Nat}
  {id x y : NodeId} {n n' : Node} {k : Kind} {e : EvalError}

/-- A sequence, a cumulative function or a step function is asked for a value in vain. -/
theorem nodeValue_of_not_scalar (hs : n.kind.isScalar = false) :
    m.nodeValue s d id n = n.flawed id .noScalarValue := by
  rw [Node.kind] at hs
  unfold nodeValue
  cases ho : n.operator with
  | sequenceVar | stepFunction | intervalStep | stepAt | cumulPlus | cumulMinus | cumulNeg
  | cumulSum => rfl
  | _ =>
    rw [ho] at hs
    cases hs

/-- The error says that a node has no value: it is a sequence, a cumulative function or a step
function. -/
def Valueless (m : Model) (x : NodeId) (e : EvalError) : Prop :=
  ∃ n, m.node? x = some n ∧ n.kind.isScalar = false ∧ e = .malformed x n.operator .noScalarValue

/-- The error is that of a node without a value which a node within `id` asks the presence of. -/
inductive Stray (m : Model) : NodeId → EvalError → Prop where
  | presence {id x : NodeId} {n : Node} {e : EvalError} : m.node? id = some n →
      n.operator = .presence → x ∈ n.operands → m.Valueless x e → Stray m id e
  | operand {id x : NodeId} {n : Node} {e : EvalError} : m.node? id = some n → x ∈ n.operands →
      Stray m x e → Stray m id e

/-- An error that a query on behalf of a node can end in. -/
def Excuses (m : Model) (id : NodeId) (e : EvalError) : Prop := e.isStructural → m.Stray id e

/-- What the evaluation of a node ends in: a value of its kind or an excuse. A node without a value
says so. -/
def Yields (m : Model) (x : NodeId) (r : Except EvalError Value) : Prop :=
  ∀ n, m.node? x = some n →
    Ends (fun e => m.Excuses x e ∨ m.Valueless x e) (fun v => v.fits n.kind) r

/-- A node among the first `d`. -/
def Before (m : Model) (d : Nat) (x : NodeId) : Prop := m.Has x ∧ x.index < d

/-- A node among the first `d` whose failures are failures of `id`. -/
def Feeds (m : Model) (d : Nat) (id x : NodeId) : Prop :=
  m.Before d x ∧ ∀ e, m.Excuses x e → m.Excuses id e

theorem excuses_of_not_structural (h : e.isStructural = false) : m.Excuses id e := by
  intro hs
  rw [h] at hs
  exact nomatch hs

theorem feeds_operand (h : Sound m) (hn : m.node? id = some n) (hd : id.index ≤ d)
    (hx : x ∈ n.operands) : m.Feeds d id x := by
  obtain ⟨hhas, hlt⟩ := h.operand hn hx
  exact ⟨⟨hhas, by omega⟩, fun e he hs => .operand hn hx (he hs)⟩

theorem Feeds.trans (h : m.Feeds d id y) (h' : m.Feeds d y x) : m.Feeds d id x :=
  ⟨h'.1, fun e he => h.2 e (h'.2 e he)⟩

/-! ### Values of arguments -/

/-- A node that is as asked has a value of the kind. -/
theorem safe_value {a : Expectation} (hf : m.Feeds d id x) (hx : m.Is a x)
    (ha : a.kind.isScalar) :
    (Query.value x).Safe (m.Before d) m.Yields (m.Excuses id) (fun v => v.fits a.kind) := by
  obtain ⟨n, hn, hk⟩ := hx
  have hs : n.kind.isScalar := Expectation.isScalar_of_accepts hk ha
  refine .value hf.1 (fun e hy => ?_) fun v hy => ?_
  · obtain _ | he := hy n hn
    refine hf.2 e (he.resolve_right fun hno => ?_)
    obtain ⟨n', hn', hs', -⟩ := hno
    rw [hn] at hn'
    obtain rfl := Option.some.inj hn'
    rw [hs] at hs'
    exact nomatch hs'
  · obtain hv | _ := hy n hn
    exact Expectation.fits_of_accepts hk hv

/-- An argument has a value of the kind of the input. -/
theorem safe_argument {input : Input} {a : Arg} (ha : m.Takes input a) (hk : input.kind? = some k)
    (hs : k.isScalar) (hf : ∀ x ∈ a.nodes, m.Feeds d id x) :
    a.value.Safe (m.Before d) m.Yields (m.Excuses id) (fun v => v.fits k) := by
  cases a with
  | node x =>
    have hx : m.Feeds d id x := hf x (List.mem_singleton_self x)
    cases input with
    | node asked =>
      obtain rfl := Option.some.inj hk
      exact safe_value hx ha hs
    | amount =>
      obtain rfl := Option.some.inj hk
      exact safe_value (a := .integral) hx ha rfl
    | anyNode | intervals => simp [Input.kind?] at hk
    | _ => exact ha.elim
  | list items => cases input <;> first | exact ha.elim | simp [Input.kind?] at hk
  | _ =>
    cases input <;> first
      | exact ha.elim
      | obtain rfl := Option.some.inj hk
        exact .answer rfl

/-! ### Arguments of nodes -/

theorem TakesAll.of_getElem? {op : Operator} {args : List Arg} {i : Nat} {a : Arg}
    (h : m.TakesAll op args) (ha : args[i]? = some a) :
    ∃ input, op.inputs[i]? = some input ∧ m.Takes input a := by
  obtain ⟨hi, rfl⟩ := List.getElem?_eq_some_iff.1 ha
  have hlen := h.2.length_eq
  rw [List.length_take] at hlen
  refine ⟨op.inputs[i], List.getElem?_eq_getElem (by omega), ?_⟩
  have := List.forall₂_iff_get.1 h.2 |>.2 i (by rw [List.length_take]; omega) hi
  simpa using this

theorem TakesAll.inputAt {op : Operator} {args : List Arg} {i : Nat} {input : Input}
    (h : m.TakesAll op args) (hin : op.inputAt? i = some input) :
    ∃ a, args[i]? = some a ∧ m.Takes input a := by
  unfold Operator.inputAt? at hin
  split at hin
  · rename_i hi
    have hlt : i < args.length := Nat.lt_of_lt_of_le hi h.1
    have ha : args[i]? = some args[i] := List.getElem?_eq_getElem hlt
    obtain ⟨input', hin', hta⟩ := h.of_getElem? ha
    rw [hin] at hin'
    exact ⟨_, ha, Option.some.inj hin' ▸ hta⟩
  · exact nomatch hin

/-- The arguments are nodes as asked. -/
def Lists (m : Model) (d : Nat) (id : NodeId) (a : Expectation) (as : List Arg) : Prop :=
  ∃ ids : List NodeId, as = ids.map Arg.node ∧ ∀ x ∈ ids, m.Is a x ∧ m.Feeds d id x

section Nodes

variable {op : Operator} {i : Nat} {input : Input} {a : Expectation} {as : List Arg} {α : Type}
  {P : α → Prop}

/-- The intervals of a list can be read. -/
theorem safe_intervalOf {a : Arg} (ha : a.value.Safe (m.Before d) m.Yields (m.Excuses id)
    (fun v => v.fits .interval)) :
    (n.intervalOf id a).Safe (m.Before d) m.Yields (m.Excuses id) (fun _ => True) := by
  refine ha.bind fun v hv => ?_
  cases v <;> first | exact .answer trivial | simp [Value.fits] at hv

theorem safe_intervalsOf (has : m.Lists d id .interval as) :
    (n.intervalsOf id as).Safe (m.Before d) m.Yields (m.Excuses id) (fun _ => True) := by
  obtain ⟨ids, rfl, hall⟩ := has
  induction ids with
  | nil => exact .answer trivial
  | cons x ids ih =>
    obtain ⟨⟨hx, hf⟩, hall⟩ := List.forall_mem_cons.1 hall
    refine (safe_intervalOf (safe_value hf hx rfl)).bind fun _ _ => ?_
    exact (ih hall).bind fun _ _ => .answer trivial

theorem safe_presentOf {read : Value → Option α} {flaw : NodeFlaw} (has : m.Lists d id a as)
    (hs : a.kind.isScalar) (hread : ∀ v, v.fits a.kind → read v = none → v.isAbsent) :
    (n.presentOf read flaw id as).Safe (m.Before d) m.Yields (m.Excuses id) (fun _ => True) := by
  obtain ⟨ids, rfl, hall⟩ := has
  induction ids with
  | nil => exact .answer trivial
  | cons x ids ih =>
    obtain ⟨⟨hx, hf⟩, hall⟩ := List.forall_mem_cons.1 hall
    refine (safe_value hf hx hs).bind fun v hv => ?_
    cases hr : read v with
    | some b => exact (ih hall).bind fun _ _ => .answer trivial
    | none =>
      simp only [if_pos (hread v hv hr)]
      exact ih hall

variable (h : Built m asked sent) (hn : m.node? id = some n) (hd : id.index ≤ d)
  (ho : n.operator = op)

include h hn

theorem formed_of_node? : m.Formed n := h.formed id.index n (node?_eq_some.1 hn).2

include hd ho

/-- The argument at a position is as the operator takes it. -/
theorem safe_arg (hin : op.inputAt? i = some input) :
    (n.arg id i).Safe (m.Before d) m.Yields (m.Excuses id)
      (fun a => m.Takes input a ∧ ∀ x ∈ a.nodes, m.Feeds d id x) := by
  obtain ⟨a, ha, hta⟩ := (ho ▸ (formed_of_node? h hn).args).inputAt hin
  unfold Node.arg
  rw [ha]
  refine .answer ⟨hta, fun x hx => feeds_operand h.toSound hn hd ?_⟩
  exact Arg.nodesOf_of_mem (List.mem_of_getElem? ha) hx

theorem safe_listArg (hin : op.inputAt? i = some (.nodes a)) :
    (n.listArg id i).Safe (m.Before d) m.Yields (m.Excuses id) (m.Lists d id a) := by
  refine (safe_arg h hn hd ho hin).bind fun b ⟨hb, hf⟩ => ?_
  cases b with
  | list items =>
    obtain ⟨ids, rfl, hall⟩ := hb
    rw [Arg.nodes, nodesOf_map_node] at hf
    exact .answer ⟨ids, rfl, fun x hx => ⟨hall x hx, hf x hx⟩⟩
  | _ => exact hb.elim

/-- Going on with the value of the argument at a position, which is of its kind. -/
theorem safe_argValue_bind (hin : op.inputAt? i = some input) (hk : input.kind? = some k)
    (hs : k.isScalar) {next : Value → Query α}
    (hnext : ∀ v, v.fits k → (next v).Safe (m.Before d) m.Yields (m.Excuses id) P) :
    (n.arg id i >>= fun a => a.value >>= next).Safe (m.Before d) m.Yields (m.Excuses id) P :=
  (safe_arg h hn hd ho hin).bind fun _ hb => (safe_argument hb.1 hk hs hb.2).bind hnext

/-- The argument at a position has a value of its kind. -/
theorem safe_argValue (hin : op.inputAt? i = some input) (hk : input.kind? = some k)
    (hs : k.isScalar) :
    (n.arg id i >>= Arg.value).Safe (m.Before d) m.Yields (m.Excuses id) (fun v => v.fits k) :=
  (safe_arg h hn hd ho hin).bind fun _ hb => safe_argument hb.1 hk hs hb.2

/-- The argument at a position can be read. -/
theorem safe_readArg {read : Value → Option α} {flaw : Nat → NodeFlaw}
    (hin : op.inputAt? i = some input) (hk : input.kind? = some k) (hs : k.isScalar)
    (hread : ∀ v, v.fits k → read v = none → v.isAbsent) :
    (n.readArg read flaw id i).Safe (m.Before d) m.Yields (m.Excuses id) (fun _ => True) := by
  refine safe_argValue_bind h hn hd ho hin hk hs fun v hv => ?_
  by_cases ha : v.isAbsent
  · rw [if_pos ha]
    exact .answer trivial
  · rw [if_neg ha]
    cases hr : read v with
    | some c => exact .answer trivial
    | none => exact absurd (hread v hv hr) ha

theorem safe_intAt (hin : op.inputAt? i = some input) (hk : input.kind? = some .int) :
    (n.intAt id i).Safe (m.Before d) m.Yields (m.Excuses id) (fun _ => True) :=
  safe_readArg h hn hd ho hin hk rfl fun _ => Value.isAbsent_of_int?

theorem safe_floatAt (hin : op.inputAt? i = some input) (hk : input.kind? = some .float) :
    (n.floatAt id i).Safe (m.Before d) m.Yields (m.Excuses id) (fun _ => True) :=
  safe_readArg h hn hd ho hin hk rfl fun _ => Value.isAbsent_of_float?

theorem safe_boolAt (hin : op.inputAt? i = some input) (hk : input.kind? = some .bool) :
    (n.boolAt id i).Safe (m.Before d) m.Yields (m.Excuses id) (fun _ => True) :=
  safe_readArg h hn hd ho hin hk rfl fun _ => Value.isAbsent_of_bool?

theorem safe_intervalAt (hin : op.inputAt? i = some (.node .interval)) :
    (n.intervalAt id i).Safe (m.Before d) m.Yields (m.Excuses id) (fun _ => True) :=
  (safe_arg h hn hd ho hin).bind fun _ hb => safe_intervalOf (safe_argument hb.1 rfl rfl hb.2)

end Nodes

end Model

end Scheduling
