import Scheduling.Proofs.Eval.Nodes
import Scheduling.Proofs.Eval.Values

/-!
# Soundness of evaluation

In a model that calls have built, the value of a node is of the node's kind, and an evaluation never
finds a node that is not as its operator asks, unless the presence of a sequence, a cumulative
function or a step function is asked for (`evaluation_sound`). The evaluator remembers values of
the right kinds only, which carries the induction over the depth (`yields_valueBelow`).
-/

namespace Scheduling

namespace Model

open Query (Safe Ends Memory)

variable {m : Model} {asked : NodeId → Prop} {sent : List NodeId} {s : Solution} {d : Nat}
  {id x : NodeId} {n : Node}

/-! ### The objective -/

/-- The objective is a number. -/
def Numeric (m : Model) : Prop := ∀ o : Objective, m.objective = some o → m.Is .numeric o.expr

theorem Numeric.move (hm : m.Numeric) {v : Move} (hv : v.Allowed m) : (v.apply m).Numeric := by
  have hsame (ho : (v.apply m).objective = m.objective) : (v.apply m).Numeric :=
    fun o hobj => (keeps_apply v).is (hm o (ho ▸ hobj))
  cases v with
  | constant l => exact hm
  | add n => exact hsame extend_frame.2.2.1
  | post id => exact hsame (use_frame { m with topLevel := m.topLevel.push id } id).2.2.2.1
  | optimize sense expr =>
    intro o ho
    obtain rfl := Option.some.inj ho
    exact (keeps_apply (.optimize sense expr)).is hv
  | nameNode id name => exact hsame materialize_objective
  | nameModel name => exact hsame rfl

/-- Every call keeps the objective a number. -/
theorem Numeric.call (hm : m.Numeric) (c : Call) : (m.call c).2.Numeric := by
  have hprepared {m' : Model} (hp : Prepared m m') : m'.Numeric :=
    fun o ho => hp.keeps.is (hm o (hp.objective ▸ ho))
  obtain ⟨m', hp, ⟨v, he, hv, -⟩ | ⟨e, he⟩⟩ := m.call_cases c
  · rw [Model.call, he]
    exact (hprepared hp).move hv
  · rw [Model.call, he]
    exact hprepared hp

theorem Numeric.calls (hm : m.Numeric) (cs : List Call) : (m.calls cs).Numeric := by
  induction cs generalizing m with
  | nil => exact hm
  | cons c cs ih => exact ih (hm.call c)

/-! ### The evaluator -/

/-- What is remembered of a node is of its kind. -/
def Fitting (m : Model) (memory : Memory) : Prop :=
  ∀ (x : NodeId) (n : Node) (v : Value), m.node? x = some n →
    Evaluator.recalled? m memory x = some v → v.fits n.kind

theorem fitting_start (m : Model) : m.Fitting (Evaluator.start m) := by
  intro x n v _ hv
  rw [recalled?_start] at hv
  exact nomatch hv

theorem Fitting.set {memory : Memory} {v : Value} (hm : m.Fitting memory)
    (hn : m.node? x = some n) (hv : v.fits n.kind) :
    m.Fitting (memory.setIfInBounds x.index (some v)) := by
  intro y n' w hn' hw
  obtain ⟨rfl, rfl⟩ | hold := recalled?_set (node?_eq_some.1 hn).1 hw
  · rw [hn] at hn'
    exact Option.some.inj hn' ▸ hv
  · exact hm y n' w hn' hold

variable (h : Built m asked sent)

include h

/-- The evaluator finds values of the right kinds, and keeps remembering only such ones. -/
theorem yields_valueBelow (hx : m.Before d x) {memory : Memory} (hm : m.Fitting memory) :
    m.Yields x (Evaluator.valueBelow m s d x memory).1 ∧
      m.Fitting (Evaluator.valueBelow m s d x memory).2 := by
  -- A node asks for nodes before it only, so a depth above its index is enough.
  induction d generalizing x memory with
  | zero => exact absurd hx.2 (Nat.not_lt_zero _)
  | succ d ih =>
    obtain ⟨n, hn⟩ := hx.1.exists_node
    simp only [Evaluator.valueBelow]
    cases hr : Evaluator.recalled? m memory x with
    | some v => exact ⟨fun n' hn' => .ok (hm x n' v hn' hr), hm⟩
    | none =>
      have hsafe := safe_nodeValue (s := s) h hn (Nat.le_of_lt_succ hx.2)
      obtain ⟨hends, hm'⟩ := hsafe.resolveWith (fun _ hy _ hm => ih hy hm) hm
      obtain ⟨r, memory', he⟩ : ∃ r memory', (m.nodeValue s d x n).resolveWith
          (Evaluator.valueBelow m s d) memory = (r, memory') := ⟨_, _, rfl⟩
      rw [he] at hends hm'
      simp only [node_eq_ok.2 hn, he]
      cases hends with
      | @ok v hv =>
        refine ⟨fun n' hn' => .ok ?_, hm'.set hn hv⟩
        rw [hn] at hn'
        exact Option.some.inj hn' ▸ hv
      | error hno => exact ⟨fun _ _ => .error hno, hm'⟩

/-- A safe query ends as it should with an evaluator of its own. -/
theorem ends_resolveWith {α : Type} {E : EvalError → Prop} {P : α → Prop} {q : Query α}
    (hq : q.Safe (m.Before m.nodes.size) m.Yields E P) :
    Ends E P (q.resolveWith (Evaluator.value m s) (Evaluator.start m)).1 :=
  (hq.resolveWith (fun _ hx _ hm => yields_valueBelow h hx hm) (fitting_start m)).1

theorem ends_eval (hn : m.node? id = some n) (hs : n.kind.isScalar) :
    Ends (m.Excuses id) (fun v => v.fits n.kind) (m.eval s id) := by
  have hhas := has_of_node? hn
  have hyields := (yields_valueBelow (s := s) h ⟨hhas, hhas.2⟩ (fitting_start m)).1 n hn
  refine hyields.imp (fun e he => he.resolve_right fun hno => ?_) fun _ hv => hv
  obtain ⟨n', hn', hs', -⟩ := hno
  rw [hn] at hn'
  obtain rfl := Option.some.inj hn'
  rw [hs] at hs'
  exact nomatch hs'

/-! ### Domains -/

section Domains

omit h

variable {asks : NodeId → Prop} {spec : NodeId → Except EvalError Value → Prop}
  {E : EvalError → Prop} (hE : ∀ flaw, E (.domain id flaw))

include hE

theorem safe_checkWithin {what : String} {v least greatest : Int} {low high : Option Int} :
    (checkWithin id what v low high least greatest).Safe asks spec E (fun _ => True) := by
  unfold checkWithin
  by_cases hout : v < low.getD least ∨ high.getD greatest < v
  · simp only [if_pos hout]
    exact .fail (hE _)
  · simp only [if_neg hout]
    exact .answer trivial

theorem safe_checkBounds {v : Value} :
    (checkBounds id n v).Safe asks spec E (fun _ => True) := by
  unfold checkBounds
  cases n.operator with
  | intVar =>
    cases v with
    | int v => exact safe_checkWithin hE
    | _ => exact .answer trivial
  | floatVar =>
    cases v with
    | float x =>
      by_cases hout : x < n.bounds.min.getD (-floatMax) ∨ n.bounds.max.getD floatMax < x
      · simp only [if_pos hout]
        exact .fail (hE _)
      · simp only [if_neg hout]
        exact .answer trivial
    | _ => exact .answer trivial
  | intervalVar =>
    cases v with
    | interval start finish =>
      refine (safe_checkWithin hE).bind fun _ _ => (safe_checkWithin hE).bind fun _ _ => ?_
      cases checked (finish - start) with
      | none => exact .fail (hE _)
      | some length => exact safe_checkWithin hE
    | _ => exact .answer trivial
  | _ => exact .answer trivial

end Domains

/-- A variable has no operands that an error could come from. -/
theorem not_stray_of_variable {e : EvalError} (hn : m.node? id = some n)
    (ho : n.operator.isVariable) (hs : n.operator ≠ .sequenceVar) : ¬ m.Stray id e := by
  have hinputs : n.operator.inputs = [] := by
    cases hop : n.operator <;> simp_all [Operator.isVariable, Operator.inputs]
  have hargs : n.args = [] := by
    have hlen := (formed_of_node? h hn).args.2.length_eq
    rw [hinputs, List.take_nil, List.length_nil] at hlen
    exact List.length_eq_zero_iff.1 hlen.symm
  have hnone (x : NodeId) (n' : Node) (hn' : m.node? id = some n') : x ∉ n'.operands := by
    rw [hn] at hn'
    obtain rfl := Option.some.inj hn'
    rw [Node.operands, hargs]
    exact List.not_mem_nil
  intro he
  cases he with
  | presence hn' _ hx _ => exact hnone _ _ hn' hx
  | operand hn' hx _ => exact hnone _ _ hn' hx

theorem safe_domainQuery (hid : id ∈ m.variableIds) :
    (m.domainQuery id).Safe (m.Before m.nodes.size) m.Yields (fun e => e.isStructural = false)
      (fun _ => True) := by
  obtain ⟨hid, hvar⟩ := List.mem_filter.1 hid
  have hhas := mem_ids.1 hid
  obtain ⟨n, hn⟩ := hhas.exists_node
  rw [hn, Option.any_some] at hvar
  have hlookup : (m.lookup id).Safe (m.Before m.nodes.size) m.Yields
      (fun e => e.isStructural = false) (fun n' => n' = n) := by
    rw [lookup, node_eq_ok.2 hn]
    exact .answer rfl
  refine hlookup.bind fun n' hn' => ?_
  subst hn'
  by_cases hs : n'.operator = .sequenceVar
  · rw [if_pos hs]
    exact .answer trivial
  · rw [if_neg hs]
    refine (Safe.value (P := fun _ => True) ⟨hhas, hhas.2⟩ (fun e hy => ?_) fun _ _ => trivial).bind
      fun v _ => ?_
    · obtain _ | he := hy n' hn
      rw [← Bool.not_eq_true]
      intro hstructural
      obtain he | ⟨n, hn', hk, -⟩ := he
      · exact not_stray_of_variable h hn hvar hs (he hstructural)
      · rw [hn] at hn'
        obtain rfl := Option.some.inj hn'
        rw [Node.kind] at hk
        cases hop : n'.operator <;> simp_all [Operator.isVariable, Operator.kind, Kind.isScalar]
    · cases n'.presence.getD .present <;> cases v.isAbsent <;>
        first
        | exact .fail rfl
        | exact .answer trivial
        | exact safe_checkBounds fun _ => rfl

/-! ### Constraints and the objective -/

/-- What stands among the constraints is a constraint or truth-valued. -/
theorem kind_of_topLevel (hx : x ∈ m.topLevel.toList) : m.constrains x ∨ m.Is .boolean x := by
  by_cases hc : m.constrains x
  · exact .inl hc
  · refine .inr (h.truth x ?_)
    rw [← h.others]
    exact List.mem_filter.2 ⟨hx, by simpa using hc⟩

theorem safe_constraintQuery (hx : x ∈ m.topLevel.toList) :
    (m.constraintQuery x).Safe (m.Before m.nodes.size) m.Yields (m.Excuses x) (fun _ => True) := by
  have hhas := h.toSound.topLevel_has x hx
  obtain ⟨n, hn⟩ := hhas.exists_node
  refine (safe_holdsQuery h ⟨hhas, hhas.2⟩ (kind_of_topLevel h hx)).bind fun b _ => ?_
  obtain _ | b := b
  · exact .answer trivial
  · cases b with
    | true => exact .answer trivial
    | false => exact (safe_lookup hn).bind fun _ _ => .fail (excuses_of_not_structural rfl)

omit h in
theorem safe_objectiveQuery {o : Objective} (ho : m.objective = some o)
    (hk : m.Is .numeric o.expr) (reported : ObjectiveValue) :
    (m.objectiveQuery reported).Safe (m.Before m.nodes.size) m.Yields (m.Excuses o.expr)
      (fun _ => True) := by
  have hhas := hk.has
  have hcheck {c : Prop} [Decidable c] {actual : ObjectiveValue} :
      (if c then .answer () else .fail (.objective reported actual) : Query Unit).Safe
        (m.Before m.nodes.size) m.Yields (m.Excuses o.expr) (fun _ => True) := by
    split
    · exact .answer trivial
    · exact .fail (excuses_of_not_structural rfl)
  unfold objectiveQuery
  rw [ho]
  by_cases hr : reported.isUndefined
  · simp only [if_pos hr]
    exact .answer trivial
  · simp only [if_neg hr]
    exact (safe_value ⟨⟨hhas, hhas.2⟩, fun _ he => he⟩ hk rfl).bind fun _ _ => hcheck

omit h in
theorem safe_inTurn {α : Type} {asks : NodeId → Prop}
    {spec : NodeId → Except EvalError Value → Prop} {E : EvalError → Prop} {g : α → Query Unit}
    {l : List α} (hg : ∀ a ∈ l, (g a).Safe asks spec E (fun _ => True)) :
    (inTurn (l.map g)).Safe asks spec E (fun _ => True) := by
  induction l with
  | nil => exact .answer trivial
  | cons a l ih =>
    obtain ⟨ha, hl⟩ := List.forall_mem_cons.1 hg
    exact ha.bind fun _ _ => ih hl

/-- A check of a solution fails for the solution, or for a constraint or the objective within which
the presence of what has no value is asked for. -/
theorem ends_verify (hobjective : m.Numeric) :
    Ends (fun e => e.isStructural →
      ∃ id, (id ∈ m.topLevel ∨ m.objective.map Objective.expr = some id) ∧ m.Stray id e)
      (fun _ => True) (m.verify s) := by
  refine ends_resolveWith h ?_
  refine (safe_inTurn fun id hid => ?_).bind fun _ _ =>
    (safe_inTurn fun id hid => ?_).bind fun _ _ => ?_
  · refine (safe_domainQuery h hid).imp (fun _ hx => hx) (fun e he hs => ?_) fun _ ht => ht
    rw [he] at hs
    exact nomatch hs
  · refine (safe_constraintQuery h hid).imp (fun _ hx => hx) (fun e he hs => ?_) fun _ ht => ht
    exact ⟨id, .inl (Array.mem_toList_iff.1 hid), he hs⟩
  · cases ho : m.objective with
    | none =>
      rw [objectiveQuery, ho]
      exact .answer trivial
    | some o =>
      refine (safe_objectiveQuery ho (hobjective o ho) _).imp (fun _ hx => hx) (fun e he hs => ?_)
        fun _ ht => ht
      exact ⟨o.expr, .inr rfl, he hs⟩

omit h in
/-- Evaluation is sound. In a model that calls have built, a node of a kind with values evaluates to
a value of its kind. Neither its evaluation nor a check of a solution fails because a node is not as
its operator asks, except for a node without a value whose presence is asked for. -/
theorem evaluation_sound (tag : Nat) (name : Option String) (cs : List Call) (s : Solution) :
    let m := (empty tag name).calls cs
    (∀ (id : NodeId) (n : Node), m.node? id = some n → n.kind.isScalar →
      (∀ v, m.eval s id = .ok v → v.fits n.kind) ∧
      ∀ e, m.eval s id = .error e → e.isStructural → m.Stray id e) ∧
    ∀ e, m.verify s = .error e → e.isStructural →
      ∃ id, (id ∈ m.topLevel ∨ m.objective.map Objective.expr = some id) ∧ m.Stray id e := by
  intro m
  have h : Built m _ _ := built_calls tag name cs
  have hobjective : m.Numeric := Numeric.calls (m := empty tag name) (fun _ ho => nomatch ho) cs
  refine ⟨fun id n hn hs => ⟨fun v hv => ?_, fun e he => ?_⟩, fun e he => ?_⟩
  · have hends := ends_eval (s := s) h hn hs
    rw [hv] at hends
    obtain hfits | _ := hends
    exact hfits
  · have hends := ends_eval (s := s) h hn hs
    rw [he] at hends
    obtain _ | hexcuses := hends
    exact hexcuses
  · have hends := ends_verify (s := s) h hobjective
    rw [he] at hends
    obtain _ | hexcuses := hends
    exact hexcuses

/-- Calls that ask for the presence of a sequence, and for that of a constant. -/
def presences : List Call :=
  [.sequenceVar ⟨[], none, none⟩, .presence ⟨0, 0⟩, .boolConst true, .presence ⟨0, 2⟩]

omit h in
theorem evaluation_sound_presences :
    let m := (empty 0 none).calls presences
    m.Stray ⟨0, 1⟩ (.malformed ⟨0, 0⟩ .sequenceVar .noScalarValue) ∧
      (m.eval .empty ⟨0, 3⟩ = .ok (.bool true) ∧ (Value.bool true).fits .bool) := by
  intro m
  have hkind (i : Nat) (hi : (m.node? ⟨0, i⟩).map Node.kind = some .bool) :
      ∃ n, m.node? ⟨0, i⟩ = some n ∧ n.kind = .bool := Option.map_eq_some_iff.1 hi
  obtain ⟨n, hn, hk⟩ := hkind 1 (by decide +kernel)
  obtain ⟨n', hn', hk'⟩ := hkind 3 (by decide +kernel)
  have heval : m.eval .empty ⟨0, 3⟩ = .ok (.bool true) := by decide +kernel
  have hsound := (evaluation_sound 0 none presences .empty).1
  refine ⟨(hsound _ n hn (by rw [hk]; rfl)).2 _ (by decide +kernel) rfl, heval, ?_⟩
  exact hk' ▸ (hsound _ n' hn' (by rw [hk']; rfl)).1 _ heval

end Model

end Scheduling
