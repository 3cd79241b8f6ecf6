import Scheduling.Proofs.Eval.Absence
import Scheduling.Proofs.Eval.Blame

/-!
# Overflows

Which operations overflow while a solution is checked. A check of a solution finds the variables in
their domains first, so that no interval is longer than 64 bits can count. A sum over an interval
does not overflow then, and what is left to blame is a bound on a cumulative function, which
overflows exactly when a change of the function cannot be turned, so that some height is -2^63
(`Model.verify_overflow`).
-/

namespace Scheduling

namespace Query

variable {α : Type} {value value' : NodeId → Except EvalError Value} {a : α}

/-- What is answered from some values is answered from all values. -/
theorem resolve_ok_mono {q : Query α} (hv : ∀ x v, value' x = .ok v → value x = .ok v)
    (hq : q.resolve value' = .ok a) : q.resolve value = .ok a := by
  induction q with
  | answer b => exact hq
  | fail e => cases hq
  | ask x next ih =>
    simp only [resolve] at hq ⊢
    cases hx : value' x with
    | error e => rw [hx] at hq; cases hq
    | ok v =>
      rw [hx] at hq
      rw [hv x v hx]
      exact ih v hq

/-- What overflows on some values overflows on all values, or one of the values is an overflow. -/
theorem resolve_overflow {q : Query α} (hv : ∀ x v, value' x = .ok v → value x = .ok v)
    (hq : q.resolve value' = .error .overflow) :
    q.resolve value = .error .overflow ∨ ∃ x, value' x = .error .overflow := by
  induction q with
  | answer b => cases hq
  | fail e => exact .inl hq
  | ask x next ih =>
    simp only [resolve] at hq ⊢
    cases hx : value' x with
    | error e =>
      rw [hx] at hq
      exact .inr ⟨x, hx.trans (congrArg Except.error (Except.error.inj hq))⟩
    | ok v =>
      rw [hx] at hq
      rw [hv x v hx]
      exact ih v hq

end Query

namespace Model

open Query (Ends Safe Sure sure_fail sure_of_ends resolve_bind_eq resolve_ok_mono resolve_overflow)

variable {m : Model} {asked : NodeId → Prop} {sent : List NodeId} {s : Solution} {cause : Prop}
  {value value' : NodeId → Except EvalError Value} {id x f : NodeId} {n : Node} {d : Nat}

theorem HasHeight.mono {height : Int} (hv : ∀ x v, value' x = .ok v → value x = .ok v)
    (h : m.HasHeight value' height) : m.HasHeight value height := by
  obtain ⟨x, n, a, v, hn, ho, ha, hresolve, hheight⟩ := h
  exact ⟨x, n, a, v, hn, ho, ha, resolve_ok_mono hv hresolve, hheight⟩

theorem HasLongInterval.mono (hv : ∀ x v, value' x = .ok v → value x = .ok v)
    (h : HasLongInterval value') : HasLongInterval value := by
  obtain ⟨x, start, finish, hx, hlong⟩ := h
  exact ⟨x, start, finish, hv x _ hx, hlong⟩

section Built

variable (h : Built m asked sent) (hm : m.InRange)
  (hs : ∀ x v, s.value? x = some v → v.InRange fun _ => True)

/-! ### Values -/

include h hm hs in
/-- The values of a model have 64 bits, and an overflow on the way to one has one of two causes. -/
theorem ends_value
    (hbound : ∀ value', (∀ x v, value' x = .ok v → m.value s x = .ok v) →
      (∀ x, Ends (Blames cause) Value.InRange (value' x)) →
        m.BoundsBlame m.nodes.size value' cause)
    (hlong : HasLongInterval (m.value s) → cause) (x : NodeId) :
    Ends (Blames cause) Value.InRange (m.value s x) := by
  induction hi : x.index using Nat.strong_induction_on generalizing x with
  | _ i ih =>
    subst hi
    by_cases hx : m.Has x
    · obtain ⟨n, hn⟩ := hx.exists_node
      -- Only the values before the node matter, and these are known to end as they should.
      let before (y : NodeId) : Except EvalError Value :=
        if y.index < x.index then m.value s y else .error (.missingValue y)
      have hbefore (y : NodeId) (v : Value) (hv : before y = .ok v) : m.value s y = .ok v := by
        by_cases hy : y.index < x.index
        · simpa only [before, if_pos hy] using hv
        · simp only [before, if_neg hy] at hv
          cases hv
      have hvalue (y : NodeId) : Ends (Blames cause) Value.InRange (before y) := by
        by_cases hy : y.index < x.index
        · simp only [before, if_pos hy]
          exact ih y.index hy y rfl
        · simp only [before, if_neg hy]
          exact .error (blames_of_ne nofun)
      have hsame : m.value s x = (m.nodeValue s m.nodes.size x n).resolve before := by
        rw [value_eq h.toSound hn]
        refine (asks_nodeValue h.toSound hn hx.2.le).resolve_congr fun y hy => ?_
        simp only [before, if_pos hy.2]
      rw [hsame]
      exact (sure_nodeValue h hm hvalue (hs x) hn (hbound before hbefore hvalue) fun hhas =>
        hlong (hhas.mono hbefore)).ends
    · rw [value_unknown hx]
      exact .error (blames_of_ne nofun)

include h hs in
/-- The value of a variable does not overflow. -/
theorem ends_variable (hn : m.node? x = some n) (ho : n.operator.isVariable) :
    Ends (Blames False) Value.InRange (m.value s x) := by
  rw [value_eq h.toSound hn]
  refine Sure.ends ?_
  unfold nodeValue
  cases hop : n.operator <;> first
    | exact sure_variableValue (hs x)
    | exact sure_fail nofun
    | (rw [hop] at ho; exact nomatch ho)

/-! ### Domains -/

include h hs in
theorem sure_domainQuery (hid : id ∈ m.variableIds) :
    (m.domainQuery id).Sure (m.value s) False (fun _ => True) := by
  obtain ⟨-, hvar⟩ := List.mem_filter.1 hid
  refine sure_lookup.bind fun n hn => ?_
  rw [hn, Option.any_some] at hvar
  by_cases hsequence : n.operator = .sequenceVar
  · rw [if_pos hsequence]
    exact .answer trivial
  · rw [if_neg hsequence]
    refine (sure_argument (a := .node id) fun x hx => ?_).bind fun v _ => ?_
    · rw [List.mem_singleton.1 hx]
      exact ends_variable h hs hn hvar
    · cases n.presence.getD .present <;> cases v.isAbsent <;> first
        | exact sure_fail nofun
        | exact .answer trivial
        | exact safe_checkBounds fun _ => blames_of_ne nofun

/-- Only interval variables have intervals, and those in their domains are not too long. -/
theorem InDomains.not_hasLongInterval (h : Built m asked sent) (hd : m.InDomains s) :
    ¬ HasLongInterval (m.value s) := by
  rintro ⟨x, start, finish, hx, hlong⟩
  have hhas : m.Has x := by
    by_contra hno
    rw [value_unknown hno] at hx
    cases hx
  obtain ⟨n, hn⟩ := hhas.exists_node
  have heval : m.eval s x = .ok (.interval start finish) := (eval_eq h.toSound).trans hx
  have hyields := (yields_valueBelow (s := s) h ⟨hhas, hhas.2⟩ (fitting_start m)).1 n hn
  have hends : Ends _ (fun v => v.fits n.kind) (m.eval s x) := hyields
  rw [heval] at hends
  obtain hkind | _ := hends
  have hinterval : m.Is .interval x := by
    refine ⟨n, hn, ?_⟩
    cases hk : n.kind <;> simp_all [Value.fits, Expectation.accepts]
  exact hlong (hd.fits_length h.toSound hinterval heval)

/-! ### Bounds -/

/-- A bound on a cumulative function of the model overflows. -/
def BoundOverflows (m : Model) (s : Solution) : Prop :=
  ∃ id n b, m.node? id = some n ∧ n.operator = .cumulBound b ∧
    m.evalConstraint s id = .error .overflow

include h in
theorem evalConstraint_cumulBound {b : Bounding} (hn : m.node? id = some n)
    (ho : n.operator = .cumulBound b) : m.evalConstraint s id =
      ((m.cumulBoundHolds m.nodes.size id n b).resolve (m.value s)).map some := by
  rw [evalConstraint_constraint h.toSound hn (by rw [ho]; rfl), constraintValue, ho]
  exact Query.resolve_map some _

include h in
/-- Before a bound that overflows there is a value that does, or the bound itself does. -/
theorem boundsBlame_of_boundOverflows (hv : ∀ x v, value' x = .ok v → m.value s x = .ok v)
    (hvalue : ∀ x, Ends (Blames (m.BoundOverflows s)) Value.InRange (value' x)) :
    m.BoundsBlame m.nodes.size value' (m.BoundOverflows s) := by
  intro id n b hn ho
  refine sure_of_ends ?_
  cases hr : (m.cumulBoundHolds m.nodes.size id n b).resolve value' with
  | ok v => exact .ok trivial
  | error e =>
    refine .error ?_
    rintro rfl
    obtain hover | ⟨x, hx⟩ := resolve_overflow hv hr
    · refine ⟨id, n, b, hn, ho, ?_⟩
      rw [evalConstraint_cumulBound h hn ho, hover]
      rfl
    · have hends := hvalue x
      rw [hx] at hends
      obtain _ | hblames := hends
      exact hblames rfl

/-! ### Checks -/

include h in
/-- A check of a solution is answered on the values. -/
theorem verify_eq : m.verify s = (m.verifyQuery s).resolve (m.value s) :=
  (resolveWith_eq h.toSound _ (remembers_start _ m m s)).1

include h hs in
/-- A check of a solution overflows after the domains have been checked. -/
theorem inDomains_of_verify (hv : m.verify s = .error .overflow) : m.InDomains s := by
  rw [verify_eq h, verifyQuery, resolve_bind_eq] at hv
  have hdomains : (inTurn (m.variableIds.map m.domainQuery)).Sure (m.value s) False
      (fun _ => True) := safe_inTurn fun id hid => sure_domainQuery h hs hid
  cases hr : (inTurn (m.variableIds.map m.domainQuery)).resolve (m.value s) with
  | error e =>
    rw [hr] at hv
    obtain rfl := Except.error.inj hv
    exact (hdomains.blamed hr).elim
  | ok u =>
    intro x hx
    rw [Evaluator.checkDomain, (resolveWith_eq h.toSound _ (remembers_start _ m m s)).1]
    exact resolve_inTurn.1 hr _ (List.mem_map_of_mem hx)

include h hm hs in
/-- A check of a solution overflows for what a bound overflows for. -/
theorem blames_verify (hvalue : ∀ x, Ends (Blames cause) Value.InRange (m.value s x))
    (hbound : m.BoundsBlame m.nodes.size (m.value s) cause)
    (hv : m.verify s = .error .overflow) : cause := by
  have hdomain (id : NodeId) (hid : id ∈ m.variableIds) :
      (m.domainQuery id).Sure (m.value s) cause (fun _ => True) :=
    (sure_domainQuery h hs hid).imp (fun _ hx => hx) (fun _ he hover => (he hover).elim)
      fun _ ht => ht
  have hsure : (m.verifyQuery s).Sure (m.value s) cause (fun _ => True) :=
    (safe_inTurn hdomain).bind fun _ _ =>
      (safe_inTurn fun id _ => sure_constraintQuery h hm hvalue hbound).bind fun _ _ =>
        sure_objectiveQuery hvalue s.objective
  exact hsure.blamed ((verify_eq h).symm.trans hv)

include h hm hs in
theorem hasHeight_of_verify (hv : m.verify s = .error .overflow) :
    m.HasHeight (m.value s) intMin := by
  have hlong := (inDomains_of_verify h hs hv).not_hasLongInterval h
  have hvalue : ∀ x, Ends (Blames (m.HasHeight (m.value s) intMin)) Value.InRange (m.value s x) :=
    ends_value h hm hs
      (fun _ hle hvalue' => boundsBlame_of_hasHeight hm hvalue' fun hheight => hheight.mono hle)
      fun hhas => absurd hhas hlong
  exact blames_verify h hm hs hvalue (boundsBlame_of_hasHeight hm hvalue fun hheight => hheight) hv

include h hm hs in
theorem boundOverflows_of_verify (hv : m.verify s = .error .overflow) : m.BoundOverflows s := by
  have hlong := (inDomains_of_verify h hs hv).not_hasLongInterval h
  have hvalue : ∀ x, Ends (Blames (m.BoundOverflows s)) Value.InRange (m.value s x) :=
    ends_value h hm hs (fun _ hle hvalue' => boundsBlame_of_boundOverflows h hle hvalue')
      fun hhas => absurd hhas hlong
  exact blames_verify h hm hs hvalue
    (boundsBlame_of_boundOverflows h (fun _ _ hx => hx) hvalue) hv

/-! ### Sums and bounds -/

include h hm hs in
theorem eval_stepFunctionSum_ne_overflow (hd : m.InDomains s) (hn : m.node? id = some n)
    (ho : n.operator = .stepFunctionSum) : m.eval s id ≠ .error .overflow := by
  have hinterval : ∀ a, n.args[1]? = some a →
      ∀ x ∈ a.nodes, Ends (Blames False) Value.InRange (m.value s x) := by
    intro a ha x hx
    obtain ⟨b, hb, htakes⟩ := (ho ▸ (formed_of_node? h hn).args).inputAt (i := 1) rfl
    obtain rfl := Option.some.inj (ha.symm.trans hb)
    cases a with
    | node y =>
      obtain rfl := List.mem_singleton.1 hx
      obtain ⟨n', hn', hk⟩ := htakes
      exact ends_variable h hs hn' (by rw [eq_intervalVar hk]; rfl)
    | _ => exact htakes.elim
  have hsure := sure_stepFunctionSum (s := s) (d := m.nodes.size) h hm id ho hinterval
    (hd.not_hasLongInterval h)
  exact fun hover => hsure.blamed ((eval_node h.toSound hn).symm.trans hover)

include h in
theorem exists_bound {b : Bounding} (hn : m.node? id = some n) (ho : n.operator = .cumulBound b) :
    ∃ f bound, n.args = [.node f, .int bound] := by
  obtain ⟨a, a', hargs, ha, ha'⟩ := (ho ▸ (formed_of_node? h hn).args).pair rfl rfl
  cases a with
  | node f =>
    cases a' with
    | int bound => exact ⟨f, bound, hargs⟩
    | _ => exact ha'.elim
  | _ => exact ha.elim

include h in
/-- A bound overflows when zero is within it and the changes of its function are not found. -/
theorem evalConstraint_cumulBound_eq_overflow {b : Bounding} {bound : Int} {c : Cumulative}
    (hn : m.node? id = some n) (ho : n.operator = .cumulBound b)
    (hargs : n.args = [.node f, .int bound]) (hc : m.cumulative? s f = some c) :
    m.evalConstraint s id = .error .overflow ↔
      b.within bound 0 = true ∧ ∃ d ∈ c.turned, ¬ Fits (-d) := by
  have hfound := (traces_changes (m := m) (s := s) m.nodes.size f).found c hc
  rw [evalConstraint_cumulBound h hn ho, ← Cumulative.found_eq_overflow,
    resolve_cumulBoundHolds hargs, hfound]
  by_cases hzero : b.within bound 0 = true
  · rw [if_pos hzero]
    cases c.found <;> simp [hzero, Except.map, bind, Except.bind]
  · simp [hzero, Except.map]

end Built

/-- What overflows while a solution is checked. In a model that is built from integers of 64 bits,
under a solution of such integers, the check overflows only when the domains have been found in
order, a pulse or a step has the height -2^63, and a bound on a cumulative function overflows. Once
the domains are in order, a sum over an interval does not overflow. A bound on a cumulative function
overflows exactly when zero is within it and a change of the function whose sign is turned, that of
a pulse at its end or one that is taken away, cannot be turned in 64 bits. -/
theorem verify_overflow (tag : Nat) (name : Option String) {cs : List Call}
    (hcs : ∀ c ∈ cs, c.Proper) {s : Solution}
    (hs : ∀ x v, s.value? x = some v → v.InRange fun _ => True) :
    let m := (empty tag name).calls cs
    (m.verify s = .error .overflow →
        m.InDomains s ∧ m.HasHeight (m.value s) intMin ∧ m.BoundOverflows s) ∧
      (∀ id n, m.node? id = some n → n.operator = .stepFunctionSum → m.InDomains s →
        m.eval s id ≠ .error .overflow) ∧
      ∀ id n b, m.node? id = some n → n.operator = .cumulBound b →
        ∃ f bound, n.args = [.node f, .int bound] ∧ ∀ c, m.cumulative? s f = some c →
          (m.evalConstraint s id = .error .overflow ↔
            b.within bound 0 = true ∧ ∃ d ∈ c.turned, ¬ Fits (-d)) := by
  intro m
  have h : Built m _ _ := built_calls tag name cs
  have hm : m.InRange := (inRange_empty tag name).calls hcs
  refine ⟨fun hv => ⟨inDomains_of_verify h hs hv, hasHeight_of_verify h hm hs hv,
    boundOverflows_of_verify h hm hs hv⟩, fun id n hn ho hd =>
    eval_stepFunctionSum_ne_overflow h hm hs hd hn ho, fun id n b hn ho => ?_⟩
  obtain ⟨f, bound, hargs⟩ := exists_bound h hn ho
  exact ⟨f, bound, hargs, fun c hc => evalConstraint_cumulBound_eq_overflow h hn ho hargs hc⟩

/-- Calls that bound a pulse of the least height. -/
def pit : List Call :=
  [.intervalVar ⟨.none, none, none⟩, .intervalStep .pulse ⟨0, 0⟩ (.const intMin),
    .cumulBound .atMost ⟨0, 1⟩ 0]

def pitSolution : Solution := Solution.empty.set ⟨0, 0⟩ (.interval 0 1)

theorem proper_pit : ∀ c ∈ pit, c.Proper := by
  have hleast : Fits intMin := by decide
  have hzero : Fits 0 := by decide
  exact List.forall_mem_cons.2 ⟨⟨rfl, rfl⟩,
    List.forall_mem_cons.2 ⟨hleast, List.forall_mem_singleton.2 hzero⟩⟩

theorem inRange_pitSolution {x : NodeId} {v : SolutionValue}
    (hv : pitSolution.value? x = some v) : v.InRange fun _ => True := by
  simp only [pitSolution, Solution.set, Solution.value?, Solution.empty, SortedMap.get?_insert,
    SortedMap.get?_empty] at hv
  split_ifs at hv
  obtain rfl := Option.some.inj hv
  exact ⟨by decide, by decide⟩

theorem verify_overflow_pit :
    let m := (empty 0 none).calls pit
    m.HasHeight (m.value pitSolution) intMin ∧
      m.evalConstraint pitSolution ⟨0, 2⟩ = .error .overflow := by
  intro m
  obtain ⟨hverify, -, hbound⟩ := verify_overflow 0 none proper_pit fun _ _ => inRange_pitSolution
  have hop : (m.node? ⟨0, 2⟩).map Node.operator = some (.cumulBound .atMost) := by decide +kernel
  have hlook : (m.node? ⟨0, 2⟩).map Node.args = some [.node ⟨0, 1⟩, .int 0] := by rfl
  obtain ⟨n, hn, ho⟩ := Option.map_eq_some_iff.1 hop
  obtain ⟨f, bound, hargs, hiff⟩ := hbound ⟨0, 2⟩ n .atMost hn ho
  rw [hn, Option.map_some, hargs] at hlook
  obtain ⟨rfl, rfl⟩ : f = ⟨0, 1⟩ ∧ bound = 0 := by simpa using hlook
  have hc : m.cumulative? pitSolution ⟨0, 1⟩ = some (.pulse 0 1 intMin) := by decide +kernel
  exact ⟨(hverify (by decide +kernel)).2.1,
    (hiff _ hc).2 ⟨rfl, intMin, List.mem_singleton_self _, by decide⟩⟩

/-- The check of a solution overflows though its level is within the bound at every time. -/
theorem pit_overflows :
    let m := (empty 0 none).calls pit
    (∀ c ∈ pit, c.Proper) ∧ m.InDomains pitSolution ∧
      (∀ t, Cumulative.level (.pulse 0 1 intMin) t ≤ 0) ∧
      m.verify pitSolution = .error .overflow := by
  intro m
  refine ⟨proper_pit, ?_, fun t => ?_, by decide +kernel⟩
  · show ∀ x ∈ m.variableIds, _ = _
    decide +kernel
  · rw [Cumulative.level]
    split_ifs <;> decide

end Model

end Scheduling
