import Scheduling.Proofs.Eval.Values

/-!
# Checks of copies

A solution passes the checks of a model exactly when every variable is in its domain, no constraint
fails and the objective is as reported (`verify_ok`). A model that covers the variables, the
constraints and the objective of another one passes its own checks exactly when that one does
(`verify_iff`).
-/

namespace Scheduling

open Query (Alike Agree)

/-! ### Queries in turn -/

namespace Query

theorem resolve_bind {α β : Type} {value : NodeId → Except EvalError Value} (q : Query α)
    (k : α → Query β) :
    (q >>= k).resolve value =
      match q.resolve value with
      | .ok a => (k a).resolve value
      | .error e => .error e := by
  induction q with
  | answer a => rfl
  | fail e => rfl
  | ask id next ih =>
    show Query.resolve value (.ask id fun v => next v >>= k) = _
    simp only [resolve]
    cases value id with
    | ok v => exact ih v
    | error e => rfl

theorem resolve_bind_ok {value : NodeId → Except EvalError Value} {q : Query Unit}
    {q' : Query Unit} :
    (q >>= fun _ => q').resolve value = .ok () ↔
      q.resolve value = .ok () ∧ q'.resolve value = .ok () := by
  rw [resolve_bind]
  cases q.resolve value with
  | ok _ => exact ⟨fun h => ⟨rfl, h⟩, fun h => h.2⟩
  | error e => exact ⟨fun h => (nomatch h), fun h => (nomatch h.1)⟩

end Query

namespace Model

open Query (resolve_bind_ok)

variable {S : NodeId → NodeId → Prop} {f : NodeId → NodeId} {m m' : Model} {s s' : Solution}
  {d d' : Nat} {id id' x y : NodeId} {n n' : Node}

theorem resolve_inTurn {value : NodeId → Except EvalError Value} {qs : List (Query Unit)} :
    (inTurn qs).resolve value = .ok () ↔ ∀ q ∈ qs, q.resolve value = .ok () := by
  induction qs with
  | nil => exact ⟨nofun, fun _ => rfl⟩
  | cons q qs ih => rw [inTurn, resolve_bind_ok, ih, List.forall_mem_cons]

theorem alike_inTurn {α : Type} {g g' : α → Query Unit} {l : List α}
    (h : ∀ a ∈ l, Alike Eq S (g' a) (g a)) : Alike Eq S (inTurn (l.map g')) (inTurn (l.map g)) := by
  induction l with
  | nil => exact .answer rfl
  | cons a l ih =>
    exact (h a List.mem_cons_self).bind fun _ _ _ => ih fun b hb => h b (List.mem_cons_of_mem _ hb)

/-! ### Domains -/

theorem alike_check {c : Prop} [Decidable c] {e e' : EvalError} :
    Alike Eq S (if c then .answer () else .fail e' : Query Unit) (if c then .answer () else .fail e) := by
  split
  · exact .answer rfl
  · exact .fail

theorem alike_checkWithin (what : String) (v : Int) (low high : Option Int) (least greatest : Int) :
    Alike Eq S (checkWithin id' what v low high least greatest)
      (checkWithin id what v low high least greatest) := by
  unfold checkWithin
  by_cases h : v < low.getD least ∨ high.getD greatest < v
  · simp only [if_pos h]
    exact .fail
  · simp only [if_neg h]
    exact .answer rfl

theorem alike_checkBounds (hcopy : n'.Copy f n) (v : Value) :
    Alike Eq S (checkBounds id' n' v) (checkBounds id n v) := by
  unfold checkBounds
  rw [hcopy.operator, hcopy.attributes]
  cases n'.operator with
  | intVar =>
    cases v with
    | int v => exact alike_checkWithin ..
    | _ => exact .answer rfl
  | floatVar =>
    cases v with
    | float x =>
      by_cases h : x < n'.bounds.min.getD (-floatMax) ∨ n'.bounds.max.getD floatMax < x
      · simp only [if_pos h]
        exact .fail
      · simp only [if_neg h]
        exact .answer rfl
    | _ => exact .answer rfl
  | intervalVar =>
    cases v with
    | interval start finish =>
      refine (alike_checkWithin ..).bind fun _ _ _ => (alike_checkWithin ..).bind fun _ _ _ => ?_
      cases checked (finish - start) with
      | none => exact .fail
      | some length => exact alike_checkWithin ..
    | _ => exact .answer rfl
  | _ => exact .answer rfl

variable (hc : Covers f m' m)

include hc

theorem alike_domainQuery (hx : Below f m' d' d x y) :
    Alike Eq (Below f m' d' d) (m'.domainQuery x) (m.domainQuery y) := by
  refine (alike_lookup hc hx).bind fun n' n hn => ?_
  obtain ⟨-, -, hcopy⟩ := hn
  rw [hcopy.operator, hcopy.attributes]
  by_cases ho : n'.operator = .sequenceVar
  · rw [if_pos ho, if_pos ho]
    exact .answer rfl
  · rw [if_neg ho, if_neg ho]
    refine (Alike.value hx).bind fun v _ hv => ?_
    subst hv
    cases n'.presence.getD .present <;> cases v.isAbsent <;>
      first
      | exact .fail
      | exact .answer rfl
      | exact alike_checkBounds hcopy v

/-! ### Constraints and the objective -/

theorem alike_constraintQuery (h' : Sound m') (h : Sound m)
    (hx : Below f m' m'.nodes.size m.nodes.size x y) :
    Alike Eq (Below f m' m'.nodes.size m.nodes.size) (m'.constraintQuery x) (m.constraintQuery y) := by
  refine (alike_holdsQuery hc h' h hx).bind fun b _ hb => ?_
  subst hb
  obtain _ | b := b
  · exact .answer rfl
  · cases b with
    | true => exact .answer rfl
    | false => exact (alike_lookup hc hx).bind fun _ _ _ => .fail

theorem alike_objectiveQuery (h' : Sound m') (reported : ObjectiveValue) :
    Alike Eq (Below f m' m'.nodes.size m.nodes.size) (m'.objectiveQuery reported)
      (m.objectiveQuery reported) := by
  unfold objectiveQuery
  rw [hc.objective]
  cases ho : m'.objective with
  | none => exact .answer rfl
  | some o =>
    rw [Option.map_some]
    by_cases hr : reported.isUndefined
    · simp only [if_pos hr]
      exact .answer rfl
    · simp only [if_neg hr]
      obtain ⟨n', -, hn', -⟩ := h'.objective_ref ho
      have hx := has_of_node? hn'
      have hy := hc.has hx
      have hbelow : Below f m' m'.nodes.size m.nodes.size o.expr (f o.expr) :=
        ⟨hx, rfl, hx.2, hy.2⟩
      refine (Alike.value hbelow).bind fun v _ hv => ?_
      subst hv
      cases v.float? with
      | none => exact alike_check
      | some a => exact alike_check

/-! ### All checks -/

omit hc in
/-- A solution passes the checks when it passes each of them on the values found from scratch. -/
theorem verify_ok (h : Sound m) : m.verify s = .ok () ↔
    (∀ x ∈ m.variableIds, (m.domainQuery x).resolve (m.value s) = .ok ()) ∧
      (∀ x ∈ m.topLevel.toList, (m.constraintQuery x).resolve (m.value s) = .ok ()) ∧
      (m.objectiveQuery s.objective).resolve (m.value s) = .ok () := by
  have hself {x : NodeId} (hx : m.Has x) :
      Below (fun id => id) m m.nodes.size m.nodes.size x x := ⟨hx, rfl, hx.2, hx.2⟩
  have hq : Alike Eq (Below (fun id => id) m m.nodes.size m.nodes.size) (m.verifyQuery s)
      (m.verifyQuery s) := by
    refine (alike_inTurn fun x hx => ?_).bind fun _ _ _ =>
      (alike_inTurn fun x hx => ?_).bind fun _ _ _ => alike_objectiveQuery (.refl m) h _
    · exact alike_domainQuery (.refl m) (hself (mem_ids.1 (List.mem_of_mem_filter hx)))
    · exact alike_constraintQuery (.refl m) h h (hself (h.topLevel_has x hx))
  rw [verify, (agree_resolveWith (.refl m) h h (.refl m s) hq).ok_iff, verifyQuery, resolve_bind_ok,
    resolve_bind_ok, resolve_inTurn, resolve_inTurn, List.forall_mem_map, List.forall_mem_map]

/-- A solution passes the checks of a model exactly when it passes those of a model that covers its
variables. -/
theorem verify_iff (h' : Sound m') (h : Sound m) (hs : Follows f m' s' s)
    (ho : s'.objective = s.objective)
    (hvar : ∀ y ∈ m.variableIds, ∃ x, m'.Has x ∧ f x = y) :
    m'.verify s' = .ok () ↔ m.verify s = .ok () := by
  have hval (x y : NodeId) (hx : Below f m' m'.nodes.size m.nodes.size x y) :
      Agree Eq (m'.value s' x) (m.value s y) := agree_valueBelow hc h' h hs hx
  have hbelow {x : NodeId} (hx : m'.Has x) : Below f m' m'.nodes.size m.nodes.size x (f x) :=
    ⟨hx, rfl, hx.2, (hc.has hx).2⟩
  have hdomain {x : NodeId} (hx : m'.Has x) :
      (m'.domainQuery x).resolve (m'.value s') = .ok () ↔
        (m.domainQuery (f x)).resolve (m.value s) = .ok () :=
    ((alike_domainQuery hc (hbelow hx)).resolve hval).ok_iff ()
  have hconstraint {x : NodeId} (hx : m'.Has x) :
      (m'.constraintQuery x).resolve (m'.value s') = .ok () ↔
        (m.constraintQuery (f x)).resolve (m.value s) = .ok () :=
    ((alike_constraintQuery hc h' h (hbelow hx)).resolve hval).ok_iff ()
  have hids {x : NodeId} (hx : m'.Has x) : x ∈ m'.variableIds ↔ f x ∈ m.variableIds := by
    obtain ⟨n', hn'⟩ := hx.exists_node
    obtain ⟨n, hn, hcopy, -⟩ := hc.node x n' hn'
    simp only [variableIds, List.mem_filter, mem_ids, hx, hc.has hx, hn', hn, Option.any_some,
      hcopy.operator]
  rw [verify_ok h', verify_ok h, ho]
  refine and_congr ⟨fun hall y hy => ?_, fun hall x hx => ?_⟩ (and_congr ?_ ?_)
  · obtain ⟨x, hx, rfl⟩ := hvar y hy
    exact (hdomain hx).1 (hall x ((hids hx).2 hy))
  · have hhas := mem_ids.1 (List.mem_of_mem_filter hx)
    exact (hdomain hhas).2 (hall (f x) ((hids hhas).1 hx))
  · rw [hc.topLevel, List.forall_mem_map]
    exact forall_congr' fun x => forall_congr' fun hx => hconstraint (h'.topLevel_has x hx)
  · exact ((alike_objectiveQuery hc h' s.objective).resolve hval).ok_iff ()

end Model

end Scheduling
