import Scheduling.Proofs.Arena.History
import Scheduling.Proofs.Eval.Checks
import Scheduling.Proofs.Record.RoundTrip
import Scheduling.Proofs.SortedMap

/-!
# Round trips of solutions

A solution that is written for a model and read for a copy of the model gives each variable the same
value, as one of its kind (`exists_solution`). So the copy has the same values, and the solution
passes the checks of both or of none (`evaluation_round_trip`).
-/

namespace Scheduling

open Std

/-! ### Names in order -/

theorem NodeId.compare_eq (a b : NodeId) :
    compare a b = (compare a.model b.model).then (compare a.index b.index) := rfl

instance : TransOrd NodeId :=
  inferInstanceAs (TransCmp (compareLex (compareOn NodeId.model) (compareOn NodeId.index)))

instance : LawfulEqOrd NodeId where
  compare_self := ReflCmp.compare_self
  eq_of_compare {a b} h := by
    rw [NodeId.compare_eq, Ordering.then_eq_eq] at h
    obtain ⟨ka, i⟩ := a
    obtain ⟨kb, j⟩ := b
    simpa using h

/-- Values that were set one after the other have their keys in ascending order. -/
theorem Solution.ascending_set {s : Solution} (h : s.values.Ascending) (id : NodeId)
    (v : SolutionValue) : (s.set id v).values.Ascending := h.insert id v

namespace Model

variable {f : NodeId → NodeId} {m m' : Model} {s s' : Solution} {id x : NodeId} {n n' : Node} {k : Nat}

theorem adapted_adapted (op : Operator) (v : SolutionValue) :
    adapted op (adapted op v) = adapted op v := by
  by_cases hfloat : op = .floatVar
  · subst hfloat
    cases v <;> rfl
  by_cases hbool : op = .boolVar
  · subst hbool
    cases v <;> rfl
  · have hself (v : SolutionValue) : adapted op v = v := by
      unfold adapted
      split <;> simp_all
    rw [hself, hself]

theorem variableRef_ok : m.variableRef id = .ok k ↔
    ∃ n, m.node? id = some n ∧ n.ref = some k ∧ n.operator.isVariable := by
  rw [variableRef]
  cases hn : m.node id with
  | error e =>
    refine ⟨fun h => (nomatch h), fun ⟨n, hn', _⟩ => ?_⟩
    rw [node_eq_ok.2 hn'] at hn
    exact nomatch hn
  | ok n =>
    have hn' := node_eq_ok.1 hn
    cases hr : n.ref with
    | none => simp [hn', hr]
    | some r =>
      by_cases hv : n.operator.isVariable
      · simp [hn', hr, hv]
      · simp [hn', hr, hv]

/-- The number of a variable is that of its copy. -/
theorem variableAt_of_variableRef (hc : Covers f m' m) (h' : Sound m') (h : Sound m)
    (hr : m.variableRef id = .ok k) :
    ∃ x n', m'.variableAt k = .ok (x, n'.operator) ∧ m'.node? x = some n' ∧ f x = id := by
  obtain ⟨n, hn, hnr, hv⟩ := variableRef_ok.1 hr
  have hid := (h.numbered k id).2 (ref?_eq_some.2 ⟨n, hn, hnr⟩)
  rw [← Array.getElem?_toList, hc.refs, List.getElem?_map, Option.map_eq_some_iff] at hid
  obtain ⟨x, hx, rfl⟩ := hid
  rw [Array.getElem?_toList] at hx
  obtain ⟨n', hn', -⟩ := ref?_eq_some.1 ((h'.numbered k x).1 hx)
  obtain ⟨n₁, hn₁, hcopy, -⟩ := hc.node x n' hn'
  obtain rfl := Option.some.inj (hn.symm.trans hn₁)
  refine ⟨x, n', ?_, hn', rfl⟩
  rw [hcopy.operator] at hv
  rw [variableAt, byRef?, hx]
  simp only [node_eq_ok.2 hn', hv, if_true]

/-! ### Values -/

/-- The record of the value of a variable: the number of the variable, and the value. -/
def valueRecord (m : Model) (e : NodeId × SolutionValue) :
    Except ProtocolError (Nat × SolutionValue) := do
  let number ← m.variableRef e.1
  pure (number, e.2)

theorem solutionRecord_eq (m : Model) (s : Solution) : m.solutionRecord s = (do
    let values ← s.values.entries.mapM m.valueRecord
    pure ⟨s.objective, values⟩) := rfl

theorem valueRecord_ok {e : NodeId × SolutionValue} {p : Nat × SolutionValue} :
    m.valueRecord e = .ok p ↔ m.variableRef e.1 = .ok p.1 ∧ p.2 = e.2 := by
  rw [valueRecord]
  cases m.variableRef e.1 with
  | error _ => simp [bind, Except.bind]
  | ok k => simp [bind, Except.bind, pure, Except.pure, Prod.ext_iff, eq_comm]

/-- The record of a solution has the numbers of its variables with their values. -/
theorem solutionRecord_ok {r : SolutionRecord} (h : m.solutionRecord s = .ok r) :
    r.objective = s.objective ∧
      List.Forall₂ (fun e p => m.variableRef e.1 = .ok p.1 ∧ p.2 = e.2) s.values.entries r.values := by
  rw [solutionRecord_eq] at h
  cases hps : s.values.entries.mapM m.valueRecord with
  | error e =>
    rw [hps] at h
    cases h
  | ok ps =>
    rw [hps] at h
    obtain rfl := Except.ok.inj h
    exact ⟨rfl, (mapM_ok.1 hps).imp fun _ _ => valueRecord_ok.1⟩

/-- A solution whose variables all have a number has a record. -/
theorem exists_solutionRecord (h : ∀ e ∈ s.values.entries, ∃ k, m.variableRef e.1 = .ok k) :
    ∃ r, m.solutionRecord s = .ok r := by
  obtain ⟨ps, hps, -⟩ := exists_mapM (g := m.valueRecord) (l := s.values.entries) fun e he => by
    obtain ⟨k, hk⟩ := h e he
    exact ⟨(k, e.2), valueRecord_ok.2 ⟨hk, rfl⟩⟩
  refine ⟨⟨s.objective, ps⟩, ?_⟩
  rw [solutionRecord_eq, hps]
  rfl

/-- Setting the values of a record gives each variable the value of what it is a copy of. -/
theorem exists_withValues (hc : Covers f m' m) (h' : Sound m') (h : Sound m)
    (hinj : ∀ x y, m'.Has x → m'.Has y → f x = f y → x = y)
    {es : List (NodeId × SolutionValue)} {ps : List (Nat × SolutionValue)}
    (hall : List.Forall₂ (fun e p => m.variableRef e.1 = .ok p.1 ∧ p.2 = e.2) es ps)
    (hasc : (⟨es⟩ : SortedMap NodeId SolutionValue).Ascending) (s₀ : Solution) :
    ∃ s', m'.withValues s₀ ps = .ok s' ∧
      ∀ x n', m'.node? x = some n' →
        s'.value? x = (((⟨es⟩ : SortedMap NodeId SolutionValue).get? (f x)).map
          (adapted n'.operator)).or (s₀.value? x) := by
  induction hall generalizing s₀ with
  | nil => exact ⟨s₀, rfl, fun x n' _ => rfl⟩
  | @cons e p es ps he _ ih =>
    obtain ⟨id, v⟩ := e
    obtain ⟨k, w⟩ := p
    obtain ⟨hk, hw⟩ := he
    obtain rfl : w = v := hw
    obtain ⟨hlt, hrest⟩ := List.pairwise_cons.1 hasc
    obtain ⟨x, n', hx, hn', rfl⟩ := variableAt_of_variableRef hc h' h hk
    obtain ⟨s', hs', hvalue⟩ := ih hrest (s₀.set x (adapted n'.operator w))
    refine ⟨s', ?_, fun y ny hny => ?_⟩
    · rw [withValues, hx]
      exact hs'
    · rw [hvalue y ny hny, SortedMap.get?_cons, Solution.value?, Solution.set, SortedMap.get?_insert]
      by_cases hyx : y = x
      · subst hyx
        obtain rfl := Option.some.inj (hny.symm.trans hn')
        have hnone : (⟨es⟩ : SortedMap NodeId SolutionValue).get? (f y) = none :=
          SortedMap.get?_eq_none fun e he => (SortedMap.ne_of_lt (hlt e he)).symm
        simp [hnone]
      · have hne : f y ≠ f x := fun he =>
          hyx (hinj y x (has_of_node? hny) (has_of_node? hn') he)
        rw [if_neg hne, if_neg hyx]
        rfl

/-- A solution that is written for a model can be read for a copy of it, and gives each variable the
value of what it is a copy of. -/
theorem exists_solution (hc : Covers f m' m) (h' : Sound m') (h : Sound m)
    (hinj : ∀ x y, m'.Has x → m'.Has y → f x = f y → x = y) (hasc : s.values.Ascending)
    {r : SolutionRecord} (hr : m.solutionRecord s = .ok r) :
    ∃ s', m'.solution r = .ok s' ∧ s'.objective = s.objective ∧
      ∀ x n', m'.node? x = some n' → s'.value? x = (s.value? (f x)).map (adapted n'.operator) := by
  obtain ⟨hobjective, hall⟩ := solutionRecord_ok hr
  obtain ⟨s', hs', hvalue⟩ := exists_withValues hc h' h hinj hall hasc .empty
  refine ⟨{ s' with objective := r.objective }, ?_, hobjective, fun x n' hn' => ?_⟩
  · rw [solution, hs']
    rfl
  · show s'.value? x = _
    rw [hvalue x n' hn', show Solution.empty.value? x = none from rfl, Option.or_none]
    rfl

/-! ### Evaluation -/

/-- Variables of a model that calls build have a number. -/
theorem exists_variableRef (tag : Nat) (name : Option String) (cs : List Call)
    (hx : x ∈ ((empty tag name).calls cs).variableIds) :
    ∃ k, ((empty tag name).calls cs).variableRef x = .ok k := by
  obtain ⟨hmem, hvar⟩ := List.mem_filter.1 hx
  obtain ⟨n, hn⟩ := (mem_ids.1 hmem).exists_node
  rw [hn, Option.any_some] at hvar
  have hi := (node?_eq_some.1 hn).2
  have hmarked := (built_calls tag name cs).marked x.index n hi
  obtain ⟨k, hk⟩ := Option.isSome_iff_exists.1 (hmarked.2 (by simp [hi, hvar]))
  exact ⟨k, variableRef_ok.2 ⟨n, hn, hk, hvar⟩⟩

theorem variable_reachable (tag : Nat) (name : Option String) (cs : List Call)
    (hx : x ∈ ((empty tag name).calls cs).variableIds) : ((empty tag name).calls cs).Reachable x := by
  obtain ⟨k, hk⟩ := exists_variableRef tag name cs hx
  obtain ⟨n, hn, hnk, -⟩ := variableRef_ok.1 hk
  have href := ((built_calls tag name cs).numbered k x).2 (ref?_eq_some.2 ⟨n, hn, hnk⟩)
  exact .ref (List.mem_of_getElem? (i := k) (by rw [Array.getElem?_toList]; exact href))

/-- Whatever solution can be written for a model that calls build, it can be read for the model that
is read. Then every node has the value of what it is a copy of, or both have none, and the solution
passes the checks of both models or of none. -/
theorem evaluation_round_trip (tag : Nat) (name : Option String) (cs : List Call) (s : Solution)
    (hasc : s.values.Ascending) (rs : SolutionRecord)
    (hrs : ((empty tag name).calls cs).solutionRecord s = .ok rs) (tag' : Nat) :
    ∃ (r : ModelRecord) (m' : Model) (s' : Solution) (f : NodeId → NodeId),
      ((empty tag name).calls cs).record = .ok r ∧ ofRecord tag' r = .ok m' ∧
      m'.solution rs = .ok s' ∧ Covers f m' ((empty tag name).calls cs) ∧
      Set.BijOn f {id | m'.Has id} {id | ((empty tag name).calls cs).Reachable id} ∧
      (∀ x, m'.Has x → ∀ v, m'.eval s' x = .ok v ↔ ((empty tag name).calls cs).eval s (f x) = .ok v) ∧
      (m'.verify s' = .ok () ↔ ((empty tag name).calls cs).verify s = .ok ()) := by
  have h : Sound ((empty tag name).calls cs) := (sound_empty tag name).calls cs
  obtain ⟨r, m', f, hr, hm', h', hc, hbij⟩ := h.exists_copy tag'
  have hinj (x y : NodeId) (hx : m'.Has x) (hy : m'.Has y) (he : f x = f y) : x = y :=
    hbij.injOn hx hy he
  obtain ⟨s', hs', hobjective, hvalue⟩ := exists_solution hc h' h hinj hasc hrs
  have hfollows : Follows f m' s' s := fun x n' hn' _ => by
    rw [hvalue x n' hn', Option.map_map]
    congr 1
    exact funext fun v => adapted_adapted n'.operator v
  refine ⟨r, m', s', f, hr, hm', hs', hc, hbij, fun x hx v => ?_, ?_⟩
  · exact (agree_eval hc h' h hfollows hx).ok_iff v
  · refine verify_iff hc h' h hfollows hobjective fun y hy => ?_
    exact hbij.surjOn (variable_reachable tag name cs hy)

/-- Two tasks with a time for each. -/
theorem evaluation_round_trip_twoTasks :
    let m := Sample.twoTasks 0
    let s := (Solution.empty.set ⟨0, 0⟩ (Sample.span 0)).set ⟨0, 1⟩ (Sample.span 10)
    let rs : SolutionRecord := ⟨.undefined, [(0, Sample.span 0), (1, Sample.span 10)]⟩
    s.values.Ascending ∧ m.solutionRecord s = .ok rs ∧
    ∃ (r : ModelRecord) (m' : Model) (s' : Solution) (f : NodeId → NodeId),
      m.record = .ok r ∧ ofRecord 1 r = .ok m' ∧ m'.solution rs = .ok s' ∧ Covers f m' m ∧
      Set.BijOn f {id | m'.Has id} {id | m.Reachable id} ∧
      (∀ x, m'.Has x → ∀ v, m'.eval s' x = .ok v ↔ m.eval s (f x) = .ok v) ∧
      (m'.verify s' = .ok () ↔ m.verify s = .ok ()) := by
  intro m s rs
  have hasc : s.values.Ascending :=
    Solution.ascending_set (Solution.ascending_set SortedMap.ascending_empty _ _) _ _
  have hrs : m.solutionRecord s = .ok rs := rfl
  exact ⟨hasc, hrs, evaluation_round_trip 0 (some "two-tasks") _ s hasc rs hrs 1⟩

end Model

end Scheduling
