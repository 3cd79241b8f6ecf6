import Scheduling.Proofs.Record.EventJson
import Scheduling.Proofs.Record.Requests
import Scheduling.Record.Event

/-!
# Round trips of events

An event about variables of a model is written on one line, and read for the same model as exactly
this event (`events_round_trip`). An event that calls its own solution wrong is never read, and an
integer for a float variable comes back as a float; every other event survives.
-/

namespace Scheduling

open Model

/-! ### What an engine says about a model -/

/-- A value as one of the variable's own kind: neither a float variable nor a truth-valued one
carries an integer. -/
def SolutionValue.OfKind : Operator → SolutionValue → Prop
  | .floatVar, .int _ | .boolVar, .int _ => False
  | _, _ => True

theorem Model.adapted_of_kind {op : Operator} {v : SolutionValue} (h : v.OfKind op) :
    adapted op v = v := by
  unfold adapted
  split
  · exact h.elim
  · exact h.elim
  · rfl

/-- Values for variables with a number, each of them once, and each value of its variable's kind. -/
structure Found.Over (m : Model) (f : Found) : Prop where
  time : IsReal f.solveTime
  valid : f.valid ≠ some false
  ascending : f.solution.values.Ascending
  keys : ∀ e ∈ f.solution.values.entries, ∃ k, m.variableRef e.1 = .ok k
  kinds : ∀ e ∈ f.solution.values.entries, ∀ n, m.node? e.1 = some n → e.2.OfKind n.operator
  values : ∀ e ∈ f.solution.values.entries, e.2.InRange IsReal
  objective : f.solution.objective.InRange IsReal

/-- Domains for variables with a number, each of them once. -/
structure Propagated.Over (m : Model) (p : Propagated) : Prop where
  duration : IsReal p.duration
  ascending : ∀ d ∈ p.domains, d.Ascending
  keys : ∀ d ∈ p.domains, ∀ e ∈ d.entries, ∃ k, m.variableRef e.1 = .ok k
  bounds : ∀ d ∈ p.domains, ∀ e ∈ d.entries, e.2.bounds.InRange IsReal

/-- The event is about numbered variables of the model and has finite floats. -/
def Event.Over (m : Model) : Event → Prop
  | .solution f => f.Over m
  | .lowerBound solveTime value => IsReal solveTime ∧ IsReal value
  | .summary s => s.InRange IsReal
  | .domains p => p.Over m
  | _ => True

/-! ### Numbers of variables -/

namespace Model

variable {m : Model} {id : NodeId} {k : Nat} {α : Type}

/-- Entries of variables under the numbers of the variables. -/
def Tallied (m : Model) : List (NodeId × α) → List (Nat × α) → Prop :=
  List.Forall₂ fun e p => m.variableRef e.1 = .ok p.1 ∧ p.2 = e.2

theorem variableAt_variableRef (h : Sound m) (hr : m.variableRef id = .ok k) :
    ∃ n, m.node? id = some n ∧ m.variableAt k = .ok (id, n.operator) := by
  obtain ⟨n, hn, hnk, hv⟩ := variableRef_ok.1 hr
  have hid := (h.numbered k id).2 (ref?_eq_some.2 ⟨n, hn, hnk⟩)
  refine ⟨n, hn, ?_⟩
  rw [variableAt, byRef?, hid]
  simp only [node_eq_ok.2 hn, hv, if_true]

theorem variableRef_le (h : Sound m) (hsize : (m.refs.size : Int) ≤ halfWordMax + 1)
    (hr : m.variableRef id = .ok k) : (k : Int) ≤ halfWordMax := by
  obtain ⟨n, hn, hnk, -⟩ := variableRef_ok.1 hr
  have := h.numbered.ref_lt (ref?_eq_some.2 ⟨n, hn, hnk⟩)
  omega

theorem exists_domainRecords {d : ModelDomains}
    (h : ∀ e ∈ d.entries, ∃ k, m.variableRef e.1 = .ok k) :
    ∃ ds, m.domainRecords d = .ok ds ∧ m.Tallied d.entries ds := by
  obtain ⟨ds, hds, -⟩ := exists_mapM (l := d.entries)
    (g := fun e : NodeId × Domain => do
      let number ← m.variableRef e.1
      pure (number, e.2)) fun e he => by
    obtain ⟨k, hk⟩ := h e he
    exact ⟨(k, e.2), by rw [hk]; rfl⟩
  refine ⟨ds, hds, (mapM_ok.1 hds).imp fun e p hp => ?_⟩
  cases hk : m.variableRef e.1 with
  | error _ => simp [hk, bind, Except.bind] at hp
  | ok k =>
    rw [hk] at hp
    obtain rfl := Except.ok.inj hp
    exact ⟨rfl, rfl⟩

/-! ### What a client reads -/

/-- Values of a record are set for the variables that they were written for. -/
theorem withValues_tallied (h : Sound m) {es : List (NodeId × SolutionValue)}
    {ps : List (Nat × SolutionValue)} (hall : m.Tallied es ps)
    (hkinds : ∀ e ∈ es, ∀ n, m.node? e.1 = some n → e.2.OfKind n.operator) (s : Solution) :
    m.withValues s ps =
      .ok { s with values := es.foldl (fun values e => values.insert e.1 e.2) s.values } := by
  induction hall generalizing s with
  | nil => rfl
  | @cons e p es ps he _ ih =>
    obtain ⟨hkind, hrest⟩ := List.forall_mem_cons.1 hkinds
    obtain ⟨n, hn, hat⟩ := variableAt_variableRef h he.1
    obtain ⟨k, v⟩ := p
    obtain rfl : v = e.2 := he.2
    rw [withValues, hat]
    show m.withValues (s.set e.1 (adapted n.operator e.2)) ps = _
    rw [adapted_of_kind (hkind n hn), ih hrest]
    rfl

/-- Domains of records are set for the variables that they were written for. -/
theorem withDomains_tallied (h : Sound m) {es : List (NodeId × Domain)} {ps : List (Nat × Domain)}
    (hall : m.Tallied es ps) (d : ModelDomains) :
    m.withDomains d ps = .ok (es.foldl (fun d e => d.insert e.1 e.2) d) := by
  induction hall generalizing d with
  | nil => rfl
  | @cons e p es ps he _ ih =>
    obtain ⟨n, -, hat⟩ := variableAt_variableRef h he.1
    obtain ⟨k, v⟩ := p
    obtain rfl : v = e.2 := he.2
    rw [withDomains, hat]
    exact ih _

end Model

/-! ### Records of events -/

namespace Event

variable {m : Model} {e : Event}

/-- A solution that was found has a record, which is read as the same solution. -/
theorem exists_foundRecord (h : Sound m) (hsize : (m.refs.size : Int) ≤ halfWordMax + 1) {f : Found}
    (hf : f.Over m) :
    ∃ r, m.solutionRecord f.solution = .ok r ∧ r.InRange IsReal ∧ m.solution r = .ok f.solution := by
  obtain ⟨r, hr⟩ := exists_solutionRecord hf.keys
  obtain ⟨hobjective, hall⟩ := solutionRecord_ok hr
  refine ⟨r, hr, ⟨hobjective ▸ hf.objective, fun v hv => ?_⟩, ?_⟩
  · obtain ⟨e, he, hk, hvalue⟩ := exists_of_forall₂ hall hv
    exact ⟨variableRef_le h hsize hk, hvalue ▸ hf.values e he⟩
  · have hvalues : f.solution.values.entries.foldl (fun values e => values.insert e.1 e.2)
        SortedMap.empty = f.solution.values := hf.ascending.foldl_insert
    rw [Model.solution, withValues_tallied h hall hf.kinds]
    show Except.ok (Solution.mk _ r.objective) = _
    rw [hobjective]
    exact congrArg (fun values => Except.ok { f.solution with values := values }) hvalues

/-- What propagation found has a record, which is read as the same. -/
theorem exists_propagatedRecord (h : Sound m) (hsize : (m.refs.size : Int) ≤ halfWordMax + 1)
    {p : Propagated} (hp : p.Over m) :
    ∃ r, (domains p).record m = .ok (.domains r) ∧ r.InRange IsReal ∧ propagated m r = .ok p := by
  obtain ⟨duration, domains⟩ := p
  cases domains with
  | none => exact ⟨⟨true, duration, []⟩, rfl, ⟨hp.duration, by simp⟩, rfl⟩
  | some d =>
    obtain ⟨ds, hds, hall⟩ := exists_domainRecords (hp.keys d rfl)
    refine ⟨⟨false, duration, ds⟩, ?_, ⟨hp.duration, fun v hv => ?_⟩, ?_⟩
    · rw [record, hds]
    · obtain ⟨e, he, hk, hvalue⟩ := exists_of_forall₂ hall hv
      exact ⟨variableRef_le h hsize hk, hvalue ▸ hp.bounds d rfl e he⟩
    · have hfold : d.entries.foldl (fun d e => d.insert e.1 e.2) SortedMap.empty = d :=
        (hp.ascending d rfl).foldl_insert
      simp only [propagated, withDomains_tallied h hall, hfold, Bool.false_eq_true, if_false]

/-- An event has a record, which is read as the same event. -/
theorem exists_record (h : Sound m) (hsize : (m.refs.size : Int) ≤ halfWordMax + 1)
    (he : e.Over m) : ∃ r, e.record m = .ok r ∧ r.InRange IsReal ∧ ofRecord m r = .ok e := by
  cases e with
  | log line => exact ⟨.log line, rfl, trivial, rfl⟩
  | trace line => exact ⟨.trace line, rfl, trivial, rfl⟩
  | warning line => exact ⟨.warning line, rfl, trivial, rfl⟩
  | error line => exact ⟨.error line, rfl, trivial, rfl⟩
  | text content => exact ⟨.text content, rfl, trivial, rfl⟩
  | lowerBound solveTime value => exact ⟨.lowerBound solveTime value, rfl, he, rfl⟩
  | summary s => exact ⟨.summary s, rfl, he, rfl⟩
  | solution found =>
    obtain ⟨r, hr, hin, hread⟩ := exists_foundRecord h hsize he
    refine ⟨.solution ⟨found.solveTime, found.valid, r⟩, ?_, ⟨he.time, hin⟩, ?_⟩
    · rw [record, hr]
    · rw [ofRecord, if_neg he.valid, hread]
  | domains p =>
    obtain ⟨r, hr, hin, hread⟩ := exists_propagatedRecord h hsize he
    refine ⟨.domains r, hr, hin, ?_⟩
    rw [ofRecord, hread]

end Event

namespace Model

variable {m : Model} {e : Event}

/-- An event about variables of a model is written on one line, and read as the same event. -/
theorem events_round_trip (h : m.Obtained) (hsize : (m.refs.size : Int) ≤ halfWordMax + 1)
    (he : e.Over m) :
    ∃ (r : EventRecord) (line : String), e.record m = .ok r ∧ e.write m = .ok line ∧
      '\n' ∉ line.toList ∧ (r.toJson.Exact → Event.read m line = .ok e) := by
  obtain ⟨r, hr, hin, hread⟩ := Event.exists_record h.sound hsize he
  refine ⟨r, r.toJson.compact, hr, ?_, Json.inLine_compact _, fun hf => ?_⟩
  · rw [Event.write, hr]
  · rw [Event.read, EventRecord.ofText?_compact hin hf]
    exact hread

/-- Two tasks, and a solution with a time for each of them. -/
theorem events_round_trip_twoTasks :
    let m := Sample.twoTasks 0
    let s := (Solution.empty.set ⟨0, 0⟩ (Sample.span 0)).set ⟨0, 1⟩ (Sample.span 10)
    let e := Event.solution ⟨Float.ofInt 1, some true, { s with objective := .value (Float.ofInt 20) }⟩
    m.Obtained ∧ (m.refs.size : Int) ≤ halfWordMax + 1 ∧ e.Over m ∧
    ∃ (r : EventRecord) (line : String), e.record m = .ok r ∧ e.write m = .ok line ∧
      '\n' ∉ line.toList ∧ (r.toJson.Exact → Event.read m line = .ok e) := by
  intro m s e
  have hm : m.Obtained := (Obtained.empty 0 (some "two-tasks")).calls _
  have hsize : (m.refs.size : Int) ≤ halfWordMax + 1 := by decide
  have hreal (v : Int) (hv : Fits v) : IsReal (Float.ofInt v) := .inr ⟨v, hv, rfl⟩
  have he : e.Over m := by
    have hentries : s.values.entries = [(⟨0, 0⟩, Sample.span 0), (⟨0, 1⟩, Sample.span 10)] := rfl
    refine ⟨hreal 1 (by decide), nofun, ?_, ?_, ?_, ?_, hreal 20 (by decide)⟩
    · exact Solution.ascending_set (Solution.ascending_set SortedMap.ascending_empty _ _) _ _
    · show ∀ e ∈ s.values.entries, _
      rw [hentries]
      exact List.forall_mem_cons.2 ⟨⟨0, rfl⟩, List.forall_mem_singleton.2 ⟨1, rfl⟩⟩
    · show ∀ e ∈ s.values.entries, _
      rw [hentries]
      simp [SolutionValue.OfKind, Sample.span]
    · show ∀ e ∈ s.values.entries, _
      rw [hentries]
      simp [Sample.span, SolutionValue.InRange, Fits, intMin, intMax]
  exact ⟨hm, hsize, he, events_round_trip hm hsize he⟩

end Model

end Scheduling
