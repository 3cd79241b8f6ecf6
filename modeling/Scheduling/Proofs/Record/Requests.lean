import Scheduling.Proofs.Parameters.Admitted
import Scheduling.Proofs.Record.Range
import Scheduling.Proofs.Record.Solution
import Scheduling.Proofs.Record.Texts

/-!
# Round trips of requests

The line of a command and the text of a document that are written for a model that calls build are
read back as the same request about a copy of the model, with equal parameters and a warm start of
the same values, unless the text has more levels than a reader follows; then it is refused
(`texts_round_trip`).

An expression that is used once stands inside its user, three levels deeper. So the limit is reached
by models that a client can build: a chain of 42 negations is written and cannot be read
(`chain_refused`).
-/

namespace Scheduling

open Model

-- whether the members of parameters are plain is never computed here
attribute [local irreducible] Json.Plain

/-! ### What a client writes -/

/-- The floats of the value are read back from what is written for them. -/
def Json.Exact (j : Json) : Prop := ∀ x ∈ j.floats, IsReal x → Json.Faithful x

/-- Values of 64 bits for variables of the model, each of them once. -/
structure Solution.Over (m : Model) (s : Solution) : Prop where
  ascending : s.values.Ascending
  keys : ∀ e ∈ s.values.entries, e.1 ∈ m.variableIds
  values : ∀ e ∈ s.values.entries, e.2.InRange IsReal
  objective : s.objective.InRange IsReal

namespace Model

variable {f : NodeId → NodeId} {m m' : Model} {s : Solution} {ws : Option Solution}

/-- The solution of a copy gives each variable the value of what it is a copy of, as one of its kind. -/
structure Carries (f : NodeId → NodeId) (m' : Model) (s' s : Solution) : Prop where
  objective : s'.objective = s.objective
  value : ∀ x n', m'.node? x = some n' → s'.value? x = (s.value? (f x)).map (adapted n'.operator)

theorem solutionRecord_inRange (h : Sound m) (hsize : (m.refs.size : Int) ≤ halfWordMax + 1)
    (hs : s.Over m) {r : SolutionRecord} (hr : m.solutionRecord s = .ok r) : r.InRange IsReal := by
  obtain ⟨hobjective, hall⟩ := solutionRecord_ok hr
  refine ⟨hobjective ▸ hs.objective, fun v hv => ?_⟩
  obtain ⟨e, he, hk, hvalue⟩ := exists_of_forall₂ hall hv
  obtain ⟨n, hn, hnk, -⟩ := variableRef_ok.1 hk
  have := h.numbered.ref_lt (ref?_eq_some.2 ⟨n, hn, hnk⟩)
  exact ⟨by omega, hvalue ▸ hs.values e he⟩

/-- A warm start over variables with a number is written, and read for a copy of the model. -/
theorem exists_warmStart (hc : Covers f m' m) (h' : Sound m') (h : Sound m)
    (hinj : ∀ x y, m'.Has x → m'.Has y → f x = f y → x = y)
    (hsize : (m.refs.size : Int) ≤ halfWordMax + 1)
    (hnum : ∀ x ∈ m.variableIds, ∃ k, m.variableRef x = .ok k) (hws : ∀ s ∈ ws, s.Over m) :
    ∃ wr ws', m.warmStartRecord ws = .ok wr ∧ m'.warmStart wr = .ok ws' ∧
      (∀ r ∈ wr, r.InRange IsReal) ∧ Option.Rel (Carries f m') ws' ws := by
  cases ws with
  | none => exact ⟨none, none, rfl, rfl, by simp, .none⟩
  | some s =>
    have hs := hws s rfl
    obtain ⟨r, hr⟩ := exists_solutionRecord fun e he => hnum e.1 (hs.keys e he)
    obtain ⟨s', hs', hobjective, hvalue⟩ := exists_solution hc h' h hinj hs.ascending hr
    refine ⟨some r, some s', ?_, ?_, ?_, .some ⟨hobjective, hvalue⟩⟩
    · show some <$> m.solutionRecord s = _
      rw [hr]
      rfl
    · show some <$> m'.solution r = _
      rw [hs']
      rfl
    · rintro _ ⟨rfl⟩
      exact solutionRecord_inRange h hsize hs hr

end Model

/-! ### Lines and texts -/

section Texts

variable {c : Command Parameters} {unit : UnitForm} {tag : Nat}

/-- The line of the command is read as the request, unless it has too many levels. -/
def Command.ReadsAs (unit : UnitForm) (tag : Nat) (c : Command Parameters) (q : Request Parameters) :
    Prop :=
  (c.toJson Parameters.toJson).Exact →
    Request.read (Parameters.ofJson? unit) tag (c.line Parameters.toJson) =
      if (c.toJson Parameters.toJson).nesting ≤ Json.depthMax then .ok q else .error .unreadable

/-- The text of the problem is read as another problem, unless it has too many levels. -/
def Problem.ReadsAs (unit : UnitForm) (tag : Nat) (p p' : Problem Parameters) : Prop :=
  ∃ j : Json, p.document Parameters.toJson = .ok j.pretty ∧ (j.Exact →
    Problem.ofDocument (Parameters.ofJson? unit) tag j.pretty =
      if j.nesting ≤ Json.depthMax then .ok p' else .error .unreadable)

theorem Command.solveModel_ok {m : Model} {p : Parameters} {ws : Option Solution} {r : ModelRecord}
    {wr : Option SolutionRecord} (hr : m.record = .ok r) (hwr : m.warmStartRecord ws = .ok wr) :
    solveModel m p ws = .ok (.solve r p wr) := by
  simp only [solveModel, hwr, hr, bind, Except.bind, pure, Except.pure]

theorem Command.readsAs (h : c.InRange IsReal) (hp : ∀ p ∈ c.parameters?, p.Proper IsReal)
    {q : Request Parameters} (hq : Request.ofCommand tag c = .ok q) : c.ReadsAs unit tag q := by
  intro hf
  have hline := c.ofLine_line h (fun p hc => Parameters.plain_toJson (hp p hc))
    (fun p hc => Parameters.ofJson?_toJson (hp p hc) unit) hf
  rw [Request.read, hline]
  split
  · exact hq
  · rfl

theorem Problem.readsAs {m m' : Model} {po : Option Parameters} {ws ws' : Option Solution}
    {r : ModelRecord} {wr : Option SolutionRecord} (hr : m.record = .ok r)
    (hwr : m.warmStartRecord ws = .ok wr) (hm' : ofRecord tag r = .ok m')
    (hws' : m'.warmStart wr = .ok ws') (hin : r.InRange IsReal) (hwin : ∀ s ∈ wr, s.InRange IsReal)
    (hp : ∀ p ∈ po, p.Proper IsReal) : Problem.ReadsAs unit tag ⟨m, po, ws⟩ ⟨m', po, ws'⟩ := by
  refine ⟨recordsJson Parameters.toJson r po wr, ?_, fun hf => ?_⟩
  · rw [document, hr]
    show (m.warmStartRecord ws >>= _) = _
    rw [hwr]
    rfl
  have htext := records?_text hin (fun p h => Parameters.plain_toJson (hp p h)) hwin
    (fun p _ he => nomatch (he : Json.obj p.members = .null)) (fun p h => Parameters.ofJson?_toJson (hp p h) unit)
    (fun _ _ => Parameters.isSound_of_ofJson?) hf
  rw [ofDocument, htext]
  split
  · rename_i heq
    split at heq
    · exact nomatch heq
    · rw [if_neg ‹_›]
  · rename_i model parameters warmStart heq
    split at heq
    · obtain ⟨rfl, rfl, rfl⟩ := heq
      rw [if_pos ‹_›, hm']
      show (m'.warmStart wr >>= _) = _
      rw [hws']
      rfl
    · exact nomatch heq

end Texts

namespace Model

variable {tag : Nat} {name : Option String} {cs : List Call} {m : Model} {p : Parameters}
  {ws : Option Solution}

/-- What a client writes of a model that it built is read as the same request about a copy of the
model, or is refused because it has too many levels. -/
theorem texts_round_trip (hm : m = (empty tag name).calls cs) (hcs : ∀ c ∈ cs, c.Proper)
    (hsize : (m.refs.size : Int) ≤ halfWordMax + 1) (hp : p.Proper IsReal)
    (hws : ∀ s ∈ ws, s.Over m) (unit : UnitForm) (tag' : Nat) :
    ∃ (r : ModelRecord) (m' : Model) (f : NodeId → NodeId) (ws' : Option Solution),
      m.record = .ok r ∧ m'.record = .ok r ∧ Covers f m' m ∧
      Set.BijOn f {id | m'.Has id} {id | m.Reachable id} ∧ Option.Rel (Carries f m') ws' ws ∧
      (∃ c, Command.solveModel m p ws = .ok c ∧ c.ReadsAs unit tag' (.solve m' p ws')) ∧
      (∃ c, Command.propagateModel m p = .ok c ∧ c.ReadsAs unit tag' (.propagate m' p)) ∧
      (∃ c, Command.textOfModel m p ws = .ok c ∧ c.ReadsAs unit tag' (.toText m' p ws')) ∧
      ∀ po ∈ [none, some p], Problem.ReadsAs unit tag' ⟨m, po, ws⟩ ⟨m', po, ws'⟩ := by
  have h : Sound m := hm ▸ (sound_empty tag name).calls cs
  have hnumbers : m.InRange := hm ▸ (inRange_empty tag name).calls hcs
  obtain ⟨r, m', f, hr, hm', h', hc, hbij⟩ := h.exists_copy tag'
  have hinj (x y : NodeId) (hx : m'.Has x) (hy : m'.Has y) (he : f x = f y) : x = y :=
    hbij.injOn hx hy he
  have hnum (x : NodeId) (hx : x ∈ m.variableIds) : ∃ k, m.variableRef x = .ok k := by
    subst hm
    exact exists_variableRef tag name cs hx
  obtain ⟨wr, ws', hwr, hws', hwin, hcarry⟩ := exists_warmStart hc h' h hinj hsize hnum hws
  have hin := hnumbers.record h hsize hr
  have hp' : ∀ q ∈ some p, q.Proper IsReal := by rintro _ ⟨rfl⟩; exact hp
  have hsolve : (Command.solve r p wr).ReadsAs unit tag' (.solve m' p ws') :=
    Command.readsAs (c := .solve r p wr) ⟨hin, hwin⟩ hp' (by
      simp only [Request.ofCommand, hm', hws', bind, Except.bind, pure, Except.pure])
  have hpropagate : (Command.propagate r p).ReadsAs unit tag' (.propagate m' p) :=
    Command.readsAs (c := .propagate r p) hin hp' (by
      simp only [Request.ofCommand, hm', bind, Except.bind, pure, Except.pure])
  have htext : (Command.toText r p wr).ReadsAs unit tag' (.toText m' p ws') :=
    Command.readsAs (c := .toText r p wr) ⟨hin, hwin⟩ hp' (by
      simp only [Request.ofCommand, hm', hws', bind, Except.bind, pure, Except.pure])
  refine ⟨r, m', f, ws', hr, (hc.record_eq h' h).trans hr, hc, hbij, hcarry, ⟨_, ?_, hsolve⟩,
    ⟨_, ?_, hpropagate⟩, ⟨_, ?_, htext⟩, fun po hpo => ?_⟩
  · exact Command.solveModel_ok hr hwr
  · simp only [Command.propagateModel, hr, bind, Except.bind, pure, Except.pure]
  · simp only [Command.textOfModel, hwr, hr, bind, Except.bind, pure, Except.pure]
  · refine Problem.readsAs hr hwr hm' hws' hin hwin fun q hq => ?_
    obtain rfl | hpo := List.mem_cons.1 hpo
    · exact nomatch hq
    · exact hp' q (List.mem_singleton.1 hpo ▸ hq)

/-- Two tasks with a time for each, four workers, and a tunable. -/
theorem texts_round_trip_twoTasks :
    let m := Sample.twoTasks 0
    let s := (Solution.empty.set ⟨0, 0⟩ (Sample.span 0)).set ⟨0, 1⟩ (Sample.span 10)
    let search := { WorkerParameters.empty with internal := SortedMap.empty.insert "_depth" (.int 3) }
    let p := { Parameters.empty with nbWorkers := some 4, search := search }
    (m.refs.size : Int) ≤ halfWordMax + 1 ∧ p.Proper IsReal ∧ s.Over m ∧
    ∃ (r : ModelRecord) (m' : Model) (f : NodeId → NodeId) (ws' : Option Solution),
      m.record = .ok r ∧ m'.record = .ok r ∧ Covers f m' m ∧
      Set.BijOn f {id | m'.Has id} {id | m.Reachable id} ∧ Option.Rel (Carries f m') ws' (some s) ∧
      (∃ c, Command.solveModel m p (some s) = .ok c ∧ c.ReadsAs .nullOrObject 1 (.solve m' p ws')) ∧
      (∃ c, Command.propagateModel m p = .ok c ∧ c.ReadsAs .nullOrObject 1 (.propagate m' p)) ∧
      (∃ c, Command.textOfModel m p (some s) = .ok c ∧
        c.ReadsAs .nullOrObject 1 (.toText m' p ws')) ∧
      ∀ po ∈ [none, some p],
        Problem.ReadsAs .nullOrObject 1 ⟨m, po, some s⟩ ⟨m', po, ws'⟩ := by
  intro m s search p
  have hsearch : search.Proper IsReal := by
    have hentries : search.internal.entries = [("_depth", .int 3)] := rfl
    refine ⟨nofun, nofun, nofun, nofun, nofun, nofun, .insert .nil _ _, ?_, ?_, ?_⟩ <;>
      rw [hentries] <;> refine List.forall_mem_singleton.2 ?_
    · rfl
    · exact Json.plain_of_fits (by decide)
    · rfl
  have hp : p.Proper IsReal := by
    refine ⟨?_, nofun, nofun, nofun, nofun, nofun, nofun, nofun, hsearch, nofun⟩
    rintro _ ⟨rfl⟩
    decide
  have hs : s.Over m := by
    have hentries : s.values.entries = [(⟨0, 0⟩, Sample.span 0), (⟨0, 1⟩, Sample.span 10)] := rfl
    have hvariables : m.variableIds = [⟨0, 0⟩, ⟨0, 1⟩] := rfl
    refine ⟨Solution.ascending_set (Solution.ascending_set SortedMap.ascending_empty _ _) _ _, ?_, ?_,
      trivial⟩
    · simp [hentries, hvariables]
    · simp [hentries, Sample.span, SolutionValue.InRange, Fits, intMin, intMax]
  have hsize : (m.refs.size : Int) ≤ halfWordMax + 1 := by decide
  refine ⟨hsize, hp, hs, texts_round_trip rfl ?_ hsize hp ?_ .nullOrObject 1⟩
  · simp [Sample.task, Call.Proper, Bounds.none, IntOperand.Proper, FloatOperand.Proper, Fits, intMin,
      intMax]
  · rintro _ ⟨rfl⟩
    exact hs

/-- A truth value that is negated as often as asked, and required. -/
def negations (depth : Nat) : Model :=
  (empty 0 none).calls (.boolVar ⟨none, none⟩ ::
    (List.range depth).map (fun i => .not (.node ⟨0, i⟩)) ++ [.constraint (.node ⟨0, depth⟩)])

/-- The line of 42 negations is written, and refused by every reader. -/
theorem chain_refused : ∃ c, Command.solveModel (negations 42) Parameters.empty none = .ok c ∧
    ∀ unit tag, Request.read (Parameters.ofJson? unit) tag (c.line Parameters.toJson) =
      .error .unreadable := by
  have hm : negations 42 = (empty 0 none).calls _ := rfl
  have hsound : Sound (negations 42) := (sound_empty 0 none).calls _
  obtain ⟨r, hr, -⟩ := exists_record hsound
  have hin : r.InRange IsReal := by
    refine InRange.record ((inRange_empty 0 none).calls fun c hc => ?_) hsound (by decide +kernel) hr
    obtain rfl | hc := List.mem_cons.1 hc
    · trivial
    obtain hc | hc := List.mem_append.1 hc
    · obtain ⟨i, -, rfl⟩ := List.mem_map.1 hc
      trivial
    · obtain rfl := List.mem_singleton.1 hc
      trivial
  have hlevels : (Command.solveModel (negations 42) Parameters.empty none).toOption.any fun c =>
      (c.toJson Parameters.toJson).floats.isEmpty ∧
        Json.depthMax < (c.toJson Parameters.toJson).nesting := by
    decide +kernel
  rw [Command.solveModel_ok hr rfl] at hlevels
  obtain ⟨hfloats, hdeep⟩ := of_decide_eq_true hlevels
  refine ⟨_, Command.solveModel_ok hr rfl, fun unit tag => ?_⟩
  have hp : ∀ p ∈ some Parameters.empty, p.Proper IsReal := by
    rintro _ ⟨rfl⟩
    exact Parameters.proper_empty
  have hline := Command.ofLine_line (c := .solve r Parameters.empty none) ⟨hin, nofun⟩
    (fun p hc => Parameters.plain_toJson (hp p hc))
    (fun p hc => Parameters.ofJson?_toJson (hp p hc) unit)
    (by simp [List.isEmpty_iff.1 hfloats])
  rw [Request.read, hline, if_neg (Nat.not_le.2 hdeep)]
  rfl

end Model

end Scheduling
