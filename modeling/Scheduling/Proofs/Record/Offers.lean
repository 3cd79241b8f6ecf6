import Scheduling.Proofs.Record.Requests

/-!
# Solutions that are handed to an engine

JSON has no float that is not finite, and what is written for one is null, which stands for an
absent variable or objective. So a solution that is handed to an engine arrives with every float that
is not finite changed to absent (`offered_solution_arrives`). It arrives unchanged exactly when its
floats are finite, and nothing checks this before it is sent (`infinite_solution_offered`).
-/

namespace Scheduling

open Model

/-- The value that is read from what is written for a value. -/
def SolutionValue.legible : SolutionValue → SolutionValue
  | float x => if x.isFinite then float x else absent
  | v => v

/-- The objective that is read from what is written for an objective. -/
def ObjectiveValue.legible : ObjectiveValue → ObjectiveValue
  | value x => if x.isFinite then value x else absent
  | o => o

/-- The record that is read from what is written for a record. -/
def SolutionRecord.legible (r : SolutionRecord) : SolutionRecord :=
  ⟨r.objective.legible, r.values.map fun v => (v.1, v.2.legible)⟩

/-- The floats of the solution are finite. -/
structure Solution.Finite (s : Solution) : Prop where
  values : ∀ e ∈ s.values.entries, ∀ x, e.2 = .float x → x.isFinite
  objective : ∀ x, s.objective = .value x → x.isFinite

theorem SolutionValue.legible_eq_self {v : SolutionValue} :
    v.legible = v ↔ ∀ x, v = .float x → x.isFinite := by
  cases v with
  | float x => by_cases hx : x.isFinite <;> simp [legible, hx]
  | _ => simp [legible]

theorem ObjectiveValue.legible_eq_self {o : ObjectiveValue} :
    o.legible = o ↔ ∀ x, o = .value x → x.isFinite := by
  cases o with
  | value x => by_cases hx : x.isFinite <;> simp [legible, hx]
  | _ => simp [legible]

theorem SolutionValue.eq_of_legible_eq_float {v : SolutionValue} {x : Float}
    (h : v.legible = .float x) : v = .float x := by
  cases v with
  | float y => by_cases hy : y.isFinite <;> simp_all [legible]
  | _ => exact nomatch h

theorem ObjectiveValue.eq_of_legible_eq_value {o : ObjectiveValue} {x : Float}
    (h : o.legible = .value x) : o = .value x := by
  cases o with
  | value y => by_cases hy : y.isFinite <;> simp_all [legible]
  | _ => exact nomatch h

/-- What can be read has finite floats, whatever the floats were. -/
theorem SolutionRecord.inRange_legible {r : SolutionRecord} (h : r.InRange fun _ => True) :
    r.legible.InRange fun x => x.isFinite := by
  refine ⟨?_, fun v' hv' => ?_⟩
  · show r.objective.legible.InRange _
    cases r.objective with
    | value x =>
      by_cases hx : x.isFinite <;> simp [ObjectiveValue.legible, ObjectiveValue.InRange, hx]
    | _ => trivial
  · obtain ⟨⟨k, v⟩, hv, rfl⟩ := List.mem_map.1 hv'
    obtain ⟨hk, hv⟩ := h.values _ hv
    refine ⟨hk, ?_⟩
    cases v with
    | float x => by_cases hx : x.isFinite <;> simp [SolutionValue.legible, SolutionValue.InRange, hx]
    | _ => exact hv

/-! ### The text of a solution -/

namespace Json

theorem compactItems_congr {items items' : List Json} (h : items.map compact = items'.map compact)
    (first : Bool) : compactItems items first = compactItems items' first := by
  induction items generalizing items' first with
  | nil => rw [List.map_eq_nil_iff.1 h.symm]
  | cons j rest ih =>
    cases items' with
    | nil => exact nomatch h
    | cons j' rest' =>
      obtain ⟨hj, hrest⟩ := List.cons.inj h
      rw [compactItems, compactItems, hj, ih hrest]

theorem compactMembers_congr {members members' : List (String × Json)}
    (h : members.map (fun m => (m.1, m.2.compact)) = members'.map fun m => (m.1, m.2.compact))
    (first : Bool) : compactMembers members first = compactMembers members' first := by
  induction members generalizing members' first with
  | nil => rw [List.map_eq_nil_iff.1 h.symm]
  | cons m rest ih =>
    cases members' with
    | nil => exact nomatch h
    | cons m' rest' =>
      obtain ⟨hm, hrest⟩ := List.cons.inj h
      obtain ⟨hkey, hj⟩ := Prod.mk.inj hm
      rw [compactMembers, compactMembers, hkey, hj, ih hrest]

theorem writeFloat_eq_null {x : Float} (h : ¬ x.isFinite) : writeFloat x = "null" := if_neg h

theorem mem_floats_arr_map {α : Type} {as : List α} {g : α → Json} {x : Float} :
    x ∈ (arr (as.map g)).floats ↔ ∃ a ∈ as, x ∈ (g a).floats := by
  show x ∈ floatsOfItems (as.map g) ↔ _
  induction as with
  | nil => simp [floatsOfItems]
  | cons a rest ih => simp [floatsOfItems, ih]

end Json

theorem SolutionValue.compact_legible (v : SolutionValue) :
    v.legible.toJson.compact = v.toJson.compact := by
  cases v with
  | float x =>
    by_cases hx : x.isFinite
    · rw [legible, if_pos hx]
    · rw [legible, if_neg hx]
      exact (Json.writeFloat_eq_null hx).symm
  | _ => rfl

theorem ObjectiveValue.members_legible (o : ObjectiveValue) :
    o.legible.members.map (fun m => (m.1, m.2.compact)) =
      o.members.map fun m => (m.1, m.2.compact) := by
  cases o with
  | value x =>
    by_cases hx : x.isFinite
    · rw [legible, if_pos hx]
    · rw [legible, if_neg hx]
      exact congrArg (fun text => [("objective", text)]) (Json.writeFloat_eq_null hx).symm
  | _ => rfl

theorem SolutionValue.mem_floats_toJson {v : SolutionValue} {x : Float} :
    x ∈ v.toJson.floats ↔ v = .float x := by
  cases v <;> simp [toJson, Json.floats, Json.floatsOfMembers, eq_comm]

namespace SolutionRecord

variable {r : SolutionRecord} {x : Float}

/-- What is written for a record is what is written for what can be read of it. -/
theorem compact_legible (r : SolutionRecord) : r.legible.toJson.compact = r.toJson.compact := by
  have hvalue (v : Nat × SolutionValue) :
      (valueToJson (v.1, v.2.legible)).compact = (valueToJson v).compact := by
    simp only [valueToJson, Json.compact, Json.compactMembers, v.2.compact_legible]
  have hitems : (r.legible.values.map valueToJson).map Json.compact =
      (r.values.map valueToJson).map Json.compact := by
    simp only [legible, List.map_map]
    exact List.map_congr_left fun v _ => hvalue v
  have hvalues : (Json.arr (r.legible.values.map valueToJson)).compact =
      (Json.arr (r.values.map valueToJson)).compact := by
    rw [Json.compact, Json.compact, Json.compactItems_congr hitems]
  rw [toJson, toJson, Json.compact, Json.compact, Json.compactMembers_congr]
  rw [List.map_append, List.map_append, legible, ObjectiveValue.members_legible]
  exact congrArg (fun text => _ ++ [("values", text)]) hvalues

theorem mem_floats_toJson : x ∈ r.toJson.floats ↔
    r.objective = .value x ∨ ∃ v ∈ r.values, v.2 = .float x := by
  have hvalues : x ∈ (Json.arr (r.values.map valueToJson)).floats ↔ ∃ v ∈ r.values, v.2 = .float x := by
    rw [Json.mem_floats_arr_map]
    simp [valueToJson, Json.floats, Json.floatsOfMembers, SolutionValue.mem_floats_toJson]
  obtain ⟨objective, values⟩ := r
  cases objective <;>
    simp [toJson, ObjectiveValue.members, ObjectiveValue.isUndefined, ObjectiveValue.toJson,
      valuesMember, Json.floats, Json.floatsOfMembers, ← hvalues, eq_comm]

end SolutionRecord

/-! ### What arrives -/

namespace Model

variable {f : NodeId → NodeId} {m m' : Model} {s s' : Solution} {r : SolutionRecord}

/-- The solution of a copy gives each variable what can be read of the value of what it is a copy
of, as one of its kind. -/
structure CarriesLegible (f : NodeId → NodeId) (m' : Model) (s' s : Solution) : Prop where
  objective : s'.objective = s.objective.legible
  value : ∀ x n', m'.node? x = some n' →
    s'.value? x = ((s.value? (f x)).map SolutionValue.legible).map (adapted n'.operator)

theorem exists_legible (hc : Covers f m' m) (h' : Sound m') (h : Sound m)
    (hinj : ∀ x y, m'.Has x → m'.Has y → f x = f y → x = y) (hasc : s.values.Ascending)
    (hr : m.solutionRecord s = .ok r) :
    ∃ s', m'.solution r.legible = .ok s' ∧ CarriesLegible f m' s' s := by
  obtain ⟨hobjective, hall⟩ := solutionRecord_ok hr
  have hlegible : List.Forall₂ (fun e p => m.variableRef e.1 = .ok p.1 ∧ p.2 = e.2)
      (s.values.entries.map fun e => (e.1, e.2.legible)) r.legible.values := by
    rw [SolutionRecord.legible, List.forall₂_map_left_iff, List.forall₂_map_right_iff]
    exact hall.imp fun e p hp => ⟨hp.1, congrArg SolutionValue.legible hp.2⟩
  have hasc' : (⟨s.values.entries.map fun e => (e.1, e.2.legible)⟩ :
      SortedMap NodeId SolutionValue).Ascending := List.pairwise_map.2 hasc
  obtain ⟨s', hs', hvalue⟩ := exists_withValues hc h' h hinj hlegible hasc' .empty
  refine ⟨{ s' with objective := r.legible.objective }, ?_, congrArg ObjectiveValue.legible hobjective,
    fun x n' hn' => ?_⟩
  · rw [solution, hs']
    rfl
  · show s'.value? x = _
    rw [hvalue x n' hn', show Solution.empty.value? x = none from rfl, Option.or_none,
      SortedMap.get?_mapped]
    rfl

/-- What arrives is the solution itself exactly when its floats are finite. -/
theorem CarriesLegible.carries_iff (hl : CarriesLegible f m' s' s) (hc : Covers f m' m)
    (h' : Sound m') (h : Sound m) (hasc : s.values.Ascending) (hr : m.solutionRecord s = .ok r) :
    Carries f m' s' s ↔ s.Finite := by
  refine ⟨fun hs => ⟨fun e he x hx => ?_, ?_⟩, fun hs => ⟨?_, fun x n' hn' => ?_⟩⟩
  · obtain ⟨k, hk⟩ : ∃ k, m.variableRef e.1 = .ok k := by
      obtain ⟨-, hall⟩ := solutionRecord_ok hr
      obtain ⟨p, -, hp⟩ := exists_of_forall₂ (List.Forall₂.flip (R := flip _) hall) he
      exact ⟨p.1, hp.1⟩
    obtain ⟨y, n', -, hn', hy⟩ := variableAt_of_variableRef hc h' h hk
    have hvalue : s.value? (f y) = some (.float x) := by
      rw [hy, ← hx]
      exact SortedMap.get?_of_mem hasc.nodup he
    have hsame := (hl.value y n' hn').symm.trans (hs.value y n' hn')
    rw [hvalue] at hsame
    by_contra hinfinite
    simp [SolutionValue.legible, hinfinite, adapted] at hsame
  · exact ObjectiveValue.legible_eq_self.1 (hl.objective.symm.trans hs.objective)
  · exact hl.objective.trans (ObjectiveValue.legible_eq_self.2 hs.objective)
  · rw [hl.value x n' hn', Option.map_map]
    cases hv : s.value? (f x) with
    | none => rfl
    | some v =>
      have hfinite : v.legible = v := SolutionValue.legible_eq_self.2
        (hs.values _ (SortedMap.mem_of_get? hv))
      rw [Option.map_some, Option.map_some, Function.comp, hfinite]

section Lines

variable {P : Type} (write : P → Json) (read : Json → Option P)

theorem line_legible (r : SolutionRecord) : (Command.solution r : Command P).line write =
    (Command.solution r.legible : Command P).line write := by
  simp only [Command.line, Command.toJson, EventRecord.tagged, Json.compact, Json.compactMembers,
    r.compact_legible]

theorem mem_floats_of_legible {x : Float}
    (hx : x ∈ ((Command.solution r.legible : Command P).toJson write).floats) :
    x ∈ ((Command.solution r : Command P).toJson write).floats := by
  simp only [Command.toJson, EventRecord.tagged, Json.floats, Json.floatsOfMembers, List.nil_append,
    List.append_nil, SolutionRecord.mem_floats_toJson] at hx ⊢
  obtain hx | ⟨v', hv', hx⟩ := hx
  · exact .inl (ObjectiveValue.eq_of_legible_eq_value hx)
  · obtain ⟨v, hv, rfl⟩ := List.mem_map.1 hv'
    exact .inr ⟨v, hv, SolutionValue.eq_of_legible_eq_float hx⟩

/-- The line of an offered solution is read as the record of what can be read of the solution. -/
theorem ofLine_offered (hin : r.InRange fun _ => True)
    (hf : ∀ x ∈ ((Command.solution r.legible : Command P).toJson write).floats,
      x.isFinite → Json.Faithful x) :
    Command.ofLine read ((Command.solution r : Command P).line write) = .ok (.solution r.legible) := by
  have hlevels : ((Command.solution r.legible : Command P).toJson write).nesting ≤ Json.depthMax := by
    have := r.legible.nesting_toJson
    simp only [Command.toJson, EventRecord.tagged, Json.nesting, Json.nestingOfMembers, Json.depthMax]
    omega
  have hin' : (Command.solution r.legible : Command P).InRange fun x => x.isFinite :=
    SolutionRecord.inRange_legible hin
  rw [line_legible, Command.ofLine_line hin' nofun nofun hf, if_pos hlevels]

end Lines

/-- A solution that is handed to an engine arrives with what can be read of its values, and as it is
exactly when its floats are finite. -/
theorem offered_solution_arrives (tag : Nat) (name : Option String) (cs : List Call) (s : Solution)
    (hasc : s.values.Ascending) (hints : ∀ e ∈ s.values.entries, e.2.InRange fun _ => True)
    (hsize : (((empty tag name).calls cs).refs.size : Int) ≤ halfWordMax + 1) {P : Type}
    (write : P → Json) (read : Json → Option P) (c : Command P)
    (hoffer : Command.offerSolution ((empty tag name).calls cs) s = .ok c) (tag' : Nat) :
    ∃ (r : ModelRecord) (m' : Model) (f : NodeId → NodeId) (rs : SolutionRecord) (s' : Solution),
      ((empty tag name).calls cs).record = .ok r ∧ ofRecord tag' r = .ok m' ∧
      Covers f m' ((empty tag name).calls cs) ∧
      Set.BijOn f {id | m'.Has id} {id | ((empty tag name).calls cs).Reachable id} ∧
      ((c.toJson write).Exact → Command.ofLine read (c.line write) = .ok (.solution rs)) ∧
      m'.solution rs = .ok s' ∧ CarriesLegible f m' s' s ∧
      (Carries f m' s' s ↔ s.Finite) := by
  have h : Sound ((empty tag name).calls cs) := (sound_empty tag name).calls cs
  obtain ⟨r, m', f, hr, hm', h', hc, hbij⟩ := h.exists_copy tag'
  have hinj (x y : NodeId) (hx : m'.Has x) (hy : m'.Has y) (he : f x = f y) : x = y :=
    hbij.injOn hx hy he
  cases hrs : ((empty tag name).calls cs).solutionRecord s with
  | error e =>
    rw [Command.offerSolution, hrs] at hoffer
    cases hoffer
  | ok rs =>
    rw [Command.offerSolution, hrs] at hoffer
    obtain rfl := Except.ok.inj hoffer
    obtain ⟨s', hs', hl⟩ := exists_legible hc h' h hinj hasc hrs
    have hall := (solutionRecord_ok hrs).2
    have hin : rs.InRange fun _ => True := by
      refine ⟨by cases rs.objective <;> trivial, fun v hv => ?_⟩
      obtain ⟨e, he, hk, hvalue⟩ := exists_of_forall₂ hall hv
      obtain ⟨n, hn, hnk, -⟩ := variableRef_ok.1 hk
      have := h.numbered.ref_lt (ref?_eq_some.2 ⟨n, hn, hnk⟩)
      exact ⟨by omega, hvalue ▸ hints e he⟩
    refine ⟨r, m', f, rs.legible, s', hr, hm', hc, hbij, fun hf => ?_, hs', hl,
      hl.carries_iff hc h' h hasc hrs⟩
    exact ofLine_offered write read hin fun x hx hfinite =>
      hf x (mem_floats_of_legible write hx) (.inl hfinite)

/-- Two float variables, one of which is infinite. -/
theorem offered_solution_arrives_infinite :
    let cs := [Call.floatVar ⟨none, none, none, none⟩, .floatVar ⟨none, none, none, none⟩]
    let s := (Solution.empty.set ⟨0, 0⟩ (.float 2.5)).set ⟨0, 1⟩ (.float (1 / 0))
    let c : Command Parameters := .solution ⟨.undefined, [(0, .float 2.5), (1, .float (1 / 0))]⟩
    let m := (empty 0 none).calls cs
    s.values.Ascending ∧ (∀ e ∈ s.values.entries, e.2.InRange fun _ => True) ∧
    (m.refs.size : Int) ≤ halfWordMax + 1 ∧ Command.offerSolution m s = .ok c ∧
    ∃ (r : ModelRecord) (m' : Model) (f : NodeId → NodeId) (rs : SolutionRecord) (s' : Solution),
      m.record = .ok r ∧ ofRecord 1 r = .ok m' ∧ Covers f m' m ∧
      Set.BijOn f {id | m'.Has id} {id | m.Reachable id} ∧
      ((c.toJson Parameters.toJson).Exact →
        Command.ofLine (Parameters.ofJson? .nullOrObject) (c.line Parameters.toJson) =
          .ok (.solution rs)) ∧
      m'.solution rs = .ok s' ∧ CarriesLegible f m' s' s ∧ (Carries f m' s' s ↔ s.Finite) := by
  intro cs s c m
  have hasc : s.values.Ascending :=
    Solution.ascending_set (Solution.ascending_set SortedMap.ascending_empty _ _) _ _
  have hints : ∀ e ∈ s.values.entries, e.2.InRange fun _ => True := by
    rw [show s.values.entries = [(⟨0, 0⟩, .float 2.5), (⟨0, 1⟩, .float (1 / 0))] from rfl]
    simp [SolutionValue.InRange]
  have hsize : (m.refs.size : Int) ≤ halfWordMax + 1 := by decide
  have hoffer : Command.offerSolution m s = .ok c := rfl
  exact ⟨hasc, hints, hsize, hoffer, offered_solution_arrives 0 none cs s hasc hints hsize
    Parameters.toJson (Parameters.ofJson? .nullOrObject) c hoffer 1⟩

/-- An infinite value of a variable and an infinite objective arrive as absent. -/
theorem infinite_solution_offered :
    let m := (empty 0 none).calls [.floatVar ⟨none, none, none, none⟩]
    let s := { Solution.empty.set ⟨0, 0⟩ (.float (1 / 0)) with objective := .value (1 / 0) }
    ∃ (c : Command Parameters) (r : ModelRecord) (m' : Model) (f : NodeId → NodeId)
      (rs : SolutionRecord) (s' : Solution) (y : NodeId),
      Command.offerSolution m s = .ok c ∧ m.record = .ok r ∧ ofRecord 1 r = .ok m' ∧
      Covers f m' m ∧ f y = ⟨0, 0⟩ ∧
      Command.ofLine (Parameters.ofJson? .nullOrObject) (c.line Parameters.toJson) =
        .ok (.solution rs) ∧
      m'.solution rs = .ok s' ∧ s.value? ⟨0, 0⟩ = some (.float (1 / 0)) ∧
      s'.value? y = some .absent ∧ s.objective = .value (1 / 0) ∧ s'.objective = .absent := by
  intro m s
  let rs : SolutionRecord := ⟨.value (1 / 0), [(0, .float (1 / 0))]⟩
  have hinfinite : (1 / 0 : Float).isFinite = false := by decide
  have hlegible : rs.legible = ⟨.absent, [(0, .absent)]⟩ := by
    simp [rs, SolutionRecord.legible, ObjectiveValue.legible, SolutionValue.legible, hinfinite]
  have hin : rs.InRange fun _ => True := ⟨trivial, by simp [rs, SolutionValue.InRange, halfWordMax]⟩
  have hfloats : ((Command.solution rs.legible : Command Parameters).toJson
      Parameters.toJson).floats = [] := by
    rw [hlegible]
    rfl
  have hline := ofLine_offered Parameters.toJson (Parameters.ofJson? .nullOrObject) hin
    (by simp [hfloats])
  have h : Sound m := (sound_empty 0 none).calls _
  have hasc : s.values.Ascending := Solution.ascending_set SortedMap.ascending_empty _ _
  have hrs : m.solutionRecord s = .ok rs := rfl
  obtain ⟨r, m', f, hr, hm', h', hc, hbij⟩ := h.exists_copy 1
  obtain ⟨s', hs', hl⟩ := exists_legible hc h' h (fun x y hx hy he => hbij.injOn hx hy he) hasc hrs
  have href : m.variableRef ⟨0, 0⟩ = .ok 0 := rfl
  obtain ⟨y, n', -, hn', hy⟩ := variableAt_of_variableRef hc h' h href
  have hvalue : s.value? ⟨0, 0⟩ = some (.float (1 / 0)) := rfl
  refine ⟨.solution rs, r, m', f, rs.legible, s', y, rfl, hr, hm', hc, hy, hline, hs', hvalue, ?_, rfl,
    ?_⟩
  · rw [hl.value y n' hn', hy, hvalue]
    simp [SolutionValue.legible, hinfinite, adapted]
  · rw [hl.objective]
    simp [s, ObjectiveValue.legible, hinfinite]

end Model

end Scheduling
