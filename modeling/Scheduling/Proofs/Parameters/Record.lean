import Scheduling.Proofs.Parameters.Fields

/-!
# Parameters and their JSON values

Parameters are proper if their numbers have the bits of their fields, and if their tunables have keys
with an underscore in front (`Proper`). Their JSON values are plain, and what parameters are read from
is readable throughout (`Parameters.isSound_of_ofJson?`).
-/

namespace Scheduling

variable {ok : Float → Prop}

/-! ### Workers -/

namespace WorkerParameters

open FieldReader JsonField

variable {w : WorkerParameters} {unit : UnitForm} {key : String}

/-- Numbers have the bits of their fields. The keys of tunables ascend and have an underscore in
front; the values are as the engine is sent them, with floats as asked. -/
structure Proper (ok : Float → Prop) (w : WorkerParameters) : Prop where
  randomSeed : ∀ n ∈ w.randomSeed, (n : Int) ≤ wordMax
  failLimit : ∀ n ∈ w.failLimit, (n : Int) ≤ wordMax
  branchLimit : ∀ n ∈ w.branchLimit, (n : Int) ≤ wordMax
  lnsStepLimit : ∀ n ∈ w.lnsStepLimit, (n : Int) ≤ wordMax
  noOverlap : ∀ n ∈ w.noOverlapPropagationLevel, (n : Int) ≤ halfWordMax
  cumul : ∀ n ∈ w.cumulPropagationLevel, (n : Int) ≤ halfWordMax
  ascending : w.internal.Ascending
  underscore : ∀ e ∈ w.internal.entries, e.1.toList.head? = some '_'
  plain : ∀ e ∈ w.internal.entries, e.2.Plain ok
  canonical : ∀ e ∈ w.internal.entries, e.2.canonical = e.2

theorem field?_underscore (hk : key.toList.head? = some '_') : field? unit key = none := by
  unfold field?
  split
  case h_8 => rfl
  all_goals simp at hk

theorem members_worker (w : WorkerParameters) :
    w.members = JsonField.members worker w ++ w.internal.entries := by
  simp [members, JsonField.members, worker, FieldKind.write]

theorem proper_fields (h : w.Proper ok) : ∀ F ∈ worker, ∀ v ∈ F.get w, F.kind.Proper ok v := by
  refine List.forall_mem_cons.2 ⟨fun _ _ => trivial, ?_⟩
  refine List.forall_mem_cons.2 ⟨h.randomSeed, ?_⟩
  refine List.forall_mem_cons.2 ⟨h.failLimit, ?_⟩
  refine List.forall_mem_cons.2 ⟨h.branchLimit, ?_⟩
  refine List.forall_mem_cons.2 ⟨h.lnsStepLimit, ?_⟩
  refine List.forall_mem_cons.2 ⟨h.noOverlap, ?_⟩
  exact List.forall_mem_cons.2 ⟨h.cumul, nofun⟩

theorem plain_members (h : w.Proper ok) : ∀ m ∈ w.members, Json.Plain ok m.2 := by
  rw [members_worker]
  intro m hm
  obtain hm | hm := List.mem_append.1 hm
  · exact JsonField.plain_members (proper_fields h) m hm
  · exact h.plain m hm

theorem isSound_of_field? {read : FieldReader WorkerParameters} {j : Json} {w' : WorkerParameters}
    (hk : field? unit key = some read) (h : read j w = .ok w') : j.isSound := by
  by_cases hkey : key ∈ worker.map name
  · obtain ⟨F, hF, rfl⟩ := List.mem_map.1 hkey
    obtain rfl := Option.some.inj ((worker_row unit F hF).symm.trans hk)
    exact isSound_of_reader h
  · rw [worker_field?_eq_none hkey] at hk
    exact nomatch hk

/-- A record of a worker that is read is readable throughout. -/
theorem isSound_of_ofJson {j : Json} (h : ofJson unit j = .ok w) : j.isSound := by
  cases j with
  | obj members =>
    replace h : ofMembers unit members = .ok w := h
    rw [ofMembers] at h
    cases hm : FieldReader.members (field? unit) [] .empty members with
    | error e =>
      rw [hm] at h
      exact nomatch h
    | ok found => exact sound_of_members (fun _ _ _ _ _ => isSound_of_field?) hm
  | _ => exact nomatch h

theorem soundItems_of_mapM {items : List Json} {ws : List WorkerParameters}
    (h : items.mapM (ofJson unit) = .ok ws) : Json.soundItems items := by
  induction items generalizing ws with
  | nil => rfl
  | cons j rest ih =>
    rw [List.mapM_cons] at h
    cases hj : ofJson unit j with
    | error e =>
      rw [hj] at h
      exact nomatch h
    | ok w =>
      cases hrest : rest.mapM (ofJson unit) with
      | error e =>
        rw [hj, hrest] at h
        exact nomatch h
      | ok ws => exact Bool.and_eq_true_iff.2 ⟨isSound_of_ofJson hj, ih hrest⟩

end WorkerParameters

/-! ### Solves -/

namespace Parameters

open FieldReader JsonField

variable {p p' : Parameters} {unit : UnitForm} {key : String}

/-- Numbers have the bits of their fields, floats are as asked, and the records of workers are
proper. -/
structure Proper (ok : Float → Prop) (p : Parameters) : Prop where
  nbWorkers : ∀ n ∈ p.nbWorkers, (n : Int) ≤ halfWordMax
  timeLimit : ∀ x ∈ p.timeLimit, ok x
  solutionLimit : ∀ n ∈ p.solutionLimit, (n : Int) ≤ wordMax
  logLevel : ∀ n ∈ p.logLevel, (n : Int) ≤ halfWordMax
  logPeriod : ∀ x ∈ p.logPeriod, ok x
  warningLevel : ∀ n ∈ p.warningLevel, (n : Int) ≤ halfWordMax
  absoluteGapTolerance : ∀ x ∈ p.absoluteGapTolerance, ok x
  relativeGapTolerance : ∀ x ∈ p.relativeGapTolerance, ok x
  search : p.search.Proper ok
  workers : ∀ w ∈ p.workers, w.Proper ok

/-- The member with the records of workers. -/
def workersMember (p : Parameters) : List (String × Json) :=
  if p.workers.isEmpty then [] else [("workers", .arr (p.workers.map WorkerParameters.toJson))]

theorem keys_workersMember (p : Parameters) :
    (p.workersMember.map Prod.fst).Sublist ["workers"] := by
  rw [workersMember]
  split
  · exact List.nil_sublist _
  · exact List.Sublist.refl _

theorem field?_underscore (hk : key.toList.head? = some '_') : field? unit key = none := by
  unfold field?
  split
  case h_15 => rfl
  all_goals simp at hk

theorem members_solve (p : Parameters) :
    p.members = JsonField.members solve p ++ (p.search.members ++ p.workersMember) := by
  simp [members, JsonField.members, solve, FieldKind.write, workersMember]

theorem proper_fields (h : p.Proper ok) : ∀ F ∈ solve, ∀ v ∈ F.get p, F.kind.Proper ok v := by
  refine List.forall_mem_cons.2 ⟨fun _ _ => trivial, ?_⟩
  refine List.forall_mem_cons.2 ⟨fun _ _ => trivial, ?_⟩
  refine List.forall_mem_cons.2 ⟨fun _ _ => trivial, ?_⟩
  refine List.forall_mem_cons.2 ⟨h.nbWorkers, ?_⟩
  refine List.forall_mem_cons.2 ⟨h.timeLimit, ?_⟩
  refine List.forall_mem_cons.2 ⟨h.solutionLimit, ?_⟩
  refine List.forall_mem_cons.2 ⟨h.logLevel, ?_⟩
  refine List.forall_mem_cons.2 ⟨h.logPeriod, ?_⟩
  refine List.forall_mem_cons.2 ⟨h.warningLevel, ?_⟩
  refine List.forall_mem_cons.2 ⟨fun _ _ => trivial, ?_⟩
  refine List.forall_mem_cons.2 ⟨fun _ _ => trivial, ?_⟩
  refine List.forall_mem_cons.2 ⟨h.absoluteGapTolerance, ?_⟩
  exact List.forall_mem_cons.2 ⟨h.relativeGapTolerance, nofun⟩

theorem key_workersMember {m : String × Json} (hm : m ∈ p.workersMember) : m.1 = "workers" :=
  List.mem_singleton.1 (p.keys_workersMember.subset (List.mem_map_of_mem hm))

theorem plain_members (h : p.Proper ok) : ∀ m ∈ p.members, Json.Plain ok m.2 := by
  rw [members_solve]
  intro m hm
  simp only [List.mem_append] at hm
  obtain hm | hm | hm := hm
  · exact JsonField.plain_members (proper_fields h) m hm
  · exact WorkerParameters.plain_members h.search m hm
  · rw [workersMember] at hm
    split at hm
    · exact nomatch hm
    · obtain rfl := List.mem_singleton.1 hm
      exact Json.plain_list fun w hw =>
        Json.plainMembers_iff.2 (WorkerParameters.plain_members (h.workers w hw))

theorem plain_toJson (h : p.Proper ok) : Json.Plain ok p.toJson := by
  rw [toJson, Json.Plain, Json.plainMembers_iff]
  exact plain_members h

/-- Parameters of which none is set are proper. -/
theorem proper_empty : empty.Proper ok := by
  have hsearch : WorkerParameters.empty.Proper ok :=
    ⟨nofun, nofun, nofun, nofun, nofun, nofun, .nil, nofun, nofun, nofun⟩
  exact ⟨nofun, nofun, nofun, nofun, nofun, nofun, nofun, nofun, hsearch, nofun⟩

theorem readWorkers_eq_ok {j : Json} : readWorkers unit j p = .ok p' ↔
    ∃ items ws, j = .arr items ∧ items.mapM (WorkerParameters.ofJson unit) = .ok ws ∧
      p' = { p with workers := ws } := by
  cases j with
  | arr items =>
    rw [readWorkers, Except.bind_pure_eq_ok_iff]
    simp
  | _ => simp [readWorkers]

theorem isSound_of_field? {read : FieldReader Parameters} {j : Json}
    (hk : field? unit key = some read) (h : read j p = .ok p') : j.isSound := by
  by_cases hkey : key ∈ solve.map name
  · obtain ⟨F, hF, rfl⟩ := List.mem_map.1 hkey
    obtain rfl := Option.some.inj ((solve_row unit F hF).symm.trans hk)
    exact isSound_of_reader h
  · by_cases hworkers : key = "workers"
    · subst hworkers
      obtain rfl := Option.some.inj hk
      obtain ⟨items, ws, rfl, hitems, -⟩ := readWorkers_eq_ok.1 h
      exact WorkerParameters.soundItems_of_mapM hitems
    · rw [solve_field?_eq_none hkey hworkers] at hk
      exact nomatch hk

/-- Parameters that are read are readable throughout. -/
theorem isSound_of_ofJson? {j : Json} (h : ofJson? unit j = some p) : j.isSound := by
  rw [ofJson?] at h
  cases j with
  | obj members =>
    cases hm : FieldReader.members (field? unit) [] .empty members with
    | error e =>
      rw [ofJson, ofMembers, hm] at h
      exact nomatch h
    | ok found => exact sound_of_members (fun _ _ _ _ _ => isSound_of_field?) hm
  | _ => exact nomatch h

end Parameters

end Scheduling
