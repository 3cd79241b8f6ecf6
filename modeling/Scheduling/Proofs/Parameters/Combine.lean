import Scheduling.Proofs.Parameters.FlagValues
import Scheduling.Proofs.SortedMap

/-!
# Combined parameters

Parameters are combined from the left to the right: the order of the steps does not matter, and
parameters of which none is set change nothing. What a worker then runs with is told by four records,
field by field and tunable by tunable: the defaults of both, and on top of these the worker's own
records in both. The last of them that sets a value decides (`Parameters.combine_overlays`).
-/

namespace Scheduling

/-- The last value that is set, if there is one. -/
def lastSet? {α : Type} (values : List (Option α)) : Option α := (values.filterMap id).getLast?

section LastSet

variable {α : Type} {values values' : List (Option α)}

theorem lastSet?_append : lastSet? (values ++ values') = (lastSet? values').or (lastSet? values) := by
  rw [lastSet?, List.filterMap_append, List.getLast?_append]
  rfl

@[simp] theorem lastSet?_singleton (v : Option α) : lastSet? [v] = v := by cases v <;> rfl

/-- Of two values the second one decides, unless it is not set. -/
theorem lastSet?_pair (v v' : Option α) : lastSet? [v, v'] = v'.or v := by
  rw [← List.singleton_append, lastSet?_append, lastSet?_singleton, lastSet?_singleton]

theorem lastSet?_pairs (v v' w w' : Option α) :
    lastSet? [v, v', w, w'] = (w'.or w).or (v'.or v) := by
  rw [← lastSet?_pair v v', ← lastSet?_pair w w', ← lastSet?_append]
  rfl

end LastSet

/-! ### Records of workers -/

namespace WorkerParameters

variable {w w' w'' : WorkerParameters}

theorem combine_empty (w : WorkerParameters) : w.combine .empty = w := rfl

theorem empty_combine (h : w.internal.Ascending) : empty.combine w = w := by
  simp [combine, empty, SortedMap.empty_overlay h]

theorem combine_assoc (h : w.internal.Ascending) (h' : w'.internal.Ascending)
    (h'' : w''.internal.Ascending) :
    (w.combine w').combine w'' = w.combine (w'.combine w'') := by
  simp [combine, Option.or_assoc, SortedMap.overlay_assoc h h' h'']

theorem ascending_combine (h : w.internal.Ascending) (w' : WorkerParameters) :
    (w.combine w').internal.Ascending := h.overlay w'.internal

theorem get?_combine (h : w'.internal.Ascending) (key : String) :
    (w.combine w').internal.get? key = (w'.internal.get? key).or (w.internal.get? key) :=
  SortedMap.get?_overlay h key

end WorkerParameters

/-! ### Lists of records -/

namespace Parameters

open WorkerParameters

variable {ws others : List WorkerParameters}

/-- The keys of the tunables ascend in all records, as they do in every map that is built by
insertion. -/
structure Ascending (p : Parameters) : Prop where
  search : p.search.internal.Ascending
  workers : ∀ w ∈ p.workers, w.internal.Ascending

theorem combineWorkers_nil_left (ws : List WorkerParameters) : combineWorkers [] ws = ws := by
  cases ws <;> rfl

theorem combineWorkers_assoc {ws' ws'' : List WorkerParameters}
    (h : ∀ w ∈ ws, w.internal.Ascending) (h' : ∀ w ∈ ws', w.internal.Ascending)
    (h'' : ∀ w ∈ ws'', w.internal.Ascending) :
    combineWorkers (combineWorkers ws ws') ws'' = combineWorkers ws (combineWorkers ws' ws'') := by
  -- Where one list has ended, no record of it is left to be overlaid.
  induction ws generalizing ws' ws'' with
  | nil => rw [combineWorkers_nil_left, combineWorkers_nil_left]
  | cons w ws ih =>
    cases ws' with
    | nil => rw [combineWorkers_nil_left, combineWorkers]
    | cons w' ws' =>
      cases ws'' with
      | nil => rw [combineWorkers, combineWorkers]
      | cons w'' ws'' =>
        obtain ⟨hw, h⟩ := List.forall_mem_cons.1 h
        obtain ⟨hw', h'⟩ := List.forall_mem_cons.1 h'
        obtain ⟨hw'', h''⟩ := List.forall_mem_cons.1 h''
        simp only [combineWorkers, ih h h' h'', combine_assoc hw hw' hw'']

theorem ascending_combineWorkers (h : ∀ w ∈ ws, w.internal.Ascending)
    (h' : ∀ w ∈ others, w.internal.Ascending) :
    ∀ w ∈ combineWorkers ws others, w.internal.Ascending := by
  induction ws generalizing others with
  | nil => rwa [combineWorkers_nil_left]
  | cons w ws ih =>
    cases others with
    | nil => exact h
    | cons w' others =>
      obtain ⟨hw, hws⟩ := List.forall_mem_cons.1 h
      exact List.forall_mem_cons.2
        ⟨ascending_combine hw w', ih hws (List.forall_mem_cons.1 h').2⟩

theorem getD_combineWorkers (h : ∀ w ∈ others, w.internal.Ascending) (i : Nat) :
    (combineWorkers ws others)[i]?.getD .empty =
      (ws[i]?.getD .empty).combine (others[i]?.getD .empty) := by
  induction ws generalizing others i with
  | nil =>
    rw [combineWorkers_nil_left, List.getElem?_nil, Option.getD_none]
    cases hw : others[i]? with
    | none => rfl
    | some w => exact (empty_combine (h w (List.mem_of_getElem? hw))).symm
  | cons w ws ih =>
    cases others with
    | nil => rfl
    | cons w' others =>
      cases i with
      | zero => rfl
      | succ i => exact ih (List.forall_mem_cons.1 h).2 i

variable {a b c p : Parameters}

theorem Ascending.own (h : p.Ascending) (i : Nat) : (p.own i).internal.Ascending := by
  rw [Parameters.own]
  cases hw : p.workers[i]? with
  | none => exact SortedMap.ascending_empty
  | some w => exact h.workers w (List.mem_of_getElem? hw)

theorem Ascending.combine (ha : a.Ascending) (hb : b.Ascending) : (a.combine b).Ascending :=
  ⟨ascending_combine ha.search b.search, ascending_combineWorkers ha.workers hb.workers⟩

theorem own_combine (h : b.Ascending) (i : Nat) : (a.combine b).own i = (a.own i).combine (b.own i) :=
  getD_combineWorkers h.workers i

theorem worker_eq (p : Parameters) (i : Nat) : p.worker i = p.search.combine (p.own i) := by
  rw [worker, own]
  cases p.workers[i]? <;> rfl

/-- What a worker runs with when parameters are combined. -/
theorem worker_combine (h : b.Ascending) (i : Nat) :
    (a.combine b).worker i = (a.search.combine b.search).combine ((a.own i).combine (b.own i)) := by
  rw [worker_eq, own_combine h]
  rfl

theorem combine_assoc (ha : a.Ascending) (hb : b.Ascending) (hc : c.Ascending) :
    (a.combine b).combine c = a.combine (b.combine c) := by
  simp [combine, Option.or_assoc, WorkerParameters.combine_assoc ha.search hb.search hc.search,
    combineWorkers_assoc ha.workers hb.workers hc.workers]

theorem empty_combine (ha : a.Ascending) : Parameters.empty.combine a = a := by
  simp [combine, empty, WorkerParameters.empty_combine ha.search, combineWorkers_nil_left]

theorem combine_empty (a : Parameters) : a.combine .empty = a := by
  simp [combine, empty, WorkerParameters.combine_empty, combineWorkers]

/-! ### What decides -/

/-- Combining is associative, and parameters of which none is set change nothing on either side. Every
field and every tunable of a worker, whether it has a record of its own or not, is the one set last
among the first parameters' defaults, the second ones' defaults, and then the worker's own record in
the first and in the second ones. -/
theorem combine_overlays (ha : a.Ascending) (hb : b.Ascending) (hc : c.Ascending) :
    (a.combine b).Ascending ∧ (a.combine b).combine c = a.combine (b.combine c) ∧
    Parameters.empty.combine a = a ∧ a.combine .empty = a ∧
    ∀ i, (∀ F ∈ FlagField.worker, F.get ((a.combine b).worker i) =
        lastSet? [F.get a.search, F.get b.search, F.get (a.own i), F.get (b.own i)]) ∧
      ∀ key, ((a.combine b).worker i).internal.get? key =
        lastSet? [a.search.internal.get? key, b.search.internal.get? key,
          (a.own i).internal.get? key, (b.own i).internal.get? key] := by
  refine ⟨ha.combine hb, combine_assoc ha hb hc, empty_combine ha, combine_empty a,
    fun i => ⟨?_, ?_⟩⟩
  · intro F hF
    have hget := FlagField.get_combine F hF
    rw [worker_combine hb, hget, hget, hget, lastSet?_pairs]
    simp
  · intro key
    have hown : ((a.own i).combine (b.own i)).internal.Ascending :=
      ascending_combine (ha.own i) (b.own i)
    rw [worker_combine hb, get?_combine hown, get?_combine (hb.own i), get?_combine hb.search,
      lastSet?_pairs]

/-- Parameters with a default for all workers and a record for the first one. -/
def oneWorker : Parameters :=
  { empty with
    timeLimit := some 10
    search := { WorkerParameters.empty with
      searchType := some .largeNeighborhood
      internal := SortedMap.empty.insert "_tabu" (.int 3) }
    workers := [{ WorkerParameters.empty with
      searchType := some .failureDirected, randomSeed := some 1 }] }

/-- Parameters with records for three workers, of which the second one sets nothing. -/
def threeWorkers : Parameters :=
  { empty with
    timeLimit := some 20
    search := { WorkerParameters.empty with randomSeed := some 4 }
    workers := [{ WorkerParameters.empty with randomSeed := some 9 }, .empty,
      { WorkerParameters.empty with
        failLimit := some 50
        internal := (SortedMap.empty.insert "_tabu" (.int 5)).insert "_log" .null }] }

theorem combine_overlays_threeWorkers :
    oneWorker.Ascending ∧ threeWorkers.Ascending ∧
      (oneWorker.combine threeWorkers).combine oneWorker =
        oneWorker.combine (threeWorkers.combine oneWorker) ∧
      ((oneWorker.combine threeWorkers).worker 0).searchType = some .failureDirected ∧
      ((oneWorker.combine threeWorkers).worker 0).randomSeed = some 9 ∧
      ((oneWorker.combine threeWorkers).worker 2).internal.get? "_tabu" = some (.int 5) ∧
      ((oneWorker.combine threeWorkers).worker 7).randomSeed = some 4 ∧
      ((oneWorker.combine threeWorkers).worker 7).internal.get? "_tabu" = some (.int 3) ∧
      ((oneWorker.combine threeWorkers).worker 7).failLimit = none := by
  have hempty : (SortedMap.empty : SortedMap String Json).Ascending := SortedMap.ascending_empty
  have hone : oneWorker.Ascending := by
    refine ⟨hempty.insert "_tabu" (.int 3), ?_⟩
    intro w hw
    obtain rfl := List.mem_singleton.1 hw
    exact hempty
  have hthree : threeWorkers.Ascending := by
    refine ⟨hempty, List.forall_mem_cons.2 ⟨hempty, List.forall_mem_cons.2 ⟨hempty, ?_⟩⟩⟩
    intro w hw
    obtain rfl := List.mem_singleton.1 hw
    exact (hempty.insert "_tabu" (.int 5)).insert "_log" .null
  obtain ⟨-, hassoc, -, -, hworker⟩ := combine_overlays hone hthree hone
  have htype : FlagField.worker[0] ∈ FlagField.worker := List.getElem_mem _
  have hseed : FlagField.worker[1] ∈ FlagField.worker := List.getElem_mem _
  have hfail : FlagField.worker[2] ∈ FlagField.worker := List.getElem_mem _
  exact ⟨hone, hthree, hassoc, (hworker 0).1 _ htype, (hworker 0).1 _ hseed,
    ((hworker 2).2 "_tabu").trans rfl, (hworker 7).1 _ hseed,
    ((hworker 7).2 "_tabu").trans rfl, (hworker 7).1 _ hfail⟩

end Parameters

end Scheduling
