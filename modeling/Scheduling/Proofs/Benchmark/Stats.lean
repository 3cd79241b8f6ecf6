import Mathlib
import Scheduling.Benchmark.Report

/-!
# Figures of each model

The figures of a model are what its own runs add up to, one after the other, however the runs of
several models are mixed, and the models stand in the order in which their names first appear
(`aggregate_eq`).
-/

namespace Scheduling

namespace ModelStats

variable (s : ModelStats) (r : RunResult)

/-! ### Adding a run -/

@[simp] theorem add_modelName : (s.add r).modelName = s.modelName := by
  unfold add
  dsimp only
  split <;> rfl

@[simp] theorem add_runs : (s.add r).runs = s.runs + 1 := by
  unfold add
  dsimp only
  split <;> rfl

@[simp] theorem add_errors : (s.add r).errors = s.errors + if r.hasFailed then 1 else 0 := by
  unfold add
  dsimp only
  split <;> rfl

/-- The figure that is better in a sense: the greater one when `up`, otherwise the lesser one. -/
def pick (up : Bool) : Float → Float → Float := if up then greater else lesser

theorem pick_not (up : Bool) : pick (!up) = if up then lesser else greater := by
  cases up with
  | true => exact if_neg (by decide)
  | false => exact if_pos rfl

theorem better_none (choose : Float → Float → Float) (best : Option Float) :
    better choose best none = best := by cases best <;> rfl

/-- A run that failed has nothing to compare. -/
theorem solved?_of_hasFailed (h : r.hasFailed) : r.solved? = none := by
  unfold RunResult.hasFailed RunResult.error? at h
  unfold RunResult.solved?
  cases ho : r.outcome with
  | failed message => rfl
  | solved result =>
    rw [ho] at h
    exact nomatch h

theorem add_bestObjective :
    (s.add r).bestObjective = better (pick r.maximizes) s.bestObjective r.objective? := by
  unfold add
  dsimp only
  split
  · rename_i hfailed
    rw [RunResult.objective?, solved?_of_hasFailed r hfailed, Option.bind_none, better_none]
  · rfl

theorem add_bestLowerBound :
    (s.add r).bestLowerBound = better (pick (!r.maximizes)) s.bestLowerBound r.lowerBound? := by
  unfold add
  dsimp only
  split
  · rename_i hfailed
    rw [RunResult.lowerBound?, solved?_of_hasFailed r hfailed, Option.bind_none, better_none]
  · rw [pick_not]

end ModelStats

namespace Report

open ModelStats

variable {results : List RunResult} {r : RunResult} {name : String} {names : List String}

/-! ### Names -/

/-- The names of models, in the order in which they first appear. -/
def modelNames (results : List RunResult) : List String := (results.map (·.modelName)).eraseDups

theorem mem_modelNames : name ∈ modelNames results ↔ ∃ r ∈ results, r.modelName = name := by
  rw [modelNames, List.mem_eraseDups, List.mem_map]

theorem modelNames_concat (results : List RunResult) (r : RunResult) :
    modelNames (results ++ [r]) = if r.modelName ∈ modelNames results then modelNames results
      else modelNames results ++ [r.modelName] := by
  have hmem : r.modelName ∈ modelNames results ↔ r.modelName ∈ results.map (·.modelName) :=
    List.mem_eraseDups
  rw [modelNames, List.map_append, List.eraseDups_append, List.map_singleton, List.removeAll]
  split <;> rename_i hname <;> rw [hmem] at hname <;>
    simp [hname, modelNames, -List.mem_map, List.eraseDups_cons]

theorem nodup_modelNames (results : List RunResult) : (modelNames results).Nodup := by
  induction results using List.reverseRecOn with
  | nil => exact List.nodup_nil
  | append_singleton results r ih =>
    rw [modelNames_concat]
    split
    · exact ih
    · rename_i hnew
      rw [← List.concat_eq_append]
      exact ih.concat hnew

theorem modelNames_perm {results' : List RunResult} (h : results'.Perm results) :
    (modelNames results').Perm (modelNames results) := by
  refine (List.perm_ext_iff_of_nodup (nodup_modelNames _) (nodup_modelNames _)).2 fun name => ?_
  simp only [mem_modelNames, h.mem_iff]

/-! ### The runs of a model -/

/-- The runs of a model, in order. -/
def runsOf (name : String) (results : List RunResult) : List RunResult :=
  results.filter (·.modelName = name)

/-- What the runs of a model add up to. -/
def statsOf (name : String) (results : List RunResult) : ModelStats :=
  (runsOf name results).foldl add (empty name)

theorem statsOf_concat (name : String) (results : List RunResult) (r : RunResult) :
    statsOf name (results ++ [r]) =
      if r.modelName = name then (statsOf name results).add r else statsOf name results := by
  unfold statsOf runsOf
  rw [List.filter_append, List.foldl_append]
  split <;> rename_i hname <;> simp [hname]

theorem modelName_foldl_add (rs : List RunResult) (s : ModelStats) :
    (rs.foldl add s).modelName = s.modelName := by
  induction rs generalizing s with
  | nil => rfl
  | cons r rs ih => rw [List.foldl_cons, ih, add_modelName]

theorem statsOf_modelName (name : String) (results : List RunResult) :
    (statsOf name results).modelName = name :=
  modelName_foldl_add _ _

theorem foldl_add_counts (rs : List RunResult) (s : ModelStats) :
    (rs.foldl add s).runs = s.runs + rs.length ∧
      (rs.foldl add s).errors = s.errors + rs.countP (·.hasFailed) := by
  induction rs generalizing s with
  | nil => exact ⟨rfl, rfl⟩
  | cons r rs ih =>
    obtain ⟨hruns, herrors⟩ := ih (s.add r)
    rw [List.foldl_cons, hruns, herrors, add_runs, add_errors, List.length_cons, List.countP_cons]
    omega

/-- All runs of a model are counted, and those that failed. -/
theorem statsOf_counts (name : String) (results : List RunResult) :
    (statsOf name results).runs = (runsOf name results).length ∧
      (statsOf name results).errors = (runsOf name results).countP (·.hasFailed) := by
  obtain ⟨hruns, herrors⟩ := foldl_add_counts (runsOf name results) (empty name)
  exact ⟨hruns.trans (Nat.zero_add _), herrors.trans (Nat.zero_add _)⟩

theorem statsOf_of_not_mem (h : name ∉ modelNames results) : statsOf name results = empty name := by
  have hnone : runsOf name results = [] :=
    List.filter_eq_nil_iff.2 fun r hr hname =>
      h (mem_modelNames.2 ⟨r, hr, of_decide_eq_true hname⟩)
  rw [statsOf, hnone, List.foldl_nil]

/-! ### All models -/

/-- A run is added to the figures of its model. -/
theorem addTo_map (hnodup : names.Nodup) {stats : String → ModelStats}
    (hstats : ∀ name, (stats name).modelName = name) (r : RunResult) :
    addTo r (names.map stats) =
      if r.modelName ∈ names then
        names.map fun name => if r.modelName = name then (stats name).add r else stats name
      else names.map stats ++ [(empty r.modelName).add r] := by
  induction names with
  | nil => rfl
  | cons name names ih =>
    obtain ⟨hnew, hnodup⟩ := List.nodup_cons.1 hnodup
    rw [List.map_cons, addTo, hstats]
    by_cases hname : name = r.modelName
    · subst hname
      have hothers : names.map (fun name =>
          if r.modelName = name then (stats name).add r else stats name) = names.map stats :=
        List.map_congr_left fun name hmem => if_neg (ne_of_mem_of_not_mem hmem hnew).symm
      simp [hothers]
    · have hname' : r.modelName ≠ name := Ne.symm hname
      rw [ih hnodup]
      by_cases hmem : r.modelName ∈ names <;> simp [hname, hname', hmem]

/-- Each model has the figures that its own runs add up to. -/
theorem aggregate_eq (results : List RunResult) :
    aggregate results = (modelNames results).map (statsOf · results) := by
  induction results using List.reverseRecOn with
  | nil => rfl
  | append_singleton results r ih =>
    have hstep : aggregate (results ++ [r]) = addTo r (aggregate results) := List.foldl_concat ..
    rw [hstep, ih, addTo_map (nodup_modelNames results) (statsOf_modelName · results),
      modelNames_concat]
    split
    · exact List.map_congr_left fun name _ => (statsOf_concat name results r).symm
    · rename_i hnew
      rw [List.map_append, List.map_singleton, statsOf_concat, if_pos rfl,
        statsOf_of_not_mem hnew]
      refine congrArg (· ++ _) (List.map_congr_left fun name hname => ?_)
      rw [statsOf_concat, if_neg (ne_of_mem_of_not_mem hname hnew).symm]

theorem mem_aggregate {s : ModelStats} : s ∈ aggregate results ↔
    s.modelName ∈ modelNames results ∧ s = statsOf s.modelName results := by
  rw [aggregate_eq, List.mem_map]
  constructor
  · rintro ⟨name, hname, rfl⟩
    rw [statsOf_modelName]
    exact ⟨hname, rfl⟩
  · rintro ⟨hname, hs⟩
    exact ⟨s.modelName, hname, hs.symm⟩

theorem map_modelName_aggregate (results : List RunResult) :
    (aggregate results).map (·.modelName) = modelNames results := by
  rw [aggregate_eq, List.map_map]
  exact (List.map_congr_left fun name _ => statsOf_modelName name results).trans (List.map_id _)

end Report

end Scheduling
