import Scheduling.Model.Sample
import Scheduling.Proofs.Benchmark.Course

/-!
# Results of benchmarks

A benchmark that is not refused for its usage starts its turns in order, never has more runs under
way than it may, and ends early only when a model cannot be built or a side output fails. Otherwise
each input has one result for each of its seeds, at its position, whichever order the runs end in
(`BenchmarkSetup.run_course`).
-/

namespace Scheduling

variable {ι : Type}

/-! ### Turns -/

/-- The position of the input of a turn with that of the seed. -/
def Turn.pair (t : Turn ι) : Nat × Nat := (t.index, t.seedIndex)

theorem getElem?_turnsFrom {seeds : Nat} (hseeds : 0 < seeds) (inputs : List ι) (n j : Nat) :
    ((inputs.zipIdx n).flatMap fun (input, index) =>
      (List.range seeds).map fun k => (⟨input, index, k⟩ : Turn ι))[j]? =
      inputs[j / seeds]?.map fun input => ⟨input, n + j / seeds, j % seeds⟩ := by
  induction inputs generalizing n j with
  | nil => simp
  | cons input inputs ih =>
    rw [List.zipIdx_cons, List.flatMap_cons]
    by_cases hj : j < seeds
    · rw [List.getElem?_append_left (by simpa using hj), Nat.div_eq_of_lt hj, Nat.mod_eq_of_lt hj]
      simp [hj]
    · obtain ⟨i, rfl⟩ := Nat.exists_eq_add_of_le (Nat.le_of_not_lt hj)
      rw [List.getElem?_append_right (by simp)]
      have hlength : ((List.range seeds).map fun k => (⟨input, n, k⟩ : Turn ι)).length = seeds := by
        simp
      rw [hlength, Nat.add_sub_cancel_left, ih, Nat.add_div_left i hseeds, Nat.add_mod_left,
        List.getElem?_cons_succ]
      simp only [Nat.add_assoc, Nat.add_comm 1]

theorem getElem?_turns {seeds : Nat} (hseeds : 0 < seeds) (inputs : List ι) (j : Nat) :
    (turns inputs seeds)[j]? =
      inputs[j / seeds]?.map fun input => ⟨input, j / seeds, j % seeds⟩ := by
  simpa only [turns, Nat.zero_add] using getElem?_turnsFrom hseeds inputs 0 j

theorem map_pair_turns (inputs : List ι) (seeds : Nat) :
    (turns inputs seeds).map Turn.pair =
      (List.range inputs.length).flatMap fun i => (List.range seeds).map fun k => (i, k) := by
  have hindices : List.range inputs.length = inputs.zipIdx.map Prod.snd := by
    rw [List.zipIdx_map_snd, List.range_eq_range']
  rw [turns, List.map_flatMap, hindices, List.flatMap_map]
  simp [Turn.pair, Function.comp_def]

theorem length_turns (inputs : List ι) (seeds : Nat) :
    (turns inputs seeds).length = inputs.length * seeds := by
  simp [turns, List.length_flatMap, List.map_const']

theorem usageError?_eq_none {b : BenchmarkParameters} {n : Nat} (h : b.usageError? n = none) :
    0 < n ∧ 0 < b.parallelRuns ∧ 0 < b.seeds := by
  unfold BenchmarkParameters.usageError? at h
  split at h
  · exact nomatch h
  · split at h
    · exact nomatch h
    · split at h
      · exact nomatch h
      · omega

theorem map_some_filterMap {α : Type} {l : List (Option α)} (h : ∀ o ∈ l, o.isSome) :
    (l.filterMap id).map some = l := by
  induction l with
  | nil => rfl
  | cons o l ih =>
    obtain ⟨a, rfl⟩ := Option.isSome_iff_exists.1 (h o List.mem_cons_self)
    simpa using ih fun o ho => h o (List.mem_cons_of_mem _ ho)

namespace Batch

variable {cap : Nat} {prepare : Turn ι → Except BenchmarkError Run}
  {execute : Run → Benching RunResult} {value : Run → RunResult} {E : Run → BenchmarkError → Prop}
  {all : List (Turn ι)} {batch : Batch ι} {bench bench' : Bench} {moves before : List (Move ι)}

/-- A batch before its first step. -/
def initial (all : List (Turn ι)) : Batch ι := ⟨all, [], all.map fun _ => none⟩

/-- At no time more runs are under way than may be. -/
theorem Course.starts_le (h : Course cap prepare execute (initial all) bench moves batch bench')
    (hbefore : before <+: moves) : (starts before).length ≤ (finishes before).length + cap := by
  obtain ⟨after, rfl⟩ := hbefore
  obtain ⟨batch', bench'', hfirst, -⟩ := h.split
  have hlength := hfirst.length_running
  have hle := hfirst.length_running_le (Nat.zero_le cap)
  simp only [initial, List.length_nil] at hlength
  omega

/-- A batch that is done has the result of each turn in the slot of its position. -/
theorem Course.exists_results (h : Course cap prepare execute (initial all) bench moves batch bench')
    (hs : Slotted prepare all) (hvalue : ∀ r, (execute r).Gives (· = value r) (E r))
    (hwaiting : batch.waiting = []) (hrunning : batch.running = []) :
    (batch.slots.filterMap id).length = all.length ∧
      ∀ (j : Nat) (t : Turn ι), all[j]? = some t →
        ∃ r, prepare t = .ok r ∧ (batch.slots.filterMap id)[j]? = some (value r) := by
  have hstarted : all = starts moves := by
    have hall : (initial all).waiting = _ := h.waiting
    rwa [hwaiting, List.append_nil] at hall
  have hempty : Accounts prepare value all [] (initial all) :=
    ⟨by simp [initial], by simp [initial], by simp⟩
  have ha : Accounts prepare value all (starts moves) batch := h.accounts hs hvalue rfl hempty
  have hslot (j : Nat) (t : Turn ι) (ht : all[j]? = some t) :
      ∃ r, prepare t = .ok r ∧ batch.slots[j]? = some (some (value r)) := by
    obtain ⟨r, hr, hmem | hvalue⟩ := ha.started t (hstarted ▸ List.mem_of_getElem? ht)
    · rw [hrunning] at hmem
      exact nomatch hmem
    · exact ⟨r, hr, hs j t r ht hr ▸ hvalue⟩
  have hfull : (batch.slots.filterMap id).map some = batch.slots := by
    refine map_some_filterMap fun o ho => ?_
    obtain ⟨j, hj⟩ := List.mem_iff_getElem?.1 ho
    have hlt : j < all.length := ha.size ▸ (List.getElem?_eq_some_iff.1 hj).1
    obtain ⟨r, -, hr⟩ := hslot j all[j] (List.getElem?_eq_getElem hlt)
    rw [hj] at hr
    cases hr
    rfl
  refine ⟨?_, fun j t ht => ?_⟩
  · rw [← ha.size, ← hfull]
    simp
  · obtain ⟨r, hr, hvalue⟩ := hslot j t ht
    rw [← hfull, List.getElem?_map] at hvalue
    obtain ⟨result, hresult, heq⟩ := Option.map_eq_some_iff.1 hvalue
    cases heq
    exact ⟨r, hr, hresult⟩

end Batch

namespace BenchmarkSetup

variable (setup : BenchmarkSetup ι) (b : BenchmarkParameters)

/-! ### Results -/

/-- The result of a turn: that of its run, whether it solved the model or failed. With several seeds
the run has the number of its turn as its seed; with one its parameters are left as they are. -/
def Records (t : Turn ι) (result : RunResult) : Prop :=
  ∃ m, setup.build t.input = .ok m ∧ result.outcome = (b.run t m).outcome setup.launch ∧
    if 1 < b.seeds then
      result.seed = some (t.seedIndex + 1) ∧ result.parameters =
        { b.parameters with
          search := { b.parameters.search with randomSeed := some (t.seedIndex + 1) } }
    else result.seed = none ∧ result.parameters = b.parameters

/-- Why a benchmark ends early, when its batch has got so far. -/
inductive Fails (batch : Batch ι) (bench : Bench) : BenchmarkError → Prop
  /-- The model of the next turn cannot be built. -/
  | construction {t : Turn ι} {rest : List (Turn ι)} {e : ModelError}
    (hwaiting : batch.waiting = t :: rest) (hbuild : setup.build t.input = .error e) :
    Fails batch bench (.model e)
  /-- A side output of a run under way fails. -/
  | run {r : Run} {e : BenchmarkError} (hrunning : r ∈ batch.running)
    (hexecute : ((r.execute setup.launch setup.now).run.run bench).1 = .error e)
    (hfails : r.SideOutputFails e) : Fails batch bench e
  /-- All runs have ended, and a file of all results cannot be written. -/
  | results {path : String} (hwaiting : batch.waiting = []) (hrunning : batch.running = [])
    (hpath : some path ∈ [b.output, b.summary]) (hfails : Benching.CannotWrite path) :
    Fails batch bench (.output path)

variable {setup b}

theorem prepare_eq_ok {t : Turn ι} {r : Run} (h : setup.prepare b t = .ok r) :
    ∃ m, setup.build t.input = .ok m ∧ r = b.run t m := by
  unfold prepare at h
  cases hbuild : setup.build t.input with
  | error e => rw [hbuild] at h; exact nomatch h
  | ok m => rw [hbuild] at h; exact ⟨m, rfl, (Except.ok.inj h).symm⟩

theorem prepare_eq_error {t : Turn ι} {e : BenchmarkError} (h : setup.prepare b t = .error e) :
    ∃ me, setup.build t.input = .error me ∧ e = .model me := by
  unfold prepare at h
  cases hbuild : setup.build t.input with
  | error me => rw [hbuild] at h; exact ⟨me, rfl, (Except.error.inj h).symm⟩
  | ok m => rw [hbuild] at h; exact nomatch h

theorem records_of_prepare {t : Turn ι} {r : Run} (h : setup.prepare b t = .ok r) :
    setup.Records b t ⟨r.modelName, setup.now, r.parameters, r.seed, r.outcome setup.launch⟩ := by
  obtain ⟨m, hbuild, rfl⟩ := prepare_eq_ok h
  refine ⟨m, hbuild, rfl, ?_⟩
  by_cases hseeds : 1 < b.seeds
  · simp [BenchmarkParameters.run, hseeds]
  · simp [BenchmarkParameters.run, hseeds]

theorem slotted_turns (hseeds : 0 < b.seeds) (inputs : List ι) :
    Batch.Slotted (setup.prepare b) (turns inputs b.seeds) := by
  intro j t r ht hr
  obtain ⟨m, -, rfl⟩ := prepare_eq_ok hr
  rw [getElem?_turns hseeds] at ht
  obtain ⟨input, -, rfl⟩ := Option.map_eq_some_iff.1 ht
  exact Nat.div_add_mod' j b.seeds

/-- What a benchmark does with its results. -/
def summarize (b : BenchmarkParameters) (results : List RunResult) : Benching (List RunResult) := do
  match b.output with
  | none => pure ()
  | some path => Benching.writeFile path (Json.arr (results.map RunResult.toJson)).pretty
  match b.summary with
  | none => pure ()
  | some path => Benching.writeFile path (Report.csv results)
  Benching.report (.benchmarkEnd results)
  pure results

theorem gives_summarize (b : BenchmarkParameters) (results : List RunResult) :
    Benching.Gives (summarize b results) (· = results)
      fun e => ∃ path, e = .output path ∧ some path ∈ [b.output, b.summary] ∧
        Benching.CannotWrite path := by
  unfold summarize
  refine Benching.gives_optional (o := b.output) (fun path hpath hfails => ?_) ?_
  · exact ⟨path, rfl, by simp [hpath], hfails⟩
  refine Benching.gives_optional (o := b.summary) (fun path hpath hfails => ?_) ?_
  · exact ⟨path, rfl, by simp [hpath], hfails⟩
  exact .bind (.modify _) fun _ _ => .pure rfl

theorem run_eq {inputs : List ι} (husage : b.usageError? inputs.length = none) :
    setup.run inputs b = (do
      Benching.report (.benchmarkStart inputs.length b)
      let slots ← Batch.go b.parallelRuns (setup.prepare b) (Run.execute setup.launch setup.now)
        (turns inputs b.seeds).length setup.order (.initial (turns inputs b.seeds))
      summarize b (slots.filterMap id)) := by
  unfold run
  rw [husage]
  rfl

theorem fails_of_stuck {batch : Batch ι} {bench : Bench} {e : BenchmarkError}
    (h : Batch.Stuck b.parallelRuns (setup.prepare b) (Run.execute setup.launch setup.now) batch bench
      e) : setup.Fails b batch bench e := by
  cases h with
  | start hroom hwaiting hprepare =>
    obtain ⟨me, hbuild, rfl⟩ := prepare_eq_error hprepare
    exact .construction hwaiting hbuild
  | finish hrunning hexecute =>
    exact .run hrunning hexecute ((Run.gives_execute _ _ _).of_error hexecute)

/-- A benchmark follows a course of its batch, to the end of its runs or up to a failure. -/
theorem exists_course (setup : BenchmarkSetup ι) {inputs : List ι} {b : BenchmarkParameters}
    (husage : b.usageError? inputs.length = none) (bench : Bench) :
    ∃ moves batch bench₀ bench₁,
      Batch.Course b.parallelRuns (setup.prepare b) (Run.execute setup.launch setup.now)
        (.initial (turns inputs b.seeds)) bench₀ moves batch bench₁ ∧
      match ((setup.run inputs b).run.run bench).1 with
      | .ok results =>
        results = batch.slots.filterMap id ∧ batch.waiting = [] ∧ batch.running = []
      | .error e => setup.Fails b batch bench₁ e := by
  obtain ⟨-, hcap, -⟩ := usageError?_eq_none husage
  rw [run_eq husage, Benching.run_bind]
  obtain ⟨bench₀, hreport⟩ : ∃ bench₀, (Benching.report (.benchmarkStart inputs.length b)).run.run
      bench = (.ok (), bench₀) := ⟨_, rfl⟩
  obtain ⟨moves, batch, bench₁, hcourse, hend⟩ := Batch.go_course (setup.prepare b)
    (Run.execute setup.launch setup.now) hcap (turns inputs b.seeds).length setup.order
    (.initial (turns inputs b.seeds)) bench₀
  refine ⟨moves, batch, bench₀, bench₁, hcourse, ?_⟩
  rw [hreport]
  dsimp only
  rw [Benching.run_bind]
  generalize (Batch.go b.parallelRuns _ _ _ _ _).run.run bench₀ = went at hend ⊢
  obtain ⟨ended, bench₂⟩ := went
  cases ended with
  | error e => exact fails_of_stuck hend
  | ok slots =>
    obtain ⟨rfl, hdone⟩ := hend
    obtain ⟨hwaiting, hrunning⟩ := hdone (by simp [Batch.initial])
    dsimp only
    cases hsummarize : ((summarize b (batch.slots.filterMap id)).run.run bench₂).1 with
    | ok results => exact ⟨(gives_summarize b _).of_ok hsummarize, hwaiting, hrunning⟩
    | error e =>
      obtain ⟨path, rfl, hpath, hfails⟩ := (gives_summarize b _).of_error hsummarize
      exact .results hwaiting hrunning hpath hfails

end BenchmarkSetup

end Scheduling
