import Scheduling.Proofs.Benchmark.Outcome

/-!
# Courses of batches

A batch as a system that takes step after step: while there is room a waiting turn may start, and
any run under way may end (`Batch.Step`). Whichever order the runs end in, a batch that goes on
follows such a course (`Batch.go_course`): it goes through to its end, or up to a model that cannot
be built or a run that fails the benchmark. What one step keeps holds along every course.
-/

namespace Scheduling

namespace Batch

variable {ι : Type}

/-! ### Steps and courses -/

/-- What happens in a batch. -/
inductive Move (ι : Type) where
  | start (t : Turn ι)
  | finish (r : Run)

/-- The turns that are started, in order. -/
def starts : List (Move ι) → List (Turn ι)
  | [] => []
  | .start t :: moves => t :: starts moves
  | .finish _ :: moves => starts moves

/-- The runs that end, in order. -/
def finishes : List (Move ι) → List Run
  | [] => []
  | .start _ :: moves => finishes moves
  | .finish r :: moves => r :: finishes moves

variable (cap : Nat) (prepare : Turn ι → Except BenchmarkError Run)
  (execute : Run → Benching RunResult)

/-- One step of a batch on its bench. -/
inductive Step (b : Batch ι) (bench : Bench) : Move ι → Batch ι → Bench → Prop
  | start {t : Turn ι} {rest : List (Turn ι)} {r : Run} (hroom : b.running.length < cap)
    (hwaiting : b.waiting = t :: rest) (hprepare : prepare t = .ok r) :
    Step b bench (.start t) ⟨rest, b.running ++ [r], b.slots⟩ bench
  | finish {chosen : Nat} {r : Run} {result : RunResult} {bench' : Bench}
    (hrunning : b.running[chosen]? = some r)
    (hexecute : (execute r).run.run bench = (.ok result, bench')) :
    Step b bench (.finish r)
      ⟨b.waiting, b.running.eraseIdx chosen, b.slots.set r.slot (some result)⟩ bench'

/-- Steps one after the other. -/
inductive Course : Batch ι → Bench → List (Move ι) → Batch ι → Bench → Prop
  | nil {b : Batch ι} {bench : Bench} : Course b bench [] b bench
  | cons {b b' b'' : Batch ι} {bench bench' bench'' : Bench} {m : Move ι} {moves : List (Move ι)}
    (hstep : Step cap prepare execute b bench m b' bench') (hcourse : Course b' bench' moves b'' bench'') :
    Course b bench (m :: moves) b'' bench''

/-- Where a batch cannot go on: the next turn has no run, or a run under way ends with an error. -/
inductive Stuck (b : Batch ι) (bench : Bench) (e : BenchmarkError) : Prop
  | start {t : Turn ι} {rest : List (Turn ι)} (hroom : b.running.length < cap)
    (hwaiting : b.waiting = t :: rest) (hprepare : prepare t = .error e)
  | finish {r : Run} (hrunning : r ∈ b.running) (hexecute : ((execute r).run.run bench).1 = .error e)

variable {cap prepare execute} {b b' b'' : Batch ι} {bench bench' bench'' : Bench}
  {moves moves' : List (Move ι)}

theorem Course.trans (h : Course cap prepare execute b bench moves b' bench')
    (h' : Course cap prepare execute b' bench' moves' b'' bench'') :
    Course cap prepare execute b bench (moves ++ moves') b'' bench'' := by
  induction h with
  | nil => exact h'
  | cons hstep _ ih => exact .cons hstep (ih h')

/-- A course leads through a batch after each of its steps. -/
theorem Course.split (h : Course cap prepare execute b bench (moves ++ moves') b'' bench'') :
    ∃ b' bench', Course cap prepare execute b bench moves b' bench' ∧
      Course cap prepare execute b' bench' moves' b'' bench'' := by
  induction moves generalizing b bench with
  | nil => exact ⟨b, bench, .nil, h⟩
  | cons m moves ih =>
    cases h with
    | cons hstep h =>
      obtain ⟨b', bench', hfirst, hsecond⟩ := ih h
      exact ⟨b', bench', .cons hstep hfirst, hsecond⟩

/-! ### What steps keep -/

/-- The turns that wait are those that have not been started. -/
theorem Course.waiting (h : Course cap prepare execute b bench moves b' bench') :
    b.waiting = starts moves ++ b'.waiting := by
  induction h with
  | nil => rfl
  | cons hstep _ ih =>
    cases hstep with
    | start hroom hwaiting hprepare => exact hwaiting.trans (congrArg (_ :: ·) ih)
    | finish hrunning hexecute => exact ih

/-- The runs under way are those that were started and have not ended. -/
theorem Course.length_running (h : Course cap prepare execute b bench moves b' bench') :
    b'.running.length + (finishes moves).length = b.running.length + (starts moves).length := by
  induction h with
  | nil => rfl
  | cons hstep _ ih =>
    cases hstep with
    | start hroom hwaiting hprepare =>
      simp only [finishes, starts, List.length_append, List.length_cons, List.length_nil] at ih ⊢
      omega
    | finish hrunning hexecute =>
      obtain ⟨hlt, -⟩ := List.getElem?_eq_some_iff.1 hrunning
      simp only [finishes, starts, List.length_cons, List.length_eraseIdx_of_lt hlt] at ih ⊢
      omega

theorem Course.length_running_le (h : Course cap prepare execute b bench moves b' bench')
    (hcap : b.running.length ≤ cap) : b'.running.length ≤ cap := by
  induction h with
  | nil => exact hcap
  | cons hstep _ ih =>
    apply ih
    cases hstep with
    | start hroom hwaiting hprepare =>
      rw [List.length_append]
      exact hroom
    | finish hrunning hexecute => exact Nat.le_trans (List.length_eraseIdx_le ..) hcap

/-! ### What slots hold -/

variable {all started : List (Turn ι)} {value : Run → RunResult} {E : Run → BenchmarkError → Prop}

/-- Each turn that was started has a run, which is under way or has left its result in its slot. -/
structure Accounts (prepare : Turn ι → Except BenchmarkError Run) (value : Run → RunResult)
    (all started : List (Turn ι)) (b : Batch ι) : Prop where
  size : b.slots.length = all.length
  running : ∀ r ∈ b.running, ∃ t ∈ all, prepare t = .ok r
  started : ∀ t ∈ started, ∃ r, prepare t = .ok r ∧
    (r ∈ b.running ∨ b.slots[r.slot]? = some (some (value r)))

/-- The slot of each run is the position of its turn. -/
def Slotted (prepare : Turn ι → Except BenchmarkError Run) (all : List (Turn ι)) : Prop :=
  ∀ i t r, all[i]? = some t → prepare t = .ok r → r.slot = i

theorem Slotted.lt {t : Turn ι} {r : Run} (hs : Slotted prepare all) (ht : t ∈ all)
    (hr : prepare t = .ok r) : r.slot < all.length := by
  obtain ⟨i, hi⟩ := List.mem_iff_getElem?.1 ht
  rw [hs i t r hi hr]
  exact (List.getElem?_eq_some_iff.1 hi).1

theorem Slotted.inj {t t' : Turn ι} {r r' : Run} (hs : Slotted prepare all) (ht : t ∈ all)
    (ht' : t' ∈ all) (hr : prepare t = .ok r) (hr' : prepare t' = .ok r')
    (hslot : r.slot = r'.slot) : r = r' := by
  obtain ⟨i, hi⟩ := List.mem_iff_getElem?.1 ht
  obtain ⟨j, hj⟩ := List.mem_iff_getElem?.1 ht'
  rw [hs i t r hi hr, hs j t' r' hj hr'] at hslot
  subst hslot
  rw [hi] at hj
  cases hj
  rw [hr] at hr'
  exact Except.ok.inj hr'

namespace Accounts

theorem start {t : Turn ι} {rest : List (Turn ι)} {r : Run}
    (ha : Accounts prepare value all started b) (ht : t ∈ all) (hprepare : prepare t = .ok r) :
    Accounts prepare value all (started ++ [t]) ⟨rest, b.running ++ [r], b.slots⟩ := by
  refine ⟨ha.size, fun r' hr' => ?_, fun t' ht' => ?_⟩
  · rcases List.mem_append.1 hr' with hold | hnew
    · exact ha.running r' hold
    · rw [List.mem_singleton.1 hnew]
      exact ⟨t, ht, hprepare⟩
  · rcases List.mem_append.1 ht' with hold | hnew
    · obtain ⟨r', hr', hwhere⟩ := ha.started t' hold
      exact ⟨r', hr', hwhere.imp_left (List.mem_append_left _)⟩
    · rw [List.mem_singleton.1 hnew]
      exact ⟨r, hprepare, .inl (List.mem_append_right _ (List.mem_singleton_self r))⟩

theorem finish {chosen : Nat} {r : Run} (ha : Accounts prepare value all started b)
    (hs : Slotted prepare all) (hstarted : ∀ t ∈ started, t ∈ all)
    (hrunning : b.running[chosen]? = some r) :
    Accounts prepare value all started
      ⟨b.waiting, b.running.eraseIdx chosen, b.slots.set r.slot (some (value r))⟩ := by
  obtain ⟨t, ht, hr⟩ := ha.running r (List.mem_of_getElem? hrunning)
  have hlt : r.slot < b.slots.length := ha.size ▸ hs.lt ht hr
  refine ⟨?_, fun r' hr' => ha.running r' (List.mem_of_mem_eraseIdx hr'), fun t' ht' => ?_⟩
  · rw [List.length_set]
    exact ha.size
  · obtain ⟨r', hr', hwhere⟩ := ha.started t' ht'
    refine ⟨r', hr', ?_⟩
    by_cases hslot : r.slot = r'.slot
    · -- no other run has this slot
      obtain rfl := hs.inj ht (hstarted t' ht') hr hr' hslot
      exact .inr (List.getElem?_set_self hlt)
    · rw [List.getElem?_set_ne hslot]
      refine hwhere.imp_left fun hmem => ?_
      obtain ⟨i, hi⟩ := List.mem_iff_getElem?.1 hmem
      have hne : i ≠ chosen := by
        rintro rfl
        rw [hrunning] at hi
        cases hi
        exact hslot rfl
      exact List.mem_eraseIdx_iff_getElem?.2 ⟨i, hne, hi⟩

end Accounts

theorem Course.accounts (h : Course cap prepare execute b bench moves b' bench')
    (hs : Slotted prepare all) (hvalue : ∀ r, (execute r).Gives (· = value r) (E r))
    (hall : all = started ++ b.waiting) (ha : Accounts prepare value all started b) :
    Accounts prepare value all (started ++ starts moves) b' := by
  -- a start moves the first turn that waits to the end of the started ones, an end moves none
  induction h generalizing started with
  | nil => rwa [starts, List.append_nil]
  | cons hstep _ ih =>
    cases hstep with
    | @start t rest r hroom hwaiting hprepare =>
      rw [hwaiting] at hall
      have hnext := @ih (started ++ [t]) (by simp [hall]) (ha.start (by simp [hall]) hprepare)
      rwa [List.append_assoc] at hnext
    | @finish chosen r result bench' hrunning hexecute =>
      obtain rfl := (hvalue r).of_ok (congrArg Prod.fst hexecute)
      exact ih hall (ha.finish hs (fun t ht => by simp [hall, ht]) hrunning)

/-! ### Batches that go on -/

variable (cap prepare execute) in
theorem fill_course (waiting : List (Turn ι)) (running : List Run)
    (slots : List (Option RunResult)) (bench : Bench) :
    match fill cap prepare waiting running with
    | .ok (waiting', running') =>
      (∃ moves, Course cap prepare execute ⟨waiting, running, slots⟩ bench moves
        ⟨waiting', running', slots⟩ bench) ∧
      (waiting' = [] ∨ cap ≤ running'.length) ∧
      waiting'.length + running'.length = waiting.length + running.length
    | .error e => ∃ moves b', Course cap prepare execute ⟨waiting, running, slots⟩ bench moves b' bench ∧
        Stuck cap prepare execute b' bench e := by
  induction waiting generalizing running with
  | nil => exact ⟨⟨[], .nil⟩, .inl rfl, rfl⟩
  | cons t rest ih =>
    rw [fill]
    by_cases hroom : running.length < cap
    · rw [if_pos hroom]
      cases hprepare : prepare t with
      | error e => exact ⟨[], _, .nil, .start hroom rfl hprepare⟩
      | ok r =>
        have hstep : Step cap prepare execute ⟨t :: rest, running, slots⟩ bench (.start t)
            ⟨rest, running ++ [r], slots⟩ bench := .start hroom rfl hprepare
        have hrest := ih (running ++ [r])
        dsimp only
        revert hrest
        cases fill cap prepare rest (running ++ [r]) with
        | error e =>
          rintro ⟨moves, b', hcourse, hstuck⟩
          exact ⟨.start t :: moves, b', .cons hstep hcourse, hstuck⟩
        | ok filled =>
          obtain ⟨waiting', running'⟩ := filled
          rintro ⟨⟨moves, hcourse⟩, hfull, hlength⟩
          refine ⟨⟨.start t :: moves, .cons hstep hcourse⟩, hfull, hlength.trans ?_⟩
          simp only [List.length_append, List.length_cons, List.length_nil]
          omega
    · rw [if_neg hroom]
      exact ⟨⟨[], .nil⟩, .inr (Nat.le_of_not_lt hroom), rfl⟩

variable (prepare execute) in
/-- A batch that goes on follows a course: to where it is done, if it may go on for long enough, or
to where it cannot go on. -/
theorem go_course (hcap : 0 < cap) (rounds : Nat) (order : List Nat) (b : Batch ι)
    (bench : Bench) :
    ∃ moves b' bench', Course cap prepare execute b bench moves b' bench' ∧
      match ((go cap prepare execute rounds order b).run.run bench).1 with
      | .ok slots => slots = b'.slots ∧
          (b.waiting.length + b.running.length ≤ rounds → b'.waiting = [] ∧ b'.running = [])
      | .error e => Stuck cap prepare execute b' bench' e := by
  -- each round starts what it can and ends one run, so one turn less is left after it
  induction rounds generalizing order b bench with
  | zero =>
    refine ⟨[], b, bench, .nil, rfl, fun hle => ?_⟩
    exact ⟨List.eq_nil_of_length_eq_zero (by omega), List.eq_nil_of_length_eq_zero (by omega)⟩
  | succ rounds ih =>
    have hfill := fill_course cap prepare execute b.waiting b.running b.slots bench
    rw [go, Benching.run_bind, Benching.run_lift]
    generalize fill cap prepare b.waiting b.running = filled at hfill ⊢
    cases filled with
    | error e =>
      obtain ⟨moves, b', hcourse, hstuck⟩ := hfill
      exact ⟨moves, b', bench, hcourse, hstuck⟩
    | ok filled =>
      obtain ⟨waiting, running⟩ := filled
      obtain ⟨⟨moves, hcourse⟩, hfull, hlength⟩ := hfill
      dsimp only
      cases hchosen : running[order.headD 0 % running.length]? with
      | none =>
        -- the choice is made among the runs under way, so there are none; then none waits either
        have hempty : running = [] := by
          have hge := List.getElem?_eq_none_iff.1 hchosen
          cases running with
          | nil => rfl
          | cons r rest =>
            have hlt := Nat.mod_lt (order.headD 0) (List.length_pos_iff.2 (List.cons_ne_nil r rest))
            exact absurd hge (Nat.not_le_of_lt hlt)
        refine ⟨moves, _, bench, hcourse, rfl, fun _ => ⟨?_, hempty⟩⟩
        rcases hfull with hnil | hle
        · exact hnil
        · rw [hempty, List.length_nil] at hle
          omega
      | some r =>
        obtain ⟨hlt, -⟩ := List.getElem?_eq_some_iff.1 hchosen
        dsimp only
        rw [Benching.run_bind]
        cases hexecute : (execute r).run.run bench with
        | mk ended bench₁ =>
          cases ended with
          | error e =>
            exact ⟨moves, _, bench, hcourse, .finish (List.mem_of_getElem? hchosen) (by rw [hexecute])⟩
          | ok result =>
            obtain ⟨moves', b', bench', hrest, hend⟩ := ih order.tail
              ⟨waiting, running.eraseIdx (order.headD 0 % running.length),
                b.slots.set r.slot (some result)⟩ bench₁
            refine ⟨moves ++ .finish r :: moves', b', bench',
              hcourse.trans (.cons (.finish hchosen hexecute) hrest), ?_⟩
            dsimp only
            revert hend
            cases ((go cap prepare execute rounds order.tail ⟨waiting, running.eraseIdx
              (order.headD 0 % running.length), b.slots.set r.slot (some result)⟩).run.run bench₁).1 with
            | error e => exact id
            | ok slots =>
              rintro ⟨hslots, hdone⟩
              refine ⟨hslots, fun hle => hdone ?_⟩
              have hleft := List.length_eraseIdx_of_lt hlt
              dsimp only
              omega

end Batch

end Scheduling
