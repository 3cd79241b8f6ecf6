import Scheduling.Benchmark.Run

/-!
# Outcomes of runs

A run of a benchmark ends with the outcome of its session, whatever the bench holds; it fails the
benchmark only through one of its side outputs (`gives_execute`).
-/

namespace Scheduling

namespace Benching

variable {α β : Type} {x : Benching α} {P P' : α → Prop} {E : BenchmarkError → Prop}

/-- On any bench an activity gives a value of one kind, or an error of another. -/
def Gives (x : Benching α) (P : α → Prop) (E : BenchmarkError → Prop) : Prop :=
  ∀ bench, match (x.run.run bench).1 with
    | .ok a => P a
    | .error e => E e

theorem run_bind (x : Benching α) (f : α → Benching β) (bench : Bench) :
    (x >>= f).run.run bench =
      match x.run.run bench with
      | (.ok a, bench') => (f a).run.run bench'
      | (.error e, bench') => (.error e, bench') := by
  rw [ExceptT.run_bind, StateT.run_bind]
  generalize x.run.run bench = r
  obtain ⟨a | e, bench'⟩ := r <;> rfl

theorem run_lift (x : Except BenchmarkError α) (bench : Bench) :
    (liftM x : Benching α).run.run bench = (x, bench) := by
  cases x <;> rfl

namespace Gives

theorem of_ok {bench : Bench} {a : α} (h : Gives x P E) (hx : (x.run.run bench).1 = .ok a) :
    P a := by
  have hP := h bench
  rwa [hx] at hP

theorem of_error {bench : Bench} {e : BenchmarkError} (h : Gives x P E)
    (hx : (x.run.run bench).1 = .error e) : E e := by
  have hE := h bench
  rwa [hx] at hE

theorem mono {E' : BenchmarkError → Prop} (h : Gives x P E) (hE : ∀ e, E e → E' e) :
    Gives x P E' := by
  intro bench
  have hx := h bench
  cases hrun : (x.run.run bench).1 with
  | ok a =>
    rw [hrun] at hx
    exact hx
  | error e =>
    rw [hrun] at hx
    exact hE e hx

theorem pure {a : α} (h : P a) : Gives (Pure.pure a) P E := fun _ => h

theorem throw {e : BenchmarkError} (h : E e) : Gives (throw e : Benching α) P E := fun _ => h

theorem get : Gives get (fun _ => True) E := fun _ => trivial

theorem modify (f : Bench → Bench) : Gives (modify f) (fun _ => True) E := fun _ => trivial

theorem bind {f : α → Benching β} {Q : β → Prop} (h : Gives x P E) (hf : ∀ a, P a → Gives (f a) Q E) :
    Gives (x >>= f) Q E := by
  intro bench
  have hx := h bench
  rw [run_bind]
  generalize x.run.run bench = r at hx ⊢
  obtain ⟨a | a, bench'⟩ := r
  · exact hx
  · exact hf a hx bench'

end Gives

/-- There is a bench on which a file cannot be written. -/
def CannotWrite (path : String) : Prop :=
  ∃ content bench, ((writeFile path content).run.run bench).1 = .error (.output path)

theorem gives_writeFile (path content : String) :
    Gives (writeFile path content) (fun _ => True) fun e => e = .output path ∧ CannotWrite path := by
  have hgives : Gives (writeFile path content) (fun _ => True) (· = .output path) := by
    unfold writeFile
    refine .bind .get fun bench _ => ?_
    split
    · exact .throw rfl
    · refine .bind (.modify _) fun _ _ => ?_
      split
      · exact .throw rfl
      · exact .modify _
  intro bench
  cases hrun : ((writeFile path content).run.run bench).1 with
  | ok _ => trivial
  | error e =>
    obtain rfl := hgives.of_error hrun
    exact ⟨rfl, content, bench, hrun⟩

/-- A file that is written if it is wanted, and what comes after it. -/
theorem gives_optional {o : Option String} {content : String} {k : Benching α}
    (ho : ∀ path, o = some path → CannotWrite path → E (.output path)) (hk : Gives k P E) :
    Gives
      (match o with
        | none => k
        | some path => writeFile path content >>= fun _ => k) P E := by
  cases o with
  | none => exact hk
  | some path =>
    refine .bind ((gives_writeFile path content).mono fun e he => ?_) fun _ _ => hk
    obtain ⟨rfl, hcannot⟩ := he
    exact ho path rfl hcannot

end Benching

namespace Run

/-- How a run ends: with what its session makes of the job. -/
def outcome (launch : Launcher) (r : Run) : RunOutcome :=
  match (Session.fresh .empty (r.log.map fun _ => .empty none)).carryOut launch r.job with
  | .error e => .failed e.message
  | .ok x =>
    match x.session.outcome? with
    | some (.ok a) => .solved a.result
    | some (.error e) => .failed e.message
    | none => .failed "the session did not end"

/-- Why a run fails its benchmark: a file of the run cannot be written, or its problem has no text. -/
inductive SideOutputFails (r : Run) : BenchmarkError → Prop
  | file {path : String} (hpath : some path ∈ [r.log, r.result, r.exportJson])
    (hfails : Benching.CannotWrite path) : SideOutputFails r (.output path)
  | problem {path : String} {e : ProtocolError} (hpath : r.exportJson = some path)
    (hfails : (⟨r.model, some r.parameters, none⟩ : Problem Parameters).document Parameters.toJson =
      .error e) : SideOutputFails r (.protocol e)

variable {r : Run}

theorem gives_writeProblem (r : Run) :
    Benching.Gives r.writeProblem (fun _ => True) r.SideOutputFails := by
  unfold writeProblem
  split
  · exact .pure trivial
  · rename_i path hpath
    dsimp only
    split
    · rename_i e hdocument
      exact .throw (.problem hpath hdocument)
    · rename_i text hdocument
      refine (Benching.gives_writeFile path text).mono fun e he => ?_
      obtain ⟨rfl, hcannot⟩ := he
      exact .file (by simp [hpath]) hcannot

theorem gives_solve (launch : Launcher) (r : Run) :
    Benching.Gives (r.solve launch) (· = r.outcome launch) r.SideOutputFails := by
  unfold solve
  have hlog (path : String) (hpath : r.log = some path) (hfails : Benching.CannotWrite path) :
      r.SideOutputFails (.output path) := .file (by simp [hpath]) hfails
  refine Benching.gives_optional (o := r.log) hlog ?_
  rw [outcome]
  cases (Session.fresh .empty (r.log.map fun _ => .empty none)).carryOut launch r.job with
  | error e => exact .pure rfl
  | ok x =>
    refine .bind (.modify _) fun _ _ => Benching.gives_optional (o := r.log) hlog ?_
    dsimp only
    cases x.session.outcome? with
    | none => exact .pure rfl
    | some ended =>
      cases ended with
      | ok a => exact .pure rfl
      | error e => exact .bind (.modify _) fun _ _ => .pure rfl

theorem gives_execute (launch : Launcher) (now : String) (r : Run) :
    Benching.Gives (r.execute launch now)
      (· = ⟨r.modelName, now, r.parameters, r.seed, r.outcome launch⟩) r.SideOutputFails := by
  unfold execute
  refine .bind (.modify _) fun _ _ => .bind (gives_writeProblem r) fun _ _ =>
    .bind (gives_solve launch r) fun outcome houtcome => .bind (.modify _) fun _ _ => ?_
  exact Benching.gives_optional (o := r.result)
    (fun path hpath hfails => .file (by simp [hpath]) hfails) (.pure (by rw [houtcome]))

end Run

end Scheduling
