import Scheduling.Proofs.Json.Reading
import Scheduling.Proofs.Session.Steps

/-!
# Events of sessions

What the subscriptions of a session are told over its whole life (`published_lifetime`): one event
for each text, solution and lower bound that the engine reports before the job ends; then the
summary, if a solve ends with it, or the error, if the job fails; then that the session is closed;
and nothing after it. The job ends with the first message that ends its task, error message, line
that cannot be read, message that ends another task, or end of the stream; or it never gets an
engine. Requests of handles may come at any time, in listeners too, and make no difference.
-/

namespace Scheduling

namespace Job

variable (job : Job) (launched : Except SessionError Unit) (inputs : List Session.Input)

/-- How the job ends, if it does. -/
def endOf? : Option (Except SessionError Event) :=
  match job.obstacle? launched with
  | some e => some (.error e)
  | none => inputs.findSome? job.ending?

/-- The inputs that come before the end of the job. -/
def heard : List Session.Input :=
  match job.obstacle? launched with
  | some _ => []
  | none => inputs.takeWhile fun i => (job.ending? i).isNone

end Job

namespace Session

variable {s s' s'' : Session} {job : Job} {more : List Effect} {es es' : List SessionEvent}

/-! ### What a run tells -/

theorem Ends.published {state : SessionState} (h : Ends job s s' state es) :
    s'.published = s.published ++ es := by
  obtain ⟨more, he, rfl, -⟩ := h.effects
  rw [Session.published, he, List.filterMap_append]
  rfl

theorem Rests.published (h : Rests s s') : s'.published = s.published := by
  obtain ⟨turned, he⟩ := h.effects
  rw [Session.published, he, List.filterMap_append, List.filterMap_map]
  simp [Session.published, Function.comp_def, Effect.published?]

/-- The inputs of a session that runs: it tells what comes before the end of the job, and the end. -/
theorem run_cases (hr : s.isRunning = true) (hjob : s.job = some job)
    (hsub : s.registry.subscriptions ≠ []) (inputs : List Input) :
    (s.run inputs).published = s.published ++
      ((inputs.takeWhile fun i => (job.ending? i).isNone).filterMap job.relayed? ++
        ((inputs.findSome? job.ending?).map closing).getD []) ∧
    (s.run inputs).state = ((inputs.findSome? job.ending?).map stateAfter).getD .running := by
  induction inputs generalizing s with
  | nil => exact ⟨(List.append_nil _).symm, by simpa [isRunning, run] using hr⟩
  | cons i inputs ih =>
    have hstep := step_cases hr hjob i
    have hrun : s.run (i :: inputs) = (s.step i).run inputs := rfl
    rw [hrun, List.takeWhile_cons, List.findSome?_cons]
    cases hend : job.ending? i with
    | none =>
      rw [hend] at hstep
      have htells := hstep.tells
      rw [audible_of_subscriptions hsub] at htells
      obtain ⟨hpub, hstate⟩ := ih (htells.isRunning.trans hr) (htells.job.trans hjob)
        (by rwa [htells.registry])
      refine ⟨?_, hstate⟩
      rw [hpub, htells.published]
      cases hrel : job.relayed? i <;> simp [hrel]
    | some en =>
      rw [hend] at hstep
      replace hstep : Ends job s (s.step i) (stateAfter en) _ := hstep
      rw [audible_of_subscriptions hsub] at hstep
      have hrest := rests_run hstep.isRunning inputs
      refine ⟨?_, hrest.state.trans hstep.state⟩
      rw [hrest.published, hstep.published]
      simp

theorem isSome_endOf_of_ended {job : Job} {inputs : List Input} (h : .ended ∈ inputs)
    (launched : Except SessionError Unit) : (job.endOf? launched inputs).isSome := by
  unfold Job.endOf?
  split
  · rfl
  · exact List.findSome?_isSome_iff.2 ⟨.ended, h, rfl⟩

/-- Whatever handles ask for and the engine sends: the subscriptions of a session are told what comes
before the end of its job, one event for one message, then the end, and nothing more. A job whose
engine closes its stream has an end. After it the session turns all requests down, and refuses
another job. -/
theorem published_lifetime (registry : Registry) (sink : Option Sink)
    (before early : List HandleRequest) (job : Job) (launched : Except SessionError Unit)
    (inputs : List Input) (hsub : registry.subscriptions ≠ []) :
    (lifetime registry sink before early job launched inputs).published =
      (job.heard launched inputs).filterMap job.relayed? ++
        ((job.endOf? launched inputs).map closing).getD [] ∧
    (lifetime registry sink before early job launched inputs).state =
      ((job.endOf? launched inputs).map stateAfter).getD .running ∧
    (.ended ∈ inputs → (job.endOf? launched inputs).isSome) ∧
    ∀ en ∈ job.endOf? launched inputs,
      (∀ more, Rests (lifetime registry sink before early job launched inputs)
        ((lifetime registry sink before early job launched inputs).run more)) ∧
      ∀ launch job', (lifetime registry sink before early job launched inputs).carryOut launch job' =
        .error (.notIdle (stateAfter en)) := by
  obtain ⟨s, more, h, hp, hlife⟩ := exists_waiting registry sink before early job
  have htells := h.tells
  rw [hp] at htells
  have hpub : s.published = [] := htells.published
  have hsub' : s.registry.subscriptions ≠ [] := by rwa [h.registry]
  have hmain : ((s.launch job launched).run inputs).published =
        (job.heard launched inputs).filterMap job.relayed? ++
          ((job.endOf? launched inputs).map closing).getD [] ∧
      ((s.launch job launched).run inputs).state =
        ((job.endOf? launched inputs).map stateAfter).getD .running := by
    rw [Job.endOf?, Job.heard]
    cases hob : job.obstacle? launched with
    | some e =>
      rw [launch_of_obstacle hob]
      have hend := ends_fail s job e
      rw [audible_of_subscriptions hsub'] at hend
      have hrest := rests_run (s := s.fail job e) (by rw [isRunning, hend.state]; rfl) inputs
      exact ⟨by rw [hrest.published, hend.published, hpub]; rfl, hrest.state.trans hend.state⟩
    | none =>
      obtain ⟨line, -, -, hlaunch⟩ := launch_of_no_obstacle hob
      have hwrite : Tells s (s.emit (.write line)) [] :=
        ⟨rfl, rfl, rfl, by simp [published, emit, Effect.published?]⟩
      obtain ⟨hrunpub, hrunstate⟩ := run_cases (hwrite.isRunning.trans h.isRunning) h.job hsub' inputs
      rw [hlaunch]
      exact ⟨by rw [hrunpub, hwrite.published, hpub]; rfl, hrunstate⟩
  rw [hlife]
  refine ⟨hmain.1, hmain.2, fun hmem => isSome_endOf_of_ended hmem launched, fun en hen => ?_⟩
  have hstate : ((s.launch job launched).run inputs).state = stateAfter en := by
    rw [hmain.2, Option.mem_def.1 hen]
    rfl
  refine ⟨fun more => rests_run ?_ more, fun launch job' => ?_⟩
  · rw [isRunning, hstate]
    simp
  · rw [carryOut, if_pos, hstate]
    cases en <;> simp [hstate, stateAfter]

/-- A log line is passed on, and the garbled line after it ends the job; nothing that follows counts. -/
theorem published_lifetime_garbled :
    let job : Job := ⟨.solve, Model.empty 0 none, Parameters.empty, none⟩
    let log : Input := .line (EventRecord.log "hello").toJson.compact
    let s := lifetime ⟨1, [], [1]⟩ none [.stop "too soon"] [.stop "enough"] job (.ok ())
      [log, .deliver, .garbled, log, .ended]
    [1] ≠ [] ∧ s.published = [.log "hello", .error .unreadable, .close] ∧ s.state = .errored := by
  intro job log s
  have hread : Event.read job.model (EventRecord.log "hello").toJson.compact = .ok (.log "hello") := by
    have hplain : Json.Plain Json.Faithful (EventRecord.log "hello").toJson :=
      ⟨trivial, trivial, trivial⟩
    rw [Event.read, Json.ofText?_compact hplain]
    rfl
  have hblank : (EventRecord.log "hello").toJson.compact.toList.all isBlank = false := by
    decide +kernel
  have hob : job.obstacle? (.ok ()) = none := by
    unfold Job.obstacle? Job.line Job.command
    rfl
  have hlog : job.relayed? log = some (.log "hello") ∧ job.ending? log = none := by
    simp only [log, Job.relayed?, Job.ending?, hblank, hread]
    exact ⟨rfl, rfl⟩
  obtain ⟨hpub, hstate, -⟩ := published_lifetime ⟨1, [], [1]⟩ none [.stop "too soon"]
    [.stop "enough"] job (.ok ()) [log, .deliver, .garbled, log, .ended] (by decide)
  have hdeliver : job.ending? .deliver = none ∧ job.relayed? .deliver = none := ⟨rfl, rfl⟩
  have hgarbled : job.ending? .garbled = some (.error .unreadable) := rfl
  refine ⟨by decide, hpub.trans ?_, hstate.trans ?_⟩
  · simp [Job.heard, Job.endOf?, hob, hlog, hdeliver, hgarbled, closing]
  · simp [Job.endOf?, hob, hlog, hdeliver, hgarbled, stateAfter]

end Session

end Scheduling
