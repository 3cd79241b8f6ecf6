import Scheduling.Proofs.Session.Steps

/-!
# Lines to the engine

What an engine gets from its session (`written_lifetime`): the command, and then the requests that
were queued, in the order in which they were, up to some point; a stop that the session issues
itself stands at most once between them, after its sink failed. Requests that were turned down or
refused are never written.

While the job runs, what was queued is what the engine has got and what still waits (`Sends`); each
step keeps this, and the end of a job writes nothing.
-/

namespace Scheduling

namespace Session

variable {s s' : Session} {job : Job} {more : List Effect} {es : List SessionEvent}
  {command line : String} {sent : List String}

/-! ### Lines in effects -/

/-- The engine got the command and the lines that were sent, and between them a stop that the
session issued itself, after its sink failed. -/
def StoppedItself (command : String) (sent : List String) (effects : List Effect) : Prop :=
  ∃ es es' before after, effects = es ++ es' ∧ .notice sinkComplaint ∈ es ∧
    sent = before ++ after ∧ es.filterMap Effect.written? = command :: before ∧
    es'.filterMap Effect.written? = ownStop :: after

namespace StoppedItself

variable {effects : List Effect}

theorem append (h : StoppedItself command sent effects)
    (hw : more.filterMap Effect.written? = []) : StoppedItself command sent (effects ++ more) := by
  obtain ⟨es, es', before, after, rfl, hmem, hsent, hes, hes'⟩ := h
  refine ⟨es, es' ++ more, before, after, List.append_assoc .., hmem, hsent, hes, ?_⟩
  rw [List.filterMap_append, hes', hw, List.append_nil]

theorem write (h : StoppedItself command sent effects) (line : String) :
    StoppedItself command (sent ++ [line]) (effects ++ [.write line]) := by
  obtain ⟨es, es', before, after, rfl, hmem, rfl, hes, hes'⟩ := h
  refine ⟨es, es' ++ [.write line], before, after ++ [line], List.append_assoc .., hmem,
    List.append_assoc .., hes, ?_⟩
  rw [List.filterMap_append, hes']
  rfl

end StoppedItself

/-! ### Steps -/

/-- The engine takes lines. Of what was queued it has got these lines, and the rest waits. Once the
session has stopped the engine its sink has failed, so it will not do so again. -/
structure Sends (job : Job) (command : String) (s : Session) (sent : List String) : Prop where
  assigned : s.job = some job
  connected : s.connected = true
  queued : s.queued.map (HandleRequest.line? job) = (sent ++ s.queue.map Outbound.lineOf).map some
  wrote : s.written = command :: sent ∨
    s.sinkFailed = true ∧ StoppedItself command sent s.effects

theorem Adds.written_eq (h : Adds s s' more) : s'.written = s.written := by
  rw [Session.written, h.effects, List.filterMap_append, h.written, List.append_nil]
  rfl

theorem Adds.queued_eq (h : Adds s s' more) :
    s'.queued = s.queued ++ more.filterMap Effect.queued? := by
  rw [Session.queued, h.effects, List.filterMap_append]
  rfl

theorem written_emit_write (s : Session) (line : String) :
    (s.emit (.write line)).written = s.written ++ [line] := by
  rw [written, emit, List.filterMap_append]
  rfl

theorem queued_emit_write (s : Session) (line : String) :
    (s.emit (.write line)).queued = s.queued := by
  rw [queued, emit, List.filterMap_append]
  exact List.append_nil _

namespace Sends

theorem adds (hs : Sends job command s sent) (h : Adds s s' more) : Sends job command s' sent := by
  obtain ⟨os, hos, hlines, -⟩ := h.queue
  refine ⟨h.job.trans hs.assigned, h.connected.trans hs.connected, ?_, ?_⟩
  · rw [h.queued_eq, List.map_append, hs.queued, hlines job hs.assigned, hos]
    simp
  · obtain hwrote | ⟨hfailed, hstopped⟩ := hs.wrote
    · exact .inl (h.written_eq.trans hwrote)
    · refine .inr ⟨?_, h.effects ▸ hstopped.append h.written⟩
      rwa [sinkFailed, h.sink]

theorem sink {k : Option Sink} (hs : Sends job command s sent)
    (hk : s.sinkFailed = true → k.any (·.failed) = true) :
    Sends job command { s with sink := k } sent :=
  ⟨hs.assigned, hs.connected, hs.queued, hs.wrote.imp id fun h => ⟨hk h.1, h.2⟩⟩

/-- The session stops the engine when its sink fails. -/
theorem stops (hs : Sends job command s sent) (hwrote : s.written = command :: sent)
    (hfailed : s.sinkFailed = true) (hmem : .notice sinkComplaint ∈ s.effects) :
    Sends job command (s.emit (.write ownStop)) sent := by
  refine ⟨hs.assigned, hs.connected, ?_, .inr ⟨hfailed, ?_⟩⟩
  · rw [queued_emit_write]
    exact hs.queued
  · exact ⟨s.effects, [.write ownStop], sent, [], rfl, hmem, (List.append_nil _).symm, hwrote, rfl⟩

/-- The first line of the queue goes out. -/
theorem delivers {o : Outbound} {rest : List Outbound} (hs : Sends job command s sent)
    (hqueue : s.queue = o :: rest) (h : Adds { s with queue := rest } s' more)
    (hqueued : more.filterMap Effect.queued? = []) :
    Sends job command (s'.emit (.write o.lineOf)) (sent ++ [o.lineOf]) := by
  obtain ⟨os, hos, hlines, -⟩ := h.queue
  obtain rfl : os = [] := by simpa [hqueued] using (hlines job hs.assigned).symm
  refine ⟨h.job.trans hs.assigned, h.connected.trans hs.connected, ?_, ?_⟩
  · have hold := hs.queued
    rw [hqueue] at hold
    rw [queued_emit_write, h.queued_eq, hqueued, List.append_nil]
    refine hold.trans ?_
    rw [show (s'.emit (.write o.lineOf)).queue = rest from hos.trans (List.append_nil _)]
    simp
  · obtain hwrote | ⟨hfailed, hstopped⟩ := hs.wrote
    · left
      rw [written_emit_write, h.written_eq]
      exact congrArg (· ++ [o.lineOf]) hwrote
    · refine .inr ⟨?_, ?_⟩
      · exact (congrArg (·.any (·.failed)) h.sink).trans hfailed
      · have heffects : (s'.emit (.write o.lineOf)).effects =
            s.effects ++ more ++ [.write o.lineOf] := congrArg (· ++ _) h.effects
        rw [heffects]
        exact (hstopped.append h.written).write _

theorem goes {i : Input} (hs : Sends job command s sent) (hi : i ≠ .deaf) (h : Goes s i s' es) :
    ∃ sent', Sends job command s' sent' := by
  cases h with
  | adds h hk => exact ⟨sent, (hs.sink fun hfailed => hk.trans hfailed).adds h⟩
  | stops h hfine hk hmem =>
    -- the sink was still fine, so the session has not stopped the engine before
    have hwrote : s.written = command :: sent := by
      obtain hwrote | ⟨hfailed, -⟩ := hs.wrote
      · exact hwrote
      · rw [hfine] at hfailed
        exact nomatch hfailed
    have hadds := (hs.sink fun _ => hk).adds h
    rw [writeLine_of_connected hadds.connected]
    refine ⟨sent, hadds.stops (h.written_eq.trans hwrote) ?_ ?_⟩
    · rwa [sinkFailed, h.sink]
    · rw [h.effects]
      exact List.mem_append_right _ hmem
  | delivers hqueue h hqueued =>
    rw [writeLine_of_connected (h.connected.trans hs.connected)]
    exact ⟨_, hs.delivers hqueue h hqueued⟩
  | deaf => exact (hi rfl).elim

end Sends

/-! ### Runs -/

/-- Of what was queued the engine has got a first part, in order, after the command. -/
def Received (job : Job) (command : String) (s : Session) : Prop :=
  ∃ sent unsent, s.queued.map (HandleRequest.line? job) = (sent ++ unsent).map some ∧
    (s.written = command :: sent ∨ StoppedItself command sent s.effects)

theorem Sends.received (hs : Sends job command s sent) : Received job command s :=
  ⟨sent, s.queue.map Outbound.lineOf, hs.queued, hs.wrote.imp id And.right⟩

theorem Received.append {unsent : List String} (h : Received job command s)
    (he : s'.effects = s.effects ++ more) (hw : more.filterMap Effect.written? = [])
    (hq : (more.filterMap Effect.queued?).map (HandleRequest.line? job) = unsent.map some) :
    Received job command s' := by
  obtain ⟨sent, unsent', hqueued, hwrote⟩ := h
  refine ⟨sent, unsent' ++ unsent, ?_, ?_⟩
  · rw [queued, he, List.filterMap_append, List.map_append, hq, ← List.append_assoc,
      List.map_append, ← hqueued]
    rfl
  · obtain hwrote | hstopped := hwrote
    · left
      rw [written, he, List.filterMap_append, hw, List.append_nil]
      exact hwrote
    · exact .inr (he ▸ hstopped.append hw)

theorem Received.ends {state : SessionState} (h : Received job command s)
    (hends : Ends job s s' state es) : Received job command s' := by
  obtain ⟨more, he, -, hw, unsent, hq⟩ := hends.effects
  exact h.append he hw hq

theorem Rests.written (h : Rests s s') : s'.written = s.written := by
  obtain ⟨turned, he⟩ := h.effects
  rw [Session.written, he, List.filterMap_append, List.filterMap_map]
  simp [Session.written, Function.comp_def, Effect.written?]

theorem Received.rests (h : Received job command s) (hrests : Rests s s') :
    Received job command s' := by
  obtain ⟨turned, he⟩ := hrests.effects
  have hw : (turned.map (Effect.answer · .notRunning)).filterMap Effect.written? = [] := by
    simp [List.filterMap_map, Function.comp_def, Effect.written?]
  have hq : (turned.map (Effect.answer · .notRunning)).filterMap Effect.queued? = [] := by
    simp [List.filterMap_map, Function.comp_def, Effect.queued?]
  have hlines : ([] : List HandleRequest).map (HandleRequest.line? job) = [].map some := rfl
  exact h.append he hw (hq ▸ hlines)

theorem Sends.run (hs : Sends job command s sent) (hr : s.isRunning = true) {inputs : List Input}
    (hdeaf : .deaf ∉ inputs) : Received job command (s.run inputs) := by
  -- up to the input that ends the job `Sends` is kept; from then on the session rests
  induction inputs generalizing s sent with
  | nil => exact hs.received
  | cons i inputs ih =>
    obtain ⟨hi, hinputs⟩ := List.ne_and_not_mem_of_not_mem_cons hdeaf
    have hstep := step_cases hr hs.assigned i
    cases hend : job.ending? i with
    | none =>
      rw [hend] at hstep
      obtain ⟨sent', hs'⟩ := hs.goes (Ne.symm hi) hstep
      exact ih hs' (hstep.tells.isRunning.trans hr) hinputs
    | some en =>
      rw [hend] at hstep
      replace hstep : Ends job s (s.step i) (stateAfter en) _ := hstep
      exact (hs.received.ends hstep).rests (rests_run hstep.isRunning inputs)

/-- Whatever handles ask for and the engine sends, as long as the engine takes lines: it gets nothing
when there is none for the job, and else the command first, and then what was queued, in order and
each once, up to some point; between these lines at most one stop of the session itself, after its
sink failed. -/
theorem written_lifetime (registry : Registry) (sink : Option Sink)
    (before early : List HandleRequest) (job : Job) (launched : Except SessionError Unit)
    (inputs : List Input) (hdeaf : .deaf ∉ inputs) :
    match job.obstacle? launched with
    | some _ => (lifetime registry sink before early job launched inputs).written = []
    | none => ∃ command, job.line = .ok command ∧
        Received job command (lifetime registry sink before early job launched inputs) := by
  obtain ⟨s, more, h, -, hlife⟩ := exists_waiting registry sink before early job
  rw [hlife]
  cases hob : job.obstacle? launched with
  | some e =>
    rw [launch_of_obstacle hob]
    have hend := ends_fail s job e
    have hrest := rests_run (s := s.fail job e) (by rw [isRunning, hend.state]; rfl) inputs
    obtain ⟨more', he, -, hw, -⟩ := hend.effects
    have hfail : (s.fail job e).written = s.written := by
      rw [written, he, List.filterMap_append, hw, List.append_nil]
      rfl
    exact (hrest.written.trans hfail).trans h.written_eq
  | none =>
    obtain ⟨command, hline, -, hlaunch⟩ := launch_of_no_obstacle hob
    obtain ⟨os, hos, hlines, -⟩ := h.queue
    -- what was queued before there was an engine all waits behind the command
    have hs : Sends job command (s.emit (.write command)) [] := by
      refine ⟨h.job, h.connected, ?_, .inl ?_⟩
      · rw [queued_emit_write, h.queued_eq, List.map_append, hlines job rfl]
        rw [show (s.emit (.write command)).queue = os from hos]
        simp [queued, assigned, fresh]
      · rw [written_emit_write, h.written_eq]
        rfl
    rw [hlaunch]
    exact ⟨command, hline, hs.run h.isRunning hdeaf⟩

/-- The sink has no room for a log line, so the session stops the engine. Of the two requests that are
queued one goes out; the first comes before the job, and the last after its end. -/
theorem written_lifetime_sinkFailed :
    let job : Job := ⟨.solve, Model.empty 0 none, Parameters.empty, none⟩
    let inputs : List Input := [.line (EventRecord.log "hello").toJson.compact,
      .request (.stop "again"), .deliver, .ended, .request (.stop "too late")]
    let s := lifetime .empty (some (.empty (some 3))) [.stop "too soon"] [.stop "enough"] job (.ok ())
      inputs
    .deaf ∉ inputs ∧ ∃ command, job.line = .ok command ∧ Received job command s ∧
      s.queued.map (HandleRequest.line? job) = [stopLine "enough", stopLine "again"].map some ∧
      s.written = [command, ownStop, stopLine "enough"] := by
  intro job inputs s
  have hdeaf : .deaf ∉ inputs := by simp [inputs]
  have hob : job.obstacle? (.ok ()) = none := by
    unfold Job.obstacle? Job.line Job.command
    rfl
  have h := written_lifetime .empty (some (.empty (some 3))) [.stop "too soon"] [.stop "enough"] job
    (.ok ()) inputs hdeaf
  rw [hob] at h
  obtain ⟨command, hline, hreceived⟩ := h
  have hqueued : s.queued.map (HandleRequest.line? job) =
      [stopLine "enough", stopLine "again"].map some := by decide +kernel
  have hwritten : s.written = [job.line.toOption.getD "", ownStop, stopLine "enough"] := by
    decide +kernel
  rw [hline] at hwritten
  exact ⟨hdeaf, command, hline, hreceived, hqueued, hwritten⟩

end Session

end Scheduling
