import Scheduling.Session.Step

/-!
# Effects of sessions

What a session does beside reading and writing. Reports and listeners add to its effects and,
through handles, to its queue, and leave all else as it is (`Adds`): no line is written to the
engine, and what is queued is one line for each request that is answered so. From this and one
lemma for each kind of end (`ends_fail`, `ends_finish`) it follows what each input of a session
does.
-/

namespace Scheduling

/-! ### Requests and their lines -/

/-- The line that a request gives the engine that works on a job, if it can be written. -/
def HandleRequest.line? (job : Job) : HandleRequest → Option String
  | .stop reason => some (Session.stopLine reason)
  | .offer s =>
    match (Command.offerSolution job.model s : Except ProtocolError (Command Parameters)) with
    | .ok c => some (c.line Parameters.toJson)
    | .error _ => none

/-- The line of what waits. -/
def Outbound.lineOf : Outbound → String
  | .stop reason => Session.stopLine reason
  | .line text => text

/-- The request that was queued. -/
def Effect.queued? : Effect → Option HandleRequest
  | .answer r .queued => some r
  | _ => none

namespace Session

variable {s s' s'' : Session} {job : Job} {more more' : List Effect} {e : SessionEvent}

/-- The requests that were queued, in order. -/
def queued (s : Session) : List HandleRequest := s.effects.filterMap Effect.queued?

/-- What subscriptions get of some events. Without subscriptions none is published. -/
def audible (s : Session) (es : List SessionEvent) : List SessionEvent :=
  if s.registry.subscriptions.isEmpty then [] else es

theorem audible_nil (s : Session) : s.audible [] = [] := ite_self _

theorem audible_append (s : Session) (es es' : List SessionEvent) :
    s.audible (es ++ es') = s.audible es ++ s.audible es' := by
  rw [audible, audible, audible]
  split <;> rfl

theorem audible_of_subscriptions (h : s.registry.subscriptions ≠ []) (es : List SessionEvent) :
    s.audible es = es := if_neg (by simpa using h)

theorem audible_congr (h : s'.registry = s.registry) (es : List SessionEvent) :
    s'.audible es = s.audible es := by rw [audible, audible, h]

/-! ### Additions -/

/-- The session did these things, none of them a line to the engine, and queued what it says. -/
structure Adds (s s' : Session) (more : List Effect) : Prop where
  state : s'.state = s.state
  registry : s'.registry = s.registry
  job : s'.job = s.job
  connected : s'.connected = s.connected
  sink : s'.sink = s.sink
  effects : s'.effects = s.effects ++ more
  written : more.filterMap Effect.written? = []
  queue : ∃ os, s'.queue = s.queue ++ os ∧
    (∀ job ∈ s.job, (more.filterMap Effect.queued?).map (HandleRequest.line? job) =
      os.map fun o => some o.lineOf) ∧
    (s.isRunning = false → os = [] ∧ more.filterMap Effect.queued? = [])

namespace Adds

theorem refl (s : Session) : Adds s s [] :=
  ⟨rfl, rfl, rfl, rfl, rfl, (List.append_nil _).symm, rfl, [], (List.append_nil _).symm,
    fun _ _ => rfl, fun _ => ⟨rfl, rfl⟩⟩

theorem isRunning (h : Adds s s' more) : s'.isRunning = s.isRunning := by
  rw [Session.isRunning, Session.isRunning, h.state]

theorem trans (h : Adds s s' more) (h' : Adds s' s'' more') : Adds s s'' (more ++ more') := by
  obtain ⟨os, hos, hlines, hidle⟩ := h.queue
  obtain ⟨os', hos', hlines', hidle'⟩ := h'.queue
  refine ⟨h'.state.trans h.state, h'.registry.trans h.registry, h'.job.trans h.job,
    h'.connected.trans h.connected, h'.sink.trans h.sink, ?_, ?_, os ++ os', ?_, fun job hjob => ?_,
    fun hr => ?_⟩
  · rw [h'.effects, h.effects, List.append_assoc]
  · rw [List.filterMap_append, h.written, h'.written, List.append_nil]
  · rw [hos', hos, List.append_assoc]
  · rw [List.filterMap_append, List.map_append, List.map_append, hlines job hjob,
      hlines' job (h.job ▸ hjob)]
  · obtain ⟨rfl, hq⟩ := hidle hr
    obtain ⟨rfl, hq'⟩ := hidle' (h.isRunning.trans hr)
    exact ⟨rfl, by rw [List.filterMap_append, hq, hq', List.append_nil]⟩

theorem emit (s : Session) {e : Effect} (hw : e.written? = none) (hq : e.queued? = none) :
    Adds s (s.emit e) [e] := by
  refine ⟨rfl, rfl, rfl, rfl, rfl, rfl, ?_, [], (List.append_nil _).symm, fun job _ => ?_,
    fun _ => ⟨rfl, ?_⟩⟩ <;> simp [hw, hq]

theorem report (s : Session) (n : Notice) : Adds s (s.report n) [.notice n] := emit s rfl rfl

end Adds

/-- A request is answered; if the answer is that it is queued, its line waits last. -/
theorem adds_request (s : Session) (r : HandleRequest) :
    ∃ a, Adds s (s.request r) [.answer r a] := by
  -- either nothing but the answer is added, or the line of the request joins the queue as well
  have hother (a : HandleAnswer) (ha : (Effect.answer r a).queued? = none) (hask : s.ask r = (a, s)) :
      Adds s (s.request r) [.answer r a] := by
    rw [request, hask]
    exact .emit s rfl ha
  have hqueued (job : Job) (o : Outbound) (hr : s.isRunning = true) (hjob : s.job = some job)
      (hline : r.line? job = some o.lineOf)
      (hask : s.ask r = (.queued, { s with queue := s.queue ++ [o] })) :
      Adds s (s.request r) [.answer r .queued] := by
    rw [request, hask]
    refine ⟨rfl, rfl, rfl, rfl, rfl, rfl, rfl, [o], rfl, fun job' hjob' => ?_, fun hidle => ?_⟩
    · obtain rfl : job = job' := Option.some.inj (hjob.symm.trans hjob')
      simp [Effect.queued?, hline]
    · rw [hr] at hidle
      exact nomatch hidle
  cases hr : s.isRunning with
  | false => exact ⟨.notRunning, hother _ rfl (by rw [ask, hr])⟩
  | true =>
    cases hjob : s.job with
    | none => exact ⟨.notRunning, hother _ rfl (by rw [ask, hr, hjob])⟩
    | some job =>
      cases r with
      | stop reason =>
        exact ⟨.queued, hqueued job (.stop reason) hr hjob rfl (by rw [ask, hr, hjob])⟩
      | offer solution =>
        cases hc : (Command.offerSolution job.model solution :
            Except ProtocolError (Command Parameters)) with
        | error e => exact ⟨.refused e, hother _ rfl (by rw [ask, hr, hjob]; simp only [hc])⟩
        | ok c =>
          refine ⟨.queued, hqueued job (.line (c.line Parameters.toJson)) hr hjob ?_ ?_⟩
          · simp only [HandleRequest.line?, hc, Outbound.lineOf]
          · rw [ask, hr, hjob]
            simp only [hc]

theorem adds_foldl {α : Type} {f : Session → α → Session}
    (hf : ∀ s a, ∃ more, Adds s (f s a) more ∧ more.filterMap Effect.published? = []) (as : List α)
    (s : Session) : ∃ more, Adds s (as.foldl f s) more ∧ more.filterMap Effect.published? = [] := by
  induction as generalizing s with
  | nil => exact ⟨[], .refl s, rfl⟩
  | cons a as ih =>
    obtain ⟨more, h, hp⟩ := hf s a
    obtain ⟨more', h', hp'⟩ := ih (f s a)
    exact ⟨more ++ more', h.trans h', by rw [List.filterMap_append, hp, hp', List.append_nil]⟩

/-- Listeners may ask for something, and subscriptions are told the event. -/
theorem adds_fire (s : Session) (e : SessionEvent) : ∃ more, Adds s (s.fire e) more ∧
    more.filterMap Effect.published? = s.audible [e] := by
  have hcall (s : Session) (l : Listener) : ∃ more, Adds s (callListener e s l) more ∧
      more.filterMap Effect.published? = [] := by
    obtain ⟨more, h, hp⟩ := adds_foldl (fun s r => by
      obtain ⟨a, h⟩ := adds_request s r
      exact ⟨_, h, rfl⟩) l.reaction (s.emit (.call l e))
    exact ⟨_, (Adds.emit s rfl rfl).trans h, by rw [List.filterMap_append, hp]; rfl⟩
  obtain ⟨more, h, hp⟩ := adds_foldl hcall (s.registry.on e.channel) s
  rw [fire, audible]
  simp only [h.registry]
  split
  · exact ⟨more, h, hp⟩
  · exact ⟨_, h.trans (.emit _ rfl rfl), by rw [List.filterMap_append, hp]; rfl⟩

/-! ### Lines to the engine -/

/-- Whether the sink failed. -/
def sinkFailed (s : Session) : Bool := s.sink.any (·.failed)

/-- What a session reports when its sink fails. -/
def sinkComplaint : Notice := .complaint "output sink failed, stopping the engine" "sink full"

/-- The line of the stop that a session issues when its sink failed. -/
def ownStop : String := stopLine "output sink failed"

theorem writeLine_of_connected (h : s.connected = true) (complaint line : String) :
    s.writeLine complaint line = s.emit (.write line) := by rw [writeLine, if_pos h]

/-- The queue of a session that runs loses its first line to the engine. -/
theorem deliver_cases (hr : s.isRunning = true) :
    s.queue = [] ∧ s.deliver = s ∨
    ∃ o rest s₁ more, s.queue = o :: rest ∧ Adds { s with queue := rest } s₁ more ∧
      more.filterMap Effect.published? = [] ∧ more.filterMap Effect.queued? = [] ∧
      s.deliver = s₁.writeLine "cannot write to engine" o.lineOf := by
  rw [deliver, hr]
  cases hq : s.queue with
  | nil => exact .inl ⟨rfl, rfl⟩
  | cons o rest =>
    refine .inr ⟨o, rest, ?_⟩
    cases o with
    | stop reason => exact ⟨_, _, rfl, .report _ _, rfl, rfl, rfl⟩
    | line text => exact ⟨_, _, rfl, .refl _, rfl, rfl, rfl⟩

/-- A text that is kept may make the sink fail, and is else printed at most. -/
theorem adds_keep (s : Session) (job : Job) (text : String) :
    ∃ k more, Adds { s with sink := k } (s.keep job text).1 more ∧
      more.filterMap Effect.published? = [] ∧
      if (s.keep job text).2 then
        s.sinkFailed = false ∧ k.any (·.failed) = true ∧ .notice sinkComplaint ∈ more
      else k.any (·.failed) = s.sinkFailed := by
  rw [keep]
  cases hk : s.sink.filter (!·.failed) with
  | none =>
    obtain ⟨more, h, hp⟩ : ∃ more, Adds s (if job.printsLog then
        (textLines text).foldl (fun s line => s.emit (.print line)) s else s) more ∧
        more.filterMap Effect.published? = [] := by
      split
      · exact adds_foldl (fun s line => ⟨_, .emit s rfl rfl, rfl⟩) _ s
      · exact ⟨[], .refl s, rfl⟩
    exact ⟨s.sink, more, h, hp, rfl⟩
  | some sink =>
    obtain ⟨hsink, hok⟩ := Option.filter_eq_some_iff.1 hk
    have hfine : s.sinkFailed = false := by
      rw [sinkFailed, hsink]
      simpa using hok
    dsimp only
    split
    · rename_i hfail
      refine ⟨some (sink.write (Sink.form text)), _, .report _ _, rfl, ?_⟩
      exact ⟨hfine, hfail, List.mem_singleton_self _⟩
    · rename_i hfail
      refine ⟨some (sink.write (Sink.form text)), [], .refl _, rfl, ?_⟩
      rw [hfine]
      simpa using hfail

/-- A text is passed on, and a sink that fails over it makes the session stop the engine. -/
theorem relay_cases (s : Session) (job : Job) (text : String) (e : SessionEvent) :
    ∃ k s₁ more, Adds { s with sink := k } s₁ more ∧
      more.filterMap Effect.published? = s.audible [e] ∧
      (s.relay job text e = s₁ ∧ k.any (·.failed) = s.sinkFailed ∨
        s.relay job text e = s₁.writeLine "cannot send stop" ownStop ∧ s.sinkFailed = false ∧
          k.any (·.failed) = true ∧ .notice sinkComplaint ∈ more) := by
  obtain ⟨k, more, h, hp, hfailed⟩ := adds_keep s job text
  obtain ⟨more', h', hp'⟩ := adds_fire (s.keep job text).1 e
  rw [audible_congr (s := s) h.registry] at hp'
  refine ⟨k, (s.keep job text).1.fire e, more ++ more', h.trans h', ?_, ?_⟩
  · rw [List.filterMap_append, hp, hp', List.nil_append]
  · rw [relay]
    dsimp only
    split at hfailed
    · rename_i hb
      obtain ⟨h₁, h₂, h₃⟩ := hfailed
      exact .inr ⟨if_pos hb, h₁, h₂, List.mem_append_left _ h₃⟩
    · rename_i hb
      exact .inl ⟨if_neg hb, hfailed⟩

/-! ### Ends -/

/-- The session came to an end without another line to the engine. -/
structure Ends (job : Job) (s s' : Session) (state : SessionState) (es : List SessionEvent) : Prop where
  state : s'.state = state
  effects : ∃ more, s'.effects = s.effects ++ more ∧ more.filterMap Effect.published? = es ∧
    more.filterMap Effect.written? = [] ∧
    ∃ ls : List String, (more.filterMap Effect.queued?).map (HandleRequest.line? job) = ls.map some

theorem Adds.ends {state : SessionState} {es : List SessionEvent} (h : Adds s s' more)
    (hjob : s.job = some job) (h' : Ends job s' s'' state es) :
    Ends job s s'' state (more.filterMap Effect.published? ++ es) := by
  obtain ⟨os, -, hlines, -⟩ := h.queue
  obtain ⟨more', he, hp, hw, ls, hls⟩ := h'.effects
  refine ⟨h'.state, more ++ more', ?_, ?_, ?_, os.map Outbound.lineOf ++ ls, ?_⟩
  · rw [he, h.effects, List.append_assoc]
  · rw [List.filterMap_append, hp]
  · rw [List.filterMap_append, h.written, hw, List.append_nil]
  · rw [List.filterMap_append, List.map_append, hlines job hjob, hls]
    simp

/-- What a session that does not run does is to turn requests down. -/
theorem Adds.ends_of_not_running (h : Adds s s' more) (job : Job) (hr : s.isRunning = false) :
    Ends job s s' s.state (more.filterMap Effect.published?) := by
  obtain ⟨os, -, -, hidle⟩ := h.queue
  exact ⟨h.state, more, h.effects, rfl, h.written, [], by rw [(hidle hr).2]; rfl⟩

theorem ends_finish (s : Session) (job : Job) :
    Ends job s s.finish .finished (s.audible [.close]) := by
  obtain ⟨more, h, hp⟩ := adds_fire { s with state := .finished } .close
  obtain ⟨hstate, heffects⟩ := h.ends_of_not_running job rfl
  rw [hp] at heffects
  exact ⟨hstate, heffects⟩

theorem ends_fail (s : Session) (job : Job) (e : SessionError) :
    Ends job s (s.fail job e) .errored (s.audible [.error e, .close]) := by
  have hreport := Adds.report { s with state := .errored, failure := some e } (.engineError job.task e)
  obtain ⟨more, h, hp⟩ := adds_fire (Session.report { s with state := .errored, failure := some e }
    (.engineError job.task e)) (.error e)
  obtain ⟨more', h', hp'⟩ := adds_fire (Session.fire (Session.report
    { s with state := .errored, failure := some e } (.engineError job.task e)) (.error e)) .close
  obtain ⟨hstate, heffects⟩ := ((hreport.trans h).trans h').ends_of_not_running job rfl
  rw [audible_congr h.registry] at hp'
  have hes : ([Effect.notice (.engineError job.task e)] ++ more ++ more').filterMap
      Effect.published? = s.audible [.error e, .close] := by
    rw [List.filterMap_append, List.filterMap_append, hp, hp']
    exact (s.audible_append [.error e] [.close]).symm
  rw [hes] at heffects
  exact ⟨hstate, heffects⟩

end Session

end Scheduling
