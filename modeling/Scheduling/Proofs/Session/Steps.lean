import Scheduling.Engine.Exchange
import Scheduling.Proofs.Session.Effects

/-!
# Steps of sessions, read off their inputs

What one input does to a session (`step_cases`): while the job runs, an input that does not end it
makes the session go on in one of four ways (`Goes`), and one that does makes it come to its end
(`Ends`). A session that does not run only turns requests down (`Rests`). The life of a session
(`lifetime`) is its start, with requests before it, and a run over any inputs; every job that is
carried out is one (`exists_lifetime`).
-/

namespace Scheduling

/-! ### What inputs mean to a job -/

/-- What the subscriptions are told of a message that does not end the job. -/
def Event.told? : Event → Option SessionEvent
  | .log line => some (.log line)
  | .trace line => some (.trace line)
  | .warning line => some (.warning line)
  | .solution found => some (.solution found)
  | .lowerBound solveTime value => some (.lowerBound ⟨solveTime, value⟩)
  | _ => none

/-- How a message ends a task, if it does: with the event that the task asks for, or with an error. -/
def Task.verdict? (t : Task) (line : String) : Event → Option (Except SessionError Event)
  | .error text => some (.error (.engine text))
  | e =>
    if !e.isFinal then none
    else if t.isEndedBy e then some (.ok e)
    else some (.error (.protocol (.unexpectedEnd t.name line)))

namespace Job

/-- What the subscriptions are told of an input that does not end the job. -/
def relayed? (job : Job) : Session.Input → Option SessionEvent
  | .line text =>
    if text.toList.all isBlank then none else (Event.read job.model text).toOption.bind Event.told?
  | _ => none

/-- How an input ends the job, if it does. -/
def ending? (job : Job) : Session.Input → Option (Except SessionError Event)
  | .line text =>
    if text.toList.all isBlank then none
    else
      match Event.read job.model text with
      | .error e => some (.error (.badMessage text e))
      | .ok e => job.task.verdict? text e
  | .garbled => some (.error .unreadable)
  | .ended => some (.error (.streamEnded job.task))
  | _ => none

/-- Why no engine gets the job, if none does. -/
def obstacle? (job : Job) (launched : Except SessionError Unit) : Option SessionError :=
  match job.line, launched with
  | .error e, _ => some (.protocol e)
  | .ok _, .error e => some e
  | .ok _, .ok () => none

end Job

/-- The last events of a job. -/
def closing : Except SessionError Event → List SessionEvent
  | .ok (.summary s) => [.summary s, .close]
  | .ok _ => [.close]
  | .error e => [.error e, .close]

/-- The state after a job. -/
def stateAfter : Except SessionError Event → SessionState
  | .ok _ => .finished
  | .error _ => .errored

@[simp]
theorem stateAfter_ne_running (en : Except SessionError Event) : stateAfter en ≠ .running := by
  cases en <;> exact nofun

namespace Session

variable {s s' s'' : Session} {job : Job} {more : List Effect} {es es' : List SessionEvent}

/-! ### Steps of a session that runs -/

/-- How a session that runs goes on with an input, and what its subscriptions are told. -/
inductive Goes (s : Session) : Input → Session → List SessionEvent → Prop
  /-- It adds effects; a text may have gone to the sink. -/
  | adds {i : Input} {k : Option Sink} {s₁ : Session} {more : List Effect}
    (h : Adds { s with sink := k } s₁ more) (hk : k.any (·.failed) = s.sinkFailed) :
    Goes s i s₁ (more.filterMap Effect.published?)
  /-- A text makes its sink fail, and the engine is told to stop. -/
  | stops {i : Input} {k : Option Sink} {s₁ : Session} {more : List Effect}
    (h : Adds { s with sink := k } s₁ more) (hfine : s.sinkFailed = false)
    (hk : k.any (·.failed) = true) (hmem : .notice sinkComplaint ∈ more) :
    Goes s i (s₁.writeLine "cannot send stop" ownStop) (more.filterMap Effect.published?)
  /-- The first line of the queue goes out. -/
  | delivers {i : Input} {o : Outbound} {rest : List Outbound} {s₁ : Session}
    {more : List Effect} (hqueue : s.queue = o :: rest) (h : Adds { s with queue := rest } s₁ more)
    (hqueued : more.filterMap Effect.queued? = []) :
    Goes s i (s₁.writeLine "cannot write to engine" o.lineOf) (more.filterMap Effect.published?)
  /-- The engine takes no more lines. -/
  | deaf : Goes s .deaf { s with connected := false } []

theorem Adds.goes (h : Adds s s' more) (i : Input) :
    Goes s i s' (more.filterMap Effect.published?) := .adds (k := s.sink) h rfl

theorem Goes.refl (s : Session) (i : Input) : Goes s i s [] := (Adds.refl s).goes i

theorem goes_relay (s : Session) (job : Job) (i : Input) (text : String) (e : SessionEvent) :
    Goes s i (s.relay job text e) (s.audible [e]) := by
  obtain ⟨k, s₁, more, h, hp, ⟨he, hk⟩ | ⟨he, hfine, hk, hmem⟩⟩ := relay_cases s job text e
  · rw [he, ← hp]
    exact .adds h hk
  · rw [he, ← hp]
    exact .stops h hfine hk hmem

theorem goes_deliver (hr : s.isRunning = true) (i : Input) : Goes s i s.deliver [] := by
  obtain ⟨-, he⟩ | ⟨o, rest, s₁, more, hqueue, h, hp, hq, he⟩ := deliver_cases hr
  · rw [he]
    exact .refl s i
  · rw [he, ← hp]
    exact .delivers hqueue h hq

theorem Adds.answer (h : Adds s s' more) (answer : Answer) : Adds s { s' with answer } more :=
  ⟨h.state, h.registry, h.job, h.connected, h.sink, h.effects, h.written, h.queue⟩

theorem Adds.fire (h : Adds s s' more) (hp : more.filterMap Effect.published? = [])
    (e : SessionEvent) :
    ∃ more', Adds s (s'.fire e) more' ∧ more'.filterMap Effect.published? = s.audible [e] := by
  obtain ⟨more', h', hp'⟩ := adds_fire s' e
  rw [audible_congr h.registry] at hp'
  exact ⟨more ++ more', h.trans h', by rw [List.filterMap_append, hp, hp', List.nil_append]⟩

/-- The last report of a job comes before the session is closed. -/
theorem Adds.finish (h : Adds s s' more) (hjob : s.job = some job)
    (hp : more.filterMap Effect.published? = s.audible es) :
    Ends job s s'.finish .finished (s.audible (es ++ [.close])) := by
  have hend := ends_finish s' job
  rw [audible_congr h.registry] at hend
  rw [audible_append, ← hp]
  exact h.ends hjob hend

theorem verdict?_eq_ok {t : Task} {e : Event} (hf : e.isFinal = true) (hends : t.isEndedBy e = true)
    (line : String) : t.verdict? line e = some (.ok e) := by
  unfold Task.verdict?
  split
  · exact nomatch hf
  · rw [hf, hends]
    rfl

theorem verdict?_eq_error {t : Task} {e : Event} (hf : e.isFinal = true)
    (hends : t.isEndedBy e = false) (line : String) :
    t.verdict? line e = some (.error (.protocol (.unexpectedEnd t.name line))) := by
  unfold Task.verdict?
  split
  · exact nomatch hf
  · rw [hf, hends]
    rfl

/-- A message that comes in while the job runs, and is not the end of another task. -/
theorem take_cases (hjob : s.job = some job) (i : Input) (line : String) {e : Event}
    (hends : e.isFinal = true → job.task.isEndedBy e = true) :
    match job.task.verdict? line e with
    | none => Goes s i (s.take job e) (s.audible e.told?.toList)
    | some en => Ends job s (s.take job e) (stateAfter en) (s.audible (closing en)) := by
  cases e with
  | log text | trace text | warning text => exact goes_relay s job i text _
  | error text => exact ends_fail s job _
  | solution found =>
    obtain ⟨more, h, hp⟩ := ((Adds.report s (.solution found)).answer
      { s.answer with result := s.answer.result.addSolution found }).fire rfl (.solution found)
    have hgoes := h.goes i
    rwa [hp] at hgoes
  | lowerBound solveTime value =>
    obtain ⟨more, h, hp⟩ := ((Adds.report s (.lowerBound ⟨solveTime, value⟩)).answer
      { s.answer with result := s.answer.result.addLowerBound ⟨solveTime, value⟩ }).fire rfl
      (.lowerBound ⟨solveTime, value⟩)
    have hgoes := h.goes i
    rwa [hp] at hgoes
  | summary summary =>
    rw [verdict?_eq_ok rfl (hends rfl)]
    obtain ⟨more, h, hp⟩ := (Adds.report s (.solveEnd summary)).fire rfl (.summary summary)
    exact (h.answer { ((s.report (.solveEnd summary)).fire (.summary summary)).answer with
      result := { ((s.report (.solveEnd summary)).fire (.summary summary)).answer.result with
        summary := some summary } }).finish hjob hp
  | domains d =>
    rw [verdict?_eq_ok rfl (hends rfl)]
    exact ((Adds.report s (.propagated d)).answer _).finish hjob s.audible_nil.symm
  | text content =>
    rw [verdict?_eq_ok rfl (hends rfl)]
    exact ((Adds.report s (.textReady content)).answer _).finish hjob s.audible_nil.symm

/-- What a line of the engine is to a job: blank, a failure, or a message that is not the end of
another task. -/
theorem receive_cases (hr : s.isRunning = true) (hjob : s.job = some job) (line : String) :
    (s.receive line = s ∧ job.ending? (.line line) = none ∧ job.relayed? (.line line) = none) ∨
    (∃ e, s.receive line = s.fail job e ∧ job.ending? (.line line) = some (.error e)) ∨
    ∃ e, (e.isFinal = true → job.task.isEndedBy e = true) ∧ s.receive line = s.take job e ∧
      job.ending? (.line line) = job.task.verdict? line e ∧
      job.relayed? (.line line) = e.told? := by
  rw [receive, hr, hjob, Job.ending?, Job.relayed?]
  by_cases hblank : line.toList.all isBlank
  · exact .inl (by simp only [hblank, if_true, and_self])
  · cases he : Event.read job.model line with
    | error e =>
      refine .inr (.inl ⟨.badMessage line e, ?_⟩)
      simp only [hblank, he, Bool.false_eq_true, if_false, and_self]
    | ok e =>
      -- a message that ends another task is turned into an error before it is looked at
      by_cases hwrong : (e.isFinal && !job.task.isEndedBy e) = true
      · refine .inr (.inl ⟨.protocol (.unexpectedEnd job.task.name line), ?_⟩)
        simp only [hblank, he, hwrong, Bool.false_eq_true, if_false, if_true, true_and]
        simp only [Bool.and_eq_true, Bool.not_eq_true'] at hwrong
        exact verdict?_eq_error hwrong.1 hwrong.2 line
      · refine .inr (.inr ⟨e, fun hf => by simpa [hf] using hwrong, ?_⟩)
        simp only [hblank, he, hwrong, Bool.false_eq_true, if_false, true_and]
        rfl

/-- An input of a session that runs. -/
theorem step_cases (hr : s.isRunning = true) (hjob : s.job = some job) (i : Input) :
    match job.ending? i with
    | none => Goes s i (s.step i) (s.audible (job.relayed? i).toList)
    | some en => Ends job s (s.step i) (stateAfter en) (s.audible (closing en)) := by
  cases i with
  | line text =>
    obtain ⟨he, hend, hrel⟩ | ⟨e, he, hend⟩ | ⟨e, hends, he, hend, hrel⟩ :=
      receive_cases hr hjob text
    · rw [step, he, hend, hrel]
      exact s.audible_nil ▸ .refl s _
    · rw [step, he, hend]
      exact ends_fail s job e
    · rw [step, he, hend, hrel]
      exact take_cases hjob _ text hends
  | garbled =>
    rw [step, garbled, hr, hjob]
    exact ends_fail s job _
  | ended =>
    rw [step, streamEnded, hr, hjob]
    exact ends_fail s job _
  | deaf => exact s.audible_nil ▸ .deaf
  | deliver => exact s.audible_nil ▸ goes_deliver hr _
  | request r =>
    obtain ⟨a, h⟩ := adds_request s r
    exact s.audible_nil ▸ h.goes _

/-! ### What steps leave as it is -/

/-- The session goes on, and its subscriptions were told these events. -/
structure Tells (s s' : Session) (es : List SessionEvent) : Prop where
  state : s'.state = s.state
  registry : s'.registry = s.registry
  job : s'.job = s.job
  published : s'.published = s.published ++ es

theorem Tells.trans (h : Tells s s' es) (h' : Tells s' s'' es') : Tells s s'' (es ++ es') :=
  ⟨h'.state.trans h.state, h'.registry.trans h.registry, h'.job.trans h.job, by
    rw [h'.published, h.published, List.append_assoc]⟩

theorem Tells.isRunning (h : Tells s s' es) : s'.isRunning = s.isRunning := by
  rw [Session.isRunning, Session.isRunning, h.state]

theorem Adds.tells (h : Adds s s' more) : Tells s s' (more.filterMap Effect.published?) :=
  ⟨h.state, h.registry, h.job, by rw [published, h.effects, List.filterMap_append]; rfl⟩

theorem tells_writeLine (s : Session) (complaint line : String) :
    Tells s (s.writeLine complaint line) [] := by
  rw [writeLine]
  split
  · exact ⟨rfl, rfl, rfl, by simp [published, emit, Effect.published?]⟩
  · exact (Adds.report _ _).tells

theorem Goes.tells {i : Input} (h : Goes s i s' es) : Tells s s' es := by
  cases h with
  | adds h hk =>
    obtain ⟨hstate, hregistry, hjob, hpub⟩ := h.tells
    exact ⟨hstate, hregistry, hjob, hpub⟩
  | stops h hfine hk hmem =>
    obtain ⟨hstate, hregistry, hjob, hpub⟩ := h.tells.trans (tells_writeLine _ _ _)
    exact ⟨hstate, hregistry, hjob, hpub.trans (by rw [List.append_nil]; rfl)⟩
  | delivers hqueue h hqueued =>
    obtain ⟨hstate, hregistry, hjob, hpub⟩ := h.tells.trans (tells_writeLine _ _ _)
    exact ⟨hstate, hregistry, hjob, hpub.trans (by rw [List.append_nil]; rfl)⟩
  | deaf => exact ⟨rfl, rfl, rfl, (List.append_nil _).symm⟩

theorem Ends.isRunning {en : Except SessionError Event} (h : Ends job s s' (stateAfter en) es) :
    s'.isRunning = false := by
  rw [Session.isRunning, h.state]
  simp

/-! ### Sessions at rest -/

/-- Nothing happened but that requests were turned down. -/
structure Rests (s s' : Session) : Prop where
  state : s'.state = s.state
  effects : ∃ turned : List HandleRequest,
    s'.effects = s.effects ++ turned.map (Effect.answer · .notRunning)

theorem Rests.refl (s : Session) : Rests s s := ⟨rfl, [], (List.append_nil _).symm⟩

theorem Rests.trans (h : Rests s s') (h' : Rests s' s'') : Rests s s'' := by
  obtain ⟨turned, he⟩ := h.effects
  obtain ⟨turned', he'⟩ := h'.effects
  exact ⟨h'.state.trans h.state, turned ++ turned', by
    rw [he', he, List.append_assoc, List.map_append]⟩

/-- A session that does not run turns requests down, and notes that the engine takes no more lines. -/
theorem step_of_not_running (hr : s.isRunning = false) (i : Input) :
    s.step i = s ∨ s.step i = { s with connected := false } ∨
      ∃ r, s.step i = s.emit (.answer r .notRunning) := by
  cases i with
  | line text => exact .inl (by rw [step, receive, hr])
  | garbled => exact .inl (by rw [step, garbled, hr])
  | ended => exact .inl (by rw [step, streamEnded, hr])
  | deaf => exact .inr (.inl rfl)
  | deliver => exact .inl (by rw [step, deliver, hr])
  | request r => exact .inr (.inr ⟨r, by rw [step, request, ask, hr]⟩)

theorem rests_step (hr : s.isRunning = false) (i : Input) : Rests s (s.step i) := by
  obtain he | he | ⟨r, he⟩ := step_of_not_running hr i <;> rw [he]
  · exact .refl s
  · exact ⟨rfl, [], (List.append_nil _).symm⟩
  · exact ⟨rfl, [r], rfl⟩

theorem rests_run (hr : s.isRunning = false) (inputs : List Input) : Rests s (s.run inputs) := by
  induction inputs generalizing s with
  | nil => exact .refl s
  | cons i inputs ih =>
    have hstep := rests_step hr i
    exact hstep.trans (ih (by rwa [isRunning, hstep.state]))

/-! ### Whole lives -/

/-- The life of a session. Handles ask for things before the job and before the engine is there; from
then on anything may come in. -/
def lifetime (registry : Registry) (sink : Option Sink) (before early : List HandleRequest)
    (job : Job) (launched : Except SessionError Unit) (inputs : List Input) : Session :=
  let s := (fresh registry sink).run (before.map .request)
  let s := (s.accept job).run (early.map .request)
  (s.launch job launched).run inputs

theorem adds_requests (s : Session) (rs : List HandleRequest) :
    ∃ more, Adds s (s.run (rs.map .request)) more ∧ more.filterMap Effect.published? = [] := by
  rw [run, List.foldl_map]
  exact adds_foldl (fun s r => by
    obtain ⟨a, h⟩ := adds_request s r
    exact ⟨_, h, rfl⟩) rs s

/-- A session with a job and nothing done. -/
def assigned (registry : Registry) (sink : Option Sink) (job : Job) : Session :=
  { fresh registry sink with state := .running, job := some job }

/-- Until there is an engine, all that happens is that requests are answered. -/
theorem exists_waiting (registry : Registry) (sink : Option Sink)
    (before early : List HandleRequest) (job : Job) :
    ∃ s more, Adds (assigned registry sink job) s more ∧ more.filterMap Effect.published? = [] ∧
      ∀ launched inputs, lifetime registry sink before early job launched inputs =
        (s.launch job launched).run inputs := by
  obtain ⟨more, h, hp⟩ := adds_requests (fresh registry sink) before
  obtain ⟨more', h', hp'⟩ :=
    adds_requests (((fresh registry sink).run (before.map .request)).accept job) early
  -- requests that come before the job are turned down, so the queue is still empty when it comes
  have hstart : Adds (assigned registry sink job)
      { (fresh registry sink).run (before.map .request) with state := .running, job := some job }
      more := by
    obtain ⟨os, hos, -, hidle⟩ := h.queue
    obtain ⟨rfl, hq⟩ := hidle rfl
    exact ⟨rfl, h.registry, rfl, h.connected, h.sink, h.effects, h.written, [], hos,
      fun job _ => by rw [hq]; rfl, fun hr => nomatch hr⟩
  refine ⟨_, _, (hstart.trans (.report _ (.solveStart job))).trans h', ?_, fun _ _ => rfl⟩
  rw [List.filterMap_append, List.filterMap_append, hp, hp']
  rfl

theorem launch_of_obstacle {launched : Except SessionError Unit} {e : SessionError}
    (h : job.obstacle? launched = some e) (s : Session) : s.launch job launched = s.fail job e := by
  unfold Job.obstacle? at h
  unfold launch
  cases hline : job.line with
  | error e' =>
    rw [hline] at h
    cases h
    rfl
  | ok line =>
    rw [hline] at h
    cases launched with
    | error e' => cases h; rfl
    | ok _ => exact nomatch h

theorem launch_of_no_obstacle {launched : Except SessionError Unit}
    (h : job.obstacle? launched = none) :
    ∃ line, job.line = .ok line ∧ launched = .ok () ∧
      ∀ s : Session, s.launch job launched = s.emit (.write line) := by
  unfold Job.obstacle? at h
  cases hline : job.line with
  | error e =>
    rw [hline] at h
    exact nomatch h
  | ok line =>
    rw [hline] at h
    cases launched with
    | error e => exact nomatch h
    | ok _ => exact ⟨line, rfl, rfl, fun s => by unfold launch; rw [hline]⟩

/-! ### Jobs that are carried out -/

theorem run_append (s : Session) (inputs inputs' : List Input) :
    s.run (inputs ++ inputs') = (s.run inputs).run inputs' := List.foldl_append

theorem session_readToStop (x : Exchange) (lines : List String) :
    (x.readToStop lines).1.session = x.session := by
  fun_induction Exchange.readToStop x lines with
  | case1 => rfl
  | case2 x line rest x' hr ih => exact ih
  | case3 => rfl
  | case4 x line rest x' r hr x'' hstop ih => exact ih

theorem exists_run_deafen (s : Session) (steps : List EngineStep) :
    ∃ inputs, Exchange.deafen s steps = s.run inputs := by
  rw [Exchange.deafen]
  split
  · exact ⟨[], rfl⟩
  · exact ⟨[.deaf], rfl⟩

theorem exists_run_play (x : Exchange) (steps : List EngineStep) :
    ∃ inputs, (x.play steps).session = x.session.run inputs := by
  induction steps generalizing x with
  | nil => exact ⟨[.ended], rfl⟩
  | cons engineStep steps ih =>
    cases engineStep with
    | say line =>
      obtain ⟨inputs, h⟩ := ih { x with session := x.session.step (.line line) }
      exact ⟨.line line :: inputs, h⟩
    | garble =>
      obtain ⟨inputs, h⟩ := ih { x with session := x.session.step .garbled }
      exact ⟨.garbled :: inputs, h⟩
    | awaitStop =>
      have hread := session_readToStop { x with session := Exchange.deliverAll x.session }
        ((Exchange.deliverAll x.session).written.drop x.heard.length)
      unfold Exchange.play
      dsimp only
      generalize Exchange.readToStop _ _ = r at hread ⊢
      obtain ⟨y, stopped⟩ := r
      replace hread : y.session = x.session.run (List.replicate x.session.queue.length .deliver) :=
        hread
      cases stopped with
      | false => exact ⟨_, hread⟩
      | true =>
        obtain ⟨deaf, hdeaf⟩ := exists_run_deafen y.session steps
        obtain ⟨inputs, h⟩ := ih { y with session := Exchange.deafen y.session steps }
        refine ⟨List.replicate x.session.queue.length .deliver ++ (deaf ++ inputs), h.trans ?_⟩
        rw [run_append, run_append, ← hread, ← hdeaf]

theorem exists_run_begin (s : Session) (steps : List EngineStep) :
    ∃ inputs, (Exchange.begin s steps).session = s.run inputs := by
  rw [Exchange.begin]
  dsimp only
  split
  · obtain ⟨deaf, hdeaf⟩ := exists_run_deafen s steps
    obtain ⟨inputs, h⟩ := exists_run_play ⟨Exchange.deafen s steps, s.written, _⟩ steps
    exact ⟨deaf ++ inputs, by rw [h, run_append, ← hdeaf]⟩
  · exact ⟨[], rfl⟩

/-- A session that has had no job carries out any, whatever was asked of it before. -/
theorem exists_lifetime (registry : Registry) (sink : Option Sink) (before : List HandleRequest)
    (launch : Launcher) (job : Job) :
    ∃ x launched inputs,
      ((fresh registry sink).run (before.map .request)).carryOut launch job = .ok x ∧
      x.session = lifetime registry sink before [] job launched inputs := by
  obtain ⟨more, h, -⟩ := adds_requests (fresh registry sink) before
  rw [carryOut, if_neg (by rw [h.state]; simp [fresh])]
  obtain ⟨inputs, hinputs⟩ := exists_run_begin _ _
  exact ⟨_, _, inputs, rfl, hinputs⟩

end Session

end Scheduling
