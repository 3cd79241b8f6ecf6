import Mathlib.Data.List.Induction
import Scheduling.Proofs.Session.Events

/-!
# Results of sessions

The answer of a session agrees with the events that it told. Events say what a result is
(`SolveResult.ofEvents`): all solutions and bounds in order, the last of each as the best, and the
summary. Every step of a session records what it tells to listeners and subscriptions, nothing else
(`Records`), so over the whole life of a session the answer is the one that the events tell, whether
the solve ends with its summary or fails (`result_lifetime`).
-/

namespace Scheduling

/-! ### Results of events -/

namespace SessionEvent

/-- The solution of an event. -/
def solution? : SessionEvent → Option Found
  | solution found => some found
  | _ => none

/-- The bound of an event. -/
def lowerBound? : SessionEvent → Option Bound
  | lowerBound b => some b
  | _ => none

/-- The summary of an event. -/
def summary? : SessionEvent → Option Summary
  | summary s => some s
  | _ => none

end SessionEvent

namespace SolveResult

/-- The result that events tell: histories of all solutions and bounds, and the last of each. -/
def ofEvents (es : List SessionEvent) : SolveResult :=
  let solutions := es.filterMap SessionEvent.solution?
  let bounds := es.filterMap SessionEvent.lowerBound?
  { summary := (es.filterMap SessionEvent.summary?).getLast?
    solutionHistory := solutions.map fun f => ⟨f.solveTime, f.solution.objective, f.valid⟩
    lowerBoundHistory := bounds
    bestSolution := solutions.getLast?.map (·.solution)
    bestSolutionTime := solutions.getLast?.map (·.solveTime)
    bestSolutionValid := solutions.getLast?.bind (·.valid)
    bestObjective := (solutions.getLast?.map (·.solution.objective)).getD .undefined
    bestLowerBound := bounds.getLast?.map (·.value) }

/-- Records an event. -/
def record (r : SolveResult) : SessionEvent → SolveResult
  | .solution found => r.addSolution found
  | .lowerBound b => r.addLowerBound b
  | .summary s => { r with summary := some s }
  | _ => r

theorem ofEvents_append (es : List SessionEvent) (e : SessionEvent) :
    ofEvents (es ++ [e]) = (ofEvents es).record e := by
  cases e <;>
    simp [ofEvents, record, addSolution, addLowerBound, SessionEvent.solution?,
      SessionEvent.lowerBound?, SessionEvent.summary?]

/-- Events recorded one by one. -/
theorem foldl_record (es : List SessionEvent) : es.foldl record .empty = ofEvents es := by
  induction es using List.reverseRecOn with
  | nil => rfl
  | append_singleton es e ih => rw [List.foldl_concat, ih, ofEvents_append]

end SolveResult

/-- The listener that is called, with the event that it is told. -/
def Effect.called? : Effect → Option (Listener × SessionEvent)
  | call l e => some (l, e)
  | _ => none

namespace Session

variable {s s' s'' : Session} {job : Job} {es es' : List SessionEvent}
  {cs cs' : List (Listener × SessionEvent)}

/-- The calls of listeners, in order. -/
def called (s : Session) : List (Listener × SessionEvent) := s.effects.filterMap Effect.called?

/-- The calls that an event asks for: the listeners of its channel. -/
def calls (s : Session) (e : SessionEvent) : List (Listener × SessionEvent) :=
  (s.registry.on e.channel).map (·, e)

theorem calls_congr (h : s'.registry.listeners = s.registry.listeners) : s'.calls = s.calls := by
  funext e
  rw [calls, calls, Registry.on, Registry.on, h]

/-! ### Calls of listeners -/

/-- These calls were made, and neither the answer nor the failure changed. -/
structure Calls (s s' : Session) (cs : List (Listener × SessionEvent)) : Prop where
  answer : s'.answer = s.answer
  failure : s'.failure = s.failure
  listeners : s'.registry.listeners = s.registry.listeners
  called : s'.called = s.called ++ cs

namespace Calls

theorem refl (s : Session) : Calls s s [] := ⟨rfl, rfl, rfl, (List.append_nil _).symm⟩

theorem trans (h : Calls s s' cs) (h' : Calls s' s'' cs') : Calls s s'' (cs ++ cs') :=
  ⟨h'.answer.trans h.answer, h'.failure.trans h.failure, h'.listeners.trans h.listeners, by
    rw [h'.called, h.called, List.append_assoc]⟩

theorem emit (s : Session) (e : Effect) : Calls s (s.emit e) e.called?.toList :=
  ⟨rfl, rfl, rfl, by cases h : e.called? <;> simp [Session.called, Session.emit, h]⟩

theorem report (s : Session) (n : Notice) : Calls s (s.report n) [] := emit s _

theorem enqueue (s : Session) (queue : List Outbound) : Calls s { s with queue } [] :=
  ⟨rfl, rfl, rfl, (List.append_nil _).symm⟩

theorem keep (s : Session) (sink : Option Sink) : Calls s { s with sink } [] :=
  ⟨rfl, rfl, rfl, (List.append_nil _).symm⟩

theorem foldl {α : Type} {f : Session → α → Session}
    {g : α → List (Listener × SessionEvent)} (hf : ∀ s a, Calls s (f s a) (g a)) (as : List α)
    (s : Session) : Calls s (as.foldl f s) (as.flatMap g) := by
  induction as generalizing s with
  | nil => exact .refl s
  | cons a as ih => exact (hf s a).trans (ih (f s a))

/-- What a loop does none of whose turns calls anybody. -/
theorem foldl_nil {α : Type} {f : Session → α → Session} (hf : ∀ s a, Calls s (f s a) [])
    (as : List α) (s : Session) : Calls s (as.foldl f s) [] := by
  have h := foldl hf as s
  rwa [List.flatMap_eq_nil_iff.2 fun _ _ => rfl] at h

end Calls

theorem calls_request (s : Session) (r : HandleRequest) : Calls s (s.request r) [] := by
  have hask : Calls s (s.ask r).2 [] := by
    rw [ask]
    split
    · cases r with
      | stop reason => exact .enqueue s _
      | offer solution =>
        dsimp only
        split
        · exact .enqueue s _
        · exact .refl s
    · exact .refl s
  exact hask.trans (.emit _ _)

/-- Telling an event calls the listeners of its channel. -/
theorem calls_fire (s : Session) (e : SessionEvent) : Calls s (s.fire e) (s.calls e) := by
  have hcall (s : Session) (l : Listener) : Calls s (callListener e s l) [(l, e)] :=
    (Calls.emit s (.call l e)).trans (.foldl_nil calls_request l.reaction _)
  have h := Calls.foldl hcall (s.registry.on e.channel) s
  rw [← List.map_eq_flatMap] at h
  rw [fire]
  split
  · exact h
  · exact (List.append_nil (s.calls e)) ▸ h.trans (.emit _ (.publish e))

theorem Calls.fire (h : Calls s s' (es.flatMap s.calls)) (e : SessionEvent) :
    Calls s (s'.fire e) ((es ++ [e]).flatMap s.calls) := by
  have hfire := calls_fire s' e
  rw [calls_congr h.listeners] at hfire
  rw [List.flatMap_append, List.flatMap_singleton]
  exact h.trans hfire

theorem Calls.close (h : Calls s s' (es.flatMap s.calls)) :
    Calls s s'.close ((es ++ [SessionEvent.close]).flatMap s.calls) :=
  have hfire := h.fire SessionEvent.close
  ⟨hfire.answer, hfire.failure, hfire.listeners, hfire.called⟩

theorem calls_report_fire (s : Session) (n : Notice) (e : SessionEvent) :
    Calls s ((s.report n).fire e) ([e].flatMap s.calls) :=
  have hreport : Calls s (s.report n) (List.flatMap s.calls []) := .report s n
  hreport.fire e

theorem calls_writeLine (s : Session) (complaint line : String) :
    Calls s (s.writeLine complaint line) [] := by
  rw [writeLine]
  split
  · exact .emit s _
  · exact .report s _

theorem calls_keep (s : Session) (job : Job) (text : String) : Calls s (s.keep job text).1 [] := by
  rw [Session.keep]
  split
  · dsimp only
    split
    · exact .foldl_nil (fun s line => .emit s _) _ s
    · exact .refl s
  · dsimp only
    split
    · exact (Calls.keep s _).trans (.report _ _)
    · exact .keep s _

theorem calls_relay (s : Session) (job : Job) (text : String) (e : SessionEvent) :
    Calls s (s.relay job text e) (s.calls e) := by
  have hkeep := calls_keep s job text
  have h := hkeep.trans (calls_fire (s.keep job text).1 e)
  rw [calls_congr hkeep.listeners, List.nil_append] at h
  rw [relay]
  dsimp only
  split
  · simpa using h.trans (calls_writeLine _ _ _)
  · exact h

theorem calls_deliver (s : Session) : Calls s s.deliver [] := by
  rw [deliver]
  split
  · exact ((Calls.enqueue s _).trans (.report _ _)).trans (calls_writeLine _ _ _)
  · exact (Calls.enqueue s _).trans (calls_writeLine _ _ _)
  · exact .refl s

/-! ### Records -/

/-- The error that ends a job, if one does. -/
def errorOf? : Except SessionError Event → Option SessionError
  | .ok _ => none
  | .error e => some e

/-- The listeners were told these events, the answer has the record of them, and the failure is as
given. -/
structure Records (s s' : Session) (es : List SessionEvent) (failure : Option SessionError) :
    Prop where
  result : s'.answer.result = es.foldl SolveResult.record s.answer.result
  failure : s'.failure = failure
  listeners : s'.registry.listeners = s.registry.listeners
  called : s'.called = s.called ++ es.flatMap s.calls

theorem Records.trans {f f' : Option SessionError} (h : Records s s' es f)
    (h' : Records s' s'' es' f') : Records s s'' (es ++ es') f' :=
  ⟨by rw [h'.result, h.result, List.foldl_append], h'.failure, h'.listeners.trans h.listeners, by
    rw [h'.called, h.called, calls_congr h.listeners, List.flatMap_append, List.append_assoc]⟩

theorem Calls.mute {failure : Option SessionError} (h : Calls s s' []) (hf : s.failure = failure) :
    Records s s' [] failure :=
  ⟨congrArg (·.result) h.answer, h.failure.trans hf, h.listeners, h.called⟩

/-- A session that works on an answer with the record of what it tells. -/
theorem Calls.records {a : Answer} (h : Calls { s with answer := a } s' (es.flatMap s.calls))
    (ha : a.result = es.foldl SolveResult.record s.answer.result) : Records s s' es s.failure :=
  ⟨h.answer ▸ ha, h.failure, h.listeners, h.called⟩

theorem records_fail (s : Session) (job : Job) (e : SessionError) :
    Records s (s.fail job e) [.error e, .close] (some e) := by
  have h := (calls_report_fire { s with state := .errored, failure := some e }
    (.engineError job.task e) (.error e)).close
  exact ⟨congrArg (·.result) h.answer, h.failure, h.listeners, h.called⟩

theorem records_finish (s : Session) : Records s s.finish [.close] s.failure := by
  let s₀ : Session := { s with state := .finished }
  have hrefl : Calls s₀ s₀ (List.flatMap s₀.calls []) := .refl s₀
  have h := hrefl.close
  exact ⟨congrArg (·.result) h.answer, h.failure, h.listeners, h.called⟩

theorem records_relay (s : Session) (job : Job) (text : String) {e : SessionEvent}
    (he : ∀ r : SolveResult, r.record e = r) : Records s (s.relay job text e) [e] s.failure := by
  have h := calls_relay s job text e
  refine ⟨?_, h.failure, h.listeners, by rw [h.called, List.flatMap_singleton]⟩
  rw [h.answer, List.foldl_cons, he]
  rfl

/-- An answer that is no result is not recorded. -/
theorem records_answer (s : Session) (n : Notice) {a : Answer} (ha : a.result = s.answer.result) :
    Records s { s.report n with answer := a }.finish [.close] s.failure := by
  have hreport := Calls.report s n
  have h : Records s { s.report n with answer := a } [] s.failure :=
    ⟨ha, hreport.failure, hreport.listeners, hreport.called⟩
  exact h.trans (records_finish _)

/-- A message that comes in while the job runs, and is not the end of another task. -/
theorem records_take (hf : s.failure = none) (job : Job) (line : String) {e : Event}
    (hends : e.isFinal = true → job.task.isEndedBy e = true) :
    match job.task.verdict? line e with
    | none => Records s (s.take job e) e.told?.toList none
    | some en => Records s (s.take job e) (closing en) (errorOf? en) := by
  cases e with
  | log text | trace text | warning text => exact hf ▸ records_relay s job text fun _ => rfl
  | error text => exact records_fail s job _
  | solution found =>
    exact hf ▸ (calls_report_fire { s with answer := { s.answer with
      result := s.answer.result.addSolution found } } _ _).records rfl
  | lowerBound solveTime value =>
    exact hf ▸ (calls_report_fire { s with answer := { s.answer with
      result := s.answer.result.addLowerBound ⟨solveTime, value⟩ } } _ _).records rfl
  | summary summary =>
    rw [verdict?_eq_ok rfl (hends rfl)]
    have h := calls_report_fire s (.solveEnd summary) (.summary summary)
    have hsummary : Records s { (s.report (.solveEnd summary)).fire (.summary summary) with
        answer := { ((s.report (.solveEnd summary)).fire (.summary summary)).answer with
          result := { ((s.report (.solveEnd summary)).fire (.summary summary)).answer.result with
            summary := some summary } } } [.summary summary] none :=
      ⟨by rw [h.answer]; rfl, h.failure.trans hf, h.listeners, h.called⟩
    have hfinish := hsummary.trans (records_finish _)
    rw [hsummary.failure] at hfinish
    exact hfinish
  | domains d =>
    rw [verdict?_eq_ok rfl (hends rfl)]
    have h := records_answer s (.propagated d) (a := { s.answer with domains := some d }) rfl
    rw [hf] at h
    exact h
  | text content =>
    rw [verdict?_eq_ok rfl (hends rfl)]
    have h := records_answer s (.textReady content) (a := { s.answer with text := some content }) rfl
    rw [hf] at h
    exact h

/-! ### Steps and runs -/

/-- An input of a session that runs: what it tells is recorded. -/
theorem records_step (hr : s.isRunning = true) (hjob : s.job = some job) (hf : s.failure = none)
    (i : Input) :
    match job.ending? i with
    | none => Records s (s.step i) (job.relayed? i).toList none
    | some en => Records s (s.step i) (closing en) (errorOf? en) := by
  cases i with
  | line text =>
    obtain ⟨he, hend, hrel⟩ | ⟨e, he, hend⟩ | ⟨e, hends, he, hend, hrel⟩ :=
      receive_cases hr hjob text
    · rw [step, he, hend, hrel]
      exact (Calls.refl s).mute hf
    · rw [step, he, hend]
      exact records_fail s job e
    · rw [step, he, hend, hrel]
      exact records_take hf job text hends
  | garbled =>
    rw [step, garbled, hr, hjob]
    exact records_fail s job _
  | ended =>
    rw [step, streamEnded, hr, hjob]
    exact records_fail s job _
  | deaf => exact ⟨rfl, hf, rfl, (List.append_nil _).symm⟩
  | deliver => exact (calls_deliver s).mute hf
  | request r => exact (calls_request s r).mute hf

/-- A session that does not run tells nothing. -/
theorem records_rest (hr : s.isRunning = false) (inputs : List Input) :
    Records s (s.run inputs) [] s.failure := by
  induction inputs generalizing s with
  | nil => exact (Calls.refl s).mute rfl
  | cons i inputs ih =>
    have hstep : Calls s (s.step i) [] := by
      obtain he | he | ⟨r, he⟩ := step_of_not_running hr i <;> rw [he]
      · exact .refl s
      · exact ⟨rfl, rfl, rfl, (List.append_nil _).symm⟩
      · exact .emit s _
    have hrest := ih (by rw [isRunning, (rests_step hr i).state]; exact hr)
    rw [hstep.failure] at hrest
    exact (hstep.mute rfl).trans hrest

end Session

namespace Job

variable {job : Job}

/-- What inputs tell about a job that an engine works on: what comes before the end, and the end. -/
def eventsOf (job : Job) (inputs : List Session.Input) : List SessionEvent :=
  (inputs.takeWhile fun i => (job.ending? i).isNone).filterMap job.relayed? ++
    ((inputs.findSome? job.ending?).map closing).getD []

/-- What is told about a job in all. -/
def told (job : Job) (launched : Except SessionError Unit) (inputs : List Session.Input) :
    List SessionEvent :=
  (job.heard launched inputs).filterMap job.relayed? ++
    ((job.endOf? launched inputs).map closing).getD []

theorem eventsOf_cons_none {i : Session.Input} (h : job.ending? i = none)
    (inputs : List Session.Input) :
    job.eventsOf (i :: inputs) = (job.relayed? i).toList ++ job.eventsOf inputs := by
  rw [eventsOf, eventsOf, List.takeWhile_cons, List.findSome?_cons, h]
  cases hrel : job.relayed? i <;> simp [hrel]

theorem eventsOf_cons_some {i : Session.Input} {en : Except SessionError Event}
    (h : job.ending? i = some en) (inputs : List Session.Input) :
    job.eventsOf (i :: inputs) = closing en := by
  simp [eventsOf, h]

section Launch

variable {launched : Except SessionError Unit} {e : SessionError}

theorem endOf?_of_obstacle (h : job.obstacle? launched = some e) (inputs : List Session.Input) :
    job.endOf? launched inputs = some (.error e) := by rw [endOf?, h]

theorem told_of_obstacle (h : job.obstacle? launched = some e) (inputs : List Session.Input) :
    job.told launched inputs = [.error e, .close] := by rw [told, heard, endOf?_of_obstacle h, h]; rfl

theorem endOf?_of_no_obstacle (h : job.obstacle? launched = none) (inputs : List Session.Input) :
    job.endOf? launched inputs = inputs.findSome? job.ending? := by rw [endOf?, h]

theorem told_of_no_obstacle (h : job.obstacle? launched = none) (inputs : List Session.Input) :
    job.told launched inputs = job.eventsOf inputs := by
  rw [told, heard, endOf?_of_no_obstacle h, h, eventsOf]

end Launch

/-- What ends a task well is the event that it asks for. -/
theorem isEndedBy_of_ending? {i : Session.Input} {e : Event} (h : job.ending? i = some (.ok e)) :
    job.task.isEndedBy e = true := by
  have hverdict {line : String} {e' : Event} (h : job.task.verdict? line e' = some (.ok e)) :
      job.task.isEndedBy e = true := by
    rw [Task.verdict?.eq_def] at h
    split at h
    · cases h
    · split at h
      · cases h
      · split at h
        · rename_i hends
          cases h
          exact hends
        · cases h
  cases i with
  | line text =>
    rw [ending?] at h
    split at h
    · cases h
    · split at h
      · cases h
      · exact hverdict h
  | garbled | ended | deaf | deliver | request => cases h

theorem isEndedBy_of_endOf? {launched : Except SessionError Unit} {inputs : List Session.Input}
    {e : Event} (h : job.endOf? launched inputs = some (.ok e)) : job.task.isEndedBy e = true := by
  rw [endOf?] at h
  split at h
  · cases h
  · obtain ⟨i, -, hi⟩ := List.exists_of_findSome?_eq_some h
    exact isEndedBy_of_ending? hi

theorem summary?_of_relayed? {i : Session.Input} {e : SessionEvent} (h : job.relayed? i = some e) :
    e.summary? = none := by
  cases i with
  | line text =>
    rw [relayed?] at h
    split at h
    · cases h
    · obtain ⟨ev, -, hev⟩ := Option.bind_eq_some_iff.1 h
      cases ev <;> cases hev <;> rfl
  | garbled | ended | deaf | deliver | request => cases h

end Job

namespace Session

variable {s s' s'' : Session} {job : Job} {es es' : List SessionEvent}

/-- The inputs of a session that runs: it records what it tells, and fails with the error that ends
the job. -/
theorem records_run (hr : s.isRunning = true) (hjob : s.job = some job) (hf : s.failure = none)
    (inputs : List Input) :
    Records s (s.run inputs) (job.eventsOf inputs) ((inputs.findSome? job.ending?).bind errorOf?) ∧
      (s.run inputs).published = s.published ++ s.audible (job.eventsOf inputs) ∧
      (s.run inputs).state = ((inputs.findSome? job.ending?).map stateAfter).getD .running := by
  induction inputs generalizing s with
  | nil =>
    have hstate : s.state = .running := by simpa [isRunning] using hr
    exact ⟨(Calls.refl s).mute hf, by rw [Job.eventsOf]; simp [run, audible_nil], hstate⟩
  | cons i inputs ih =>
    have hstep := step_cases hr hjob i
    have hrecords := records_step hr hjob hf i
    have hrun : s.run (i :: inputs) = (s.step i).run inputs := rfl
    rw [hrun, List.findSome?_cons]
    cases hend : job.ending? i with
    | none =>
      rw [hend] at hstep hrecords
      have htells := Goes.tells hstep
      obtain ⟨hrest, hpub, hstate⟩ :=
        ih (htells.isRunning.trans hr) (htells.job.trans hjob) (Records.failure hrecords)
      rw [Job.eventsOf_cons_none hend]
      refine ⟨Records.trans hrecords hrest, ?_, hstate⟩
      rw [hpub, htells.published, audible_congr htells.registry, audible_append, List.append_assoc]
    | some en =>
      rw [hend] at hstep hrecords
      have hends : Ends job s (s.step i) (stateAfter en) _ := hstep
      have hrest := rests_run hends.isRunning inputs
      have hmute := records_rest hends.isRunning inputs
      rw [Records.failure hrecords] at hmute
      rw [Job.eventsOf_cons_some hend]
      refine ⟨?_, ?_, hrest.state.trans hends.state⟩
      · simpa using Records.trans hrecords hmute
      · rw [hrest.published, hends.published]

/-! ### Whole lives -/

theorem calls_requests (s : Session) (rs : List HandleRequest) :
    Calls s (s.run (rs.map .request)) [] := by
  rw [run, List.foldl_map]
  exact .foldl_nil calls_request rs s

/-- Until there is an engine, nothing is told. -/
theorem exists_unheard (registry : Registry) (sink : Option Sink)
    (before early : List HandleRequest) (job : Job) :
    ∃ s, s.isRunning = true ∧ s.job = some job ∧ s.registry = registry ∧ s.published = [] ∧
      Calls (fresh registry sink) s [] ∧
      ∀ launched inputs, lifetime registry sink before early job launched inputs =
        (s.launch job launched).run inputs := by
  obtain ⟨more, h, hp⟩ := adds_requests (fresh registry sink) before
  obtain ⟨more', h', hp'⟩ :=
    adds_requests (((fresh registry sink).run (before.map .request)).accept job) early
  have haccept : Calls ((fresh registry sink).run (before.map .request))
      (((fresh registry sink).run (before.map .request)).accept job) [] :=
    ⟨rfl, rfl, rfl, by simp [called, accept, Session.report, Session.emit, Effect.called?]⟩
  refine ⟨_, h'.isRunning, h'.job, h'.registry.trans h.registry, ?_,
    ((calls_requests _ before).trans haccept).trans (calls_requests _ early), fun _ _ => rfl⟩
  rw [h'.tells.published, hp', List.append_nil, accept,
    (Adds.report { (fresh registry sink).run (before.map .request) with
      state := .running, job := some job } _).tells.published]
  show ((fresh registry sink).run (before.map .request)).published ++ [] = []
  rw [h.tells.published, hp]
  rfl

theorem records_lifetime (registry : Registry) (sink : Option Sink)
    (before early : List HandleRequest) (job : Job) (launched : Except SessionError Unit)
    (inputs : List Input) :
    Records (fresh registry sink) (lifetime registry sink before early job launched inputs)
        (job.told launched inputs) ((job.endOf? launched inputs).bind errorOf?) ∧
      (lifetime registry sink before early job launched inputs).published =
        (if registry.subscriptions.isEmpty then [] else job.told launched inputs) ∧
      (lifetime registry sink before early job launched inputs).state =
        ((job.endOf? launched inputs).map stateAfter).getD .running := by
  obtain ⟨s, hr, hjob, rfl, hpub, hcalls, hlife⟩ := exists_unheard registry sink before early job
  rw [hlife, ← audible]
  cases hob : job.obstacle? launched with
  | some e =>
    rw [launch_of_obstacle hob, Job.told_of_obstacle hob, Job.endOf?_of_obstacle hob]
    have hend := ends_fail s job e
    have hfail := records_fail s job e
    have hstop : (s.fail job e).isRunning = false := by rw [isRunning, hend.state]; rfl
    have hrest := rests_run hstop inputs
    have hmute := records_rest hstop inputs
    rw [hfail.failure] at hmute
    refine ⟨((hcalls.mute rfl).trans hfail).trans hmute, ?_, hrest.state.trans hend.state⟩
    rw [hrest.published, hend.published, hpub]
    rfl
  | none =>
    obtain ⟨line, -, -, hlaunch⟩ := launch_of_no_obstacle hob
    have hwrite := hcalls.trans (.emit s (.write line))
    obtain ⟨hrun, hrunpub, hstate⟩ :=
      records_run (s := s.emit (.write line)) hr hjob hcalls.failure inputs
    have hemit : (s.emit (.write line)).published = [] := by
      simpa [published, emit, Effect.published?] using hpub
    rw [hlaunch, Job.told_of_no_obstacle hob, Job.endOf?_of_no_obstacle hob]
    refine ⟨(hwrite.mute rfl).trans hrun, ?_, hstate⟩
    rw [hrunpub, hemit]
    rfl

/-- What is told about a solve has a summary exactly if the solve ends with it. -/
theorem isSome_summary_iff {launched : Except SessionError Unit} {inputs : List Input}
    (htask : job.task = .solve) :
    (SolveResult.ofEvents (job.told launched inputs)).summary.isSome = true ↔
      ((job.endOf? launched inputs).map stateAfter).getD .running = .finished := by
  have hheard : ((job.heard launched inputs).filterMap job.relayed?).filterMap
      SessionEvent.summary? = [] := by
    refine List.filterMap_eq_nil_iff.2 fun e he => ?_
    obtain ⟨i, -, hi⟩ := List.mem_filterMap.1 he
    exact Job.summary?_of_relayed? hi
  rw [SolveResult.ofEvents, Job.told]
  dsimp only
  rw [List.filterMap_append, hheard, List.nil_append]
  cases hend : job.endOf? launched inputs with
  | none => simp
  | some en =>
    cases en with
    | error e => simp [closing, stateAfter, SessionEvent.summary?]
    | ok e =>
      have hended := Job.isEndedBy_of_endOf? hend
      rw [htask] at hended
      cases e with
      | summary summary => simp [closing, stateAfter, SessionEvent.summary?]
      | _ => cases hended

/-- The result of a session that solves agrees with its events, whatever handles ask for and the
engine sends. Each event that is told calls the listeners of its channel and goes to the
subscriptions; the result is the one that these events tell, with a summary exactly if the solve is
finished. That result is returned unless the solve failed and nobody listens for errors; then the
error is. -/
theorem result_lifetime (registry : Registry) (sink : Option Sink)
    (before early : List HandleRequest) (job : Job) (launched : Except SessionError Unit)
    (inputs : List Input) (htask : job.task = .solve) :
    let s := lifetime registry sink before early job launched inputs
    let es := job.told launched inputs
    s.called = es.flatMap (fun e => (registry.on e.channel).map (·, e)) ∧
    s.published = (if registry.subscriptions.isEmpty then [] else es) ∧
    s.answer.result = SolveResult.ofEvents es ∧
    (s.answer.result.summary.isSome = true ↔ s.state = .finished) ∧
    s.outcome? = (job.endOf? launched inputs).map fun en =>
      match en with
      | .ok _ => .ok s.answer
      | .error e => if registry.hearsErrors then .ok s.answer else .error e := by
  intro s es
  obtain ⟨hrecords, hpub, hstate⟩ :=
    records_lifetime registry sink before early job launched inputs
  have hresult : s.answer.result = SolveResult.ofEvents es := by
    rw [← SolveResult.foldl_record]
    exact hrecords.result
  refine ⟨hrecords.called, hpub, hresult, ?_, ?_⟩
  · rw [hresult, isSome_summary_iff htask, ← hstate]
  · have hhears : s.registry.hearsErrors = registry.hearsErrors := by
      rw [Registry.hearsErrors, Registry.hearsErrors, Registry.on, Registry.on,
        hrecords.listeners]
      rfl
    have hfailure : s.failure = _ := hrecords.failure
    have hstate : s.state = _ := hstate
    rw [outcome?, hfailure, hstate, hhears]
    cases job.endOf? launched inputs with
    | none => rfl
    | some en => cases en <;> rfl

/-- A bound, found after a second, as an engine tells it. -/
def boundJson (value : Int) : Json :=
  .obj [("msg", .str "lowerBound"), ("solveTime", .int 1), ("value", .int value)]

/-- Two bounds and a garbled line, with listeners for bounds and errors. -/
theorem result_lifetime_twoBounds :
    let job : Job := ⟨.solve, Model.empty 0 none, Parameters.empty, none⟩
    let registry : Registry := ⟨2, [⟨1, .error, []⟩, ⟨2, .lowerBound, [.stop "enough"]⟩], []⟩
    let line (value : Int) : Input := .line (boundJson value).compact
    let s := lifetime registry none [] [] job (.ok ()) [line 7, line 9, .garbled, line 8]
    job.task = .solve ∧
      s.answer.result.lowerBoundHistory = [⟨.ofInt 1, .ofInt 7⟩, ⟨.ofInt 1, .ofInt 9⟩] ∧
      s.answer.result.bestLowerBound = some (.ofInt 9) ∧ s.answer.result.summary = none ∧
      s.outcome? = some (.ok s.answer) := by
  intro job registry line s
  have hread (value : Int) (hplain : Json.Plain Json.Faithful (boundJson value)) :
      Event.read job.model (boundJson value).compact =
        .ok (.lowerBound (.ofInt 1) (.ofInt value)) := by
    rw [Event.read, Json.ofText?_compact hplain]
    rfl
  have hline (value : Int) (hplain : Json.Plain Json.Faithful (boundJson value))
      (hblank : (boundJson value).compact.toList.all isBlank = false) :
      job.ending? (line value) = none ∧
        job.relayed? (line value) = some (.lowerBound ⟨.ofInt 1, .ofInt value⟩) := by
    simp only [line, Job.relayed?, Job.ending?, hblank, hread value hplain]
    exact ⟨rfl, rfl⟩
  have hplain (value : Int) (hv : intMin ≤ value ∧ value ≤ wordMax) :
      Json.Plain Json.Faithful (boundJson value) := ⟨trivial, ⟨by decide, by decide⟩, hv, trivial⟩
  obtain ⟨hend7, htold7⟩ := hline 7 (hplain 7 (by decide)) (by decide +kernel)
  obtain ⟨hend9, htold9⟩ := hline 9 (hplain 9 (by decide)) (by decide +kernel)
  have hgarbled : job.ending? .garbled = some (.error .unreadable) := rfl
  have hob : job.obstacle? (.ok ()) = none := by
    unfold Job.obstacle? Job.line Job.command
    rfl
  have htold : job.told (.ok ()) [line 7, line 9, .garbled, line 8] =
      [.lowerBound ⟨.ofInt 1, .ofInt 7⟩, .lowerBound ⟨.ofInt 1, .ofInt 9⟩, .error .unreadable,
        .close] := by
    rw [Job.told_of_no_obstacle hob]
    simp [Job.eventsOf, hend7, hend9, htold7, htold9, hgarbled, closing]
  obtain ⟨-, -, hresult, -, houtcome⟩ := result_lifetime registry none [] [] job (.ok ())
    [line 7, line 9, .garbled, line 8] rfl
  have hends : job.endOf? (.ok ()) [line 7, line 9, .garbled, line 8] =
      some (.error .unreadable) := by
    rw [Job.endOf?_of_no_obstacle hob]
    simp [hend7, hend9, hgarbled]
  rw [htold] at hresult
  rw [hends] at houtcome
  refine ⟨rfl, ?_, ?_, ?_, houtcome⟩ <;> rw [hresult] <;> rfl

end Session

end Scheduling
