import Scheduling.Proofs.Session.Results
import Scheduling.Proofs.Text.Lines

/-!
# Texts of engines

Where the texts of an engine go over the whole life of a session (`kept_lifetime`). A sink gets the
lines of each text in order, each with a line feed; when there is no sink and the job prints its log,
they are printed. An empty text has no line: it leaves an empty line in a sink, but none on the
screen, and this is the only difference (`empty_text_unprinted`).

Nothing but the texts of the engine reaches the sink or is printed (`Quiet`), so each step of a
session hands on the texts that it tells (`Tees`).
-/

namespace Scheduling

/-! ### Texts and their lines -/

/-- Lines as one text, each with a line feed at its end. -/
def unlines (lines : List String) : String := String.join (lines.map (· ++ "\n"))

theorem unlines_append (lines lines' : List String) :
    unlines (lines ++ lines') = unlines lines ++ unlines lines' := by
  rw [unlines, List.map_append, String.join_append]
  rfl

/-- The lines that a sink gets: at least one. -/
def sinkLines (lines : List String) : List String := if lines = [] then [""] else lines

theorem Sink.form_eq (text : String) : form text = unlines (sinkLines (textLines text)) := by
  rw [form, sinkLines]
  split <;> rename_i hlines
  · rw [if_pos hlines]
    rfl
  · rw [if_neg hlines]
    rfl

/-- Each empty text makes the difference of one line feed. -/
theorem length_unlines_sinkLines (texts : List String) :
    (unlines ((texts.map textLines).flatMap sinkLines)).length =
      (unlines (texts.map textLines).flatten).length + texts.count "" := by
  induction texts with
  | nil => rfl
  | cons text texts ih =>
    rw [List.map_cons, List.flatMap_cons, List.flatten_cons, unlines_append, unlines_append,
      String.length_append, String.length_append, ih, sinkLines]
    by_cases h : text = ""
    · subst h
      have hnil : textLines "" = [] := rfl
      have hsink : (unlines [""]).length = (unlines []).length + 1 := rfl
      rw [hnil, if_pos rfl, hsink, List.count_cons_self]
      omega
    · rw [if_neg fun hnil => h (textLines_eq_nil.1 hnil), List.count_cons_of_ne h]
      omega

/-- Without empty texts, and only then, a sink gets the lines of the texts. -/
theorem unlines_sinkLines_eq_iff {texts : List String} :
    unlines (texts.map textLines).flatten = unlines ((texts.map textLines).flatMap sinkLines) ↔
      "" ∉ texts := by
  constructor
  · intro h hmem
    have hlength := length_unlines_sinkLines texts
    have hpos := List.count_pos_iff.2 hmem
    rw [h] at hlength
    omega
  · intro h
    rw [← List.flatMap_id']
    refine congrArg unlines (List.flatMap_congr fun lines hlines => ?_)
    obtain ⟨text, htext, rfl⟩ := List.mem_map.1 hlines
    have hne : text ≠ "" := fun hempty => h (hempty ▸ htext)
    rw [sinkLines, if_neg fun hnil => hne (textLines_eq_nil.1 hnil)]

theorem forall₂_linesOf_iff {texts : List String} {lss : List (List String)} :
    List.Forall₂ LinesOf texts lss ↔ lss = texts.map textLines := by
  constructor
  · intro h
    induction h with
    | nil => rfl
    | cons h _ ih => rw [List.map_cons, h.eq, ih]
  · rintro rfl
    induction texts with
    | nil => exact .nil
    | cons text texts ih => exact .cons (linesOf_iff.2 rfl) ih

/-! ### Sinks -/

namespace Sink

variable {k : Sink} {texts : List String}

/-- Takes a text of the engine. A sink that failed takes none. -/
def put (k : Sink) (text : String) : Sink := if k.failed then k else k.write (form text)

theorem foldl_put_of_failed (h : k.failed = true) (texts : List String) :
    texts.foldl put k = k := by
  induction texts with
  | nil => rfl
  | cons text texts ih => rw [List.foldl_cons, put, if_pos h, ih]

theorem text_put {text : String} (h : (k.put text).failed = false) :
    (k.put text).text = k.text ++ form text := by
  rw [put] at h ⊢
  split at h
  · rename_i hfailed
    rw [hfailed] at h
    cases h
  · rename_i hfailed
    rw [if_neg hfailed]
    rw [write] at h ⊢
    split at h
    · rename_i hfits
      rw [if_pos hfits]
    · cases h

/-- A sink that never failed holds all texts. -/
theorem text_foldl_put (h : (texts.foldl put k).failed = false) :
    (texts.foldl put k).text = k.text ++ unlines ((texts.map textLines).flatMap sinkLines) := by
  induction texts generalizing k with
  | nil => exact (String.append_empty).symm
  | cons text texts ih =>
    rw [List.foldl_cons] at h ⊢
    have hfine : (k.put text).failed = false := by
      by_contra hfailed
      rw [foldl_put_of_failed (by simpa using hfailed)] at h
      exact hfailed h
    rw [ih h, text_put hfine, form_eq, List.map_cons, List.flatMap_cons, unlines_append,
      String.append_assoc]

end Sink

/-! ### Texts that are told -/

/-- The text of the engine that an event tells. -/
def SessionEvent.text? : SessionEvent → Option String
  | log text | trace text | warning text => some text
  | _ => none

/-- The texts of the engine that a job receives. -/
def Job.texts (job : Job) (launched : Except SessionError Unit) (inputs : List Session.Input) :
    List String :=
  (job.told launched inputs).filterMap SessionEvent.text?

theorem filterMap_text?_closing (en : Except SessionError Event) :
    (closing en).filterMap SessionEvent.text? = [] := by
  cases en with
  | error e => rfl
  | ok e => cases e <;> rfl

theorem Event.told?_of_verdict? {e : Event} {t : Task} {line : String}
    {en : Except SessionError Event} (h : t.verdict? line e = some en) : e.told? = none := by
  cases e <;> first | rfl | cases h

/-- What ends a job is not passed on. -/
theorem Job.relayed?_of_ending? {job : Job} {i : Session.Input} {en : Except SessionError Event}
    (h : job.ending? i = some en) : job.relayed? i = none := by
  cases i with
  | line text =>
    rw [ending?] at h
    rw [relayed?]
    split at h
    · cases h
    · rename_i hblank
      rw [if_neg hblank]
      cases hread : Event.read job.model text with
      | error e => rfl
      | ok e =>
        rw [hread] at h
        exact e.told?_of_verdict? h
  | garbled | ended | deaf | deliver | request => rfl

/-- The line that is printed. -/
def Effect.printed? : Effect → Option String
  | print line => some line
  | _ => none

namespace Session

variable {s s' s'' : Session} {job : Job} {texts texts' : List String}

/-- The lines that are printed. -/
def printed (s : Session) : List String := s.effects.filterMap Effect.printed?

/-! ### Steps without a text -/

/-- The sink took nothing, and nothing was printed. -/
structure Quiet (s s' : Session) : Prop where
  sink : s'.sink = s.sink
  printed : s'.printed = s.printed

namespace Quiet

theorem refl (s : Session) : Quiet s s := ⟨rfl, rfl⟩

theorem trans (h : Quiet s s') (h' : Quiet s' s'') : Quiet s s'' :=
  ⟨h'.sink.trans h.sink, h'.printed.trans h.printed⟩

theorem emit (s : Session) {e : Effect} (he : e.printed? = none) : Quiet s (s.emit e) :=
  ⟨rfl, by simp [Session.printed, Session.emit, he]⟩

theorem report (s : Session) (n : Notice) : Quiet s (s.report n) := emit s rfl

theorem answer (h : Quiet s s') (answer : Answer) : Quiet s { s' with answer } :=
  ⟨h.sink, h.printed⟩

theorem foldl {α : Type} {f : Session → α → Session} (hf : ∀ s a, Quiet s (f s a)) (as : List α)
    (s : Session) : Quiet s (as.foldl f s) := by
  induction as generalizing s with
  | nil => exact .refl s
  | cons a as ih => exact (hf s a).trans (ih (f s a))

end Quiet

theorem quiet_request (s : Session) (r : HandleRequest) : Quiet s (s.request r) := by
  have hask : Quiet s (s.ask r).2 := by
    rw [ask]
    split
    · cases r with
      | stop reason => exact ⟨rfl, rfl⟩
      | offer solution =>
        dsimp only
        split
        · exact ⟨rfl, rfl⟩
        · exact .refl s
    · exact .refl s
  exact hask.trans (.emit _ rfl)

theorem quiet_requests (s : Session) (rs : List HandleRequest) :
    Quiet s (s.run (rs.map .request)) := by
  rw [run, List.foldl_map]
  exact .foldl quiet_request rs s

theorem quiet_fire (s : Session) (e : SessionEvent) : Quiet s (s.fire e) := by
  have hcall (s : Session) (l : Listener) : Quiet s (callListener e s l) :=
    (Quiet.emit s rfl).trans (.foldl quiet_request l.reaction _)
  have h := Quiet.foldl hcall (s.registry.on e.channel) s
  rw [fire]
  split
  · exact h
  · exact h.trans (.emit _ rfl)

theorem quiet_close (s : Session) : Quiet s s.close :=
  have hfire := quiet_fire s .close
  ⟨hfire.sink, hfire.printed⟩

theorem quiet_writeLine (s : Session) (complaint line : String) :
    Quiet s (s.writeLine complaint line) := by
  rw [writeLine]
  split
  · exact .emit s rfl
  · exact .report s _

theorem quiet_deliver (s : Session) : Quiet s s.deliver := by
  rw [deliver]
  split
  · rename_i rest _ _
    have hqueue : Quiet s { s with queue := rest } := ⟨rfl, rfl⟩
    exact (hqueue.trans (.report _ _)).trans (quiet_writeLine _ _ _)
  · rename_i rest _ _
    have hqueue : Quiet s { s with queue := rest } := ⟨rfl, rfl⟩
    exact hqueue.trans (quiet_writeLine _ _ _)
  · exact .refl s

theorem quiet_finish (s : Session) : Quiet s s.finish :=
  have hclose := quiet_close { s with state := .finished }
  ⟨hclose.sink, hclose.printed⟩

theorem quiet_fail (s : Session) (job : Job) (e : SessionError) : Quiet s (s.fail job e) := by
  have hstate : Quiet s { s with state := .errored, failure := some e } := ⟨rfl, rfl⟩
  exact ((hstate.trans (.report _ _)).trans (quiet_fire _ _)).trans (quiet_close _)

/-- A session that does not run takes no text. -/
theorem quiet_rest (hr : s.isRunning = false) (inputs : List Input) : Quiet s (s.run inputs) := by
  induction inputs generalizing s with
  | nil => exact .refl s
  | cons i inputs ih =>
    have hstep : Quiet s (s.step i) := by
      obtain he | he | ⟨r, he⟩ := step_of_not_running hr i <;> rw [he]
      · exact .refl s
      · exact ⟨rfl, rfl⟩
      · exact .emit s rfl
    exact hstep.trans (ih (by rw [isRunning, (rests_step hr i).state]; exact hr))

/-! ### Steps with texts -/

/-- These texts of the engine went to the sink. If there is none and the job says so their lines were
printed; a sink that did not fail lets nothing be printed. -/
structure Tees (job : Job) (s s' : Session) (texts : List String) : Prop where
  sink : s'.sink = s.sink.map (texts.foldl Sink.put)
  printed : s'.sinkFailed = false → s'.printed = s.printed ++
    if s.sink.isNone && job.printsLog then (texts.map textLines).flatten else []

theorem Quiet.tees (h : Quiet s s') : Tees job s s' [] :=
  ⟨h.sink.trans (by simp), fun _ => by rw [h.printed]; simp⟩

/-- A sink that did not fail had not failed before. -/
theorem Tees.sinkFailed_eq_false (h : Tees job s s' texts) (hfine : s'.sinkFailed = false) :
    s.sinkFailed = false := by
  rw [sinkFailed, h.sink] at hfine
  rw [sinkFailed]
  cases hk : s.sink with
  | none => rfl
  | some k =>
    by_contra hfailed
    have hfailed : k.failed = true := by simpa using hfailed
    rw [hk, Option.map_some, Sink.foldl_put_of_failed hfailed, Option.any_some, hfailed] at hfine
    cases hfine

theorem Tees.trans (h : Tees job s s' texts) (h' : Tees job s' s'' texts') :
    Tees job s s'' (texts ++ texts') := by
  refine ⟨?_, fun hfine => ?_⟩
  · rw [h'.sink, h.sink, Option.map_map]
    exact congrArg (Option.map · s.sink) (funext fun k => List.foldl_append.symm)
  · rw [h'.printed hfine, h.printed (h'.sinkFailed_eq_false hfine), h.sink, Option.isNone_map,
      List.append_assoc, List.map_append, List.flatten_append]
    split <;> rfl

/-- A sink that failed takes no text. What is printed then is not said. -/
theorem tees_of_failed {k : Sink} (hk : s.sink = some k) (hfailed : k.failed = true)
    (hsink : s'.sink = s.sink) : Tees job s s' texts := by
  refine ⟨?_, fun hfine => ?_⟩
  · rw [hsink, hk, Option.map_some, Sink.foldl_put_of_failed hfailed]
  · rw [sinkFailed, hsink, hk, Option.any_some, hfailed] at hfine
    cases hfine

theorem printed_foldl_print (lines : List String) (s : Session) :
    (lines.foldl (fun s line => s.emit (.print line)) s).printed = s.printed ++ lines ∧
      (lines.foldl (fun s line => s.emit (.print line)) s).sink = s.sink := by
  induction lines generalizing s with
  | nil => exact ⟨(List.append_nil _).symm, rfl⟩
  | cons line lines ih =>
    obtain ⟨hprinted, hsink⟩ := ih (s.emit (.print line))
    refine ⟨hprinted.trans ?_, hsink⟩
    simp [printed, emit, Effect.printed?]

/-- A text goes to the sink, or is printed where there is none. -/
theorem tees_keep (s : Session) (job : Job) (text : String) :
    Tees job s (s.keep job text).1 [text] := by
  rw [keep]
  cases hsink : s.sink with
  | none =>
    rw [Option.filter_none]
    dsimp only
    by_cases hprints : job.printsLog = true
    · obtain ⟨hprinted, hk⟩ := printed_foldl_print (textLines text) s
      rw [if_pos hprints]
      refine ⟨hk.trans (hsink ▸ rfl), fun _ => hprinted.trans ?_⟩
      simp [hsink, hprints]
    · rw [if_neg hprints]
      exact ⟨hsink ▸ rfl, fun _ => by simp [hprints]⟩
  | some k =>
    cases hfailed : k.failed with
    | true =>
      rw [Option.filter_some, if_neg (by simp [hfailed])]
      dsimp only
      split
      · exact tees_of_failed hsink hfailed (printed_foldl_print (textLines text) s).2
      · exact tees_of_failed hsink hfailed rfl
    | false =>
      have hput : s.sink.map ([text].foldl Sink.put) = some (k.write (Sink.form text)) := by
        rw [hsink, Option.map_some, List.foldl_cons, List.foldl_nil, Sink.put,
          if_neg (by simp [hfailed])]
      have hwrite (s' : Session) (h : Quiet { s with sink := some (k.write (Sink.form text)) } s') :
          Tees job s s' [text] :=
        ⟨h.sink.trans hput.symm, fun _ => h.printed.trans (by simp [printed, hsink])⟩
      rw [Option.filter_some, if_pos (by simp [hfailed])]
      dsimp only
      split
      · exact hwrite _ (.report _ _)
      · exact hwrite _ (.refl _)

theorem tees_relay (s : Session) (job : Job) (text : String) (e : SessionEvent) :
    Tees job s (s.relay job text e) [text] := by
  have h := (tees_keep s job text).trans (quiet_fire (s.keep job text).1 e).tees
  rw [relay]
  dsimp only
  split
  · exact h.trans (quiet_writeLine _ _ _).tees
  · exact h

theorem tees_take (s : Session) (job : Job) (e : Event) :
    Tees job s (s.take job e) (e.told?.toList.filterMap SessionEvent.text?) := by
  cases e with
  | log text | trace text | warning text => exact tees_relay s job text _
  | error text => exact (quiet_fail s job _).tees
  | solution found =>
    exact (((Quiet.report s (.solution found)).answer _).trans (quiet_fire _ _)).tees
  | lowerBound solveTime value =>
    exact (((Quiet.report s (.lowerBound ⟨solveTime, value⟩)).answer _).trans
      (quiet_fire _ _)).tees
  | summary summary =>
    have hfire := (Quiet.report s (.solveEnd summary)).trans (quiet_fire _ (.summary summary))
    exact ((hfire.answer _).trans (quiet_finish _)).tees
  | domains d => exact (((Quiet.report s (.propagated d)).answer _).trans (quiet_finish _)).tees
  | text content =>
    exact (((Quiet.report s (.textReady content)).answer _).trans (quiet_finish _)).tees

/-- A session that runs hands on the text that an input tells. -/
theorem tees_step (hr : s.isRunning = true) (hjob : s.job = some job) (i : Input) :
    Tees job s (s.step i) ((job.relayed? i).toList.filterMap SessionEvent.text?) := by
  cases i with
  | line text =>
    obtain ⟨he, -, hrel⟩ | ⟨e, he, hend⟩ | ⟨e, -, he, -, hrel⟩ := receive_cases hr hjob text
    · rw [step, he, hrel]
      exact (Quiet.refl s).tees
    · rw [step, he, Job.relayed?_of_ending? hend]
      exact (quiet_fail s job e).tees
    · rw [step, he, hrel]
      exact tees_take s job e
  | garbled =>
    rw [step, garbled, hr, hjob]
    exact (quiet_fail s job _).tees
  | ended =>
    rw [step, streamEnded, hr, hjob]
    exact (quiet_fail s job _).tees
  | deaf =>
    have hdeaf : Quiet s (s.step .deaf) := ⟨rfl, rfl⟩
    exact hdeaf.tees
  | deliver => exact (quiet_deliver s).tees
  | request r => exact (quiet_request s r).tees

/-! ### Runs -/

/-- The inputs of a session that runs: up to the end of the job it hands on their texts. -/
theorem tees_run (hr : s.isRunning = true) (hjob : s.job = some job) (inputs : List Input) :
    Tees job s (s.run inputs) ((job.eventsOf inputs).filterMap SessionEvent.text?) := by
  induction inputs generalizing s with
  | nil => exact (Quiet.refl s).tees
  | cons i inputs ih =>
    have hcases := step_cases hr hjob i
    have htees := tees_step hr hjob i
    have hrun : s.run (i :: inputs) = (s.step i).run inputs := rfl
    rw [hrun]
    cases hend : job.ending? i with
    | none =>
      rw [hend] at hcases
      have htells := Goes.tells hcases
      have hrest := ih (htells.isRunning.trans hr) (htells.job.trans hjob)
      rw [Job.eventsOf_cons_none hend, List.filterMap_append]
      exact htees.trans hrest
    | some en =>
      rw [hend] at hcases
      have hends : Ends job s (s.step i) (stateAfter en) _ := hcases
      rw [Job.relayed?_of_ending? hend] at htees
      rw [Job.eventsOf_cons_some hend, filterMap_text?_closing]
      exact htees.trans (quiet_rest hends.isRunning inputs).tees

theorem tees_lifetime (registry : Registry) (sink : Option Sink)
    (before early : List HandleRequest) (job : Job) (launched : Except SessionError Unit)
    (inputs : List Input) :
    Tees job (fresh registry sink) (lifetime registry sink before early job launched inputs)
      (job.texts launched inputs) := by
  have hbefore := quiet_requests (fresh registry sink) before
  rw [lifetime]
  generalize (fresh registry sink).run (before.map .request) = s at hbefore ⊢
  have haccept : Quiet s (s.accept job) := by
    have hjob : Quiet s { s with state := .running, job := some job } := ⟨rfl, rfl⟩
    exact hjob.trans (.report _ (.solveStart job))
  have hearly := quiet_requests (s.accept job) early
  obtain ⟨_, hadds, -⟩ := adds_requests (s.accept job) early
  generalize (s.accept job).run (early.map .request) = s' at hearly hadds ⊢
  have hquiet : Tees job _ s' [] := ((hbefore.trans haccept).trans hearly).tees
  rw [Job.texts]
  cases hob : job.obstacle? launched with
  | some e =>
    have hend := ends_fail s' job e
    have hstop : (s'.fail job e).isRunning = false := by rw [isRunning, hend.state]; rfl
    rw [launch_of_obstacle hob, Job.told_of_obstacle hob]
    exact hquiet.trans ((quiet_fail s' job e).trans (quiet_rest hstop inputs)).tees
  | none =>
    obtain ⟨line, -, -, hlaunch⟩ := launch_of_no_obstacle hob
    rw [hlaunch, Job.told_of_no_obstacle hob]
    have hwrite : Quiet s' (s'.emit (.write line)) := .emit s' rfl
    have hrun := tees_run (s := s'.emit (.write line)) hadds.isRunning hadds.job inputs
    exact hquiet.trans (hwrite.tees.trans hrun)

/-- Whatever handles ask for and the engine sends, a job that prints its log prints the lines of each
text in order when there is no sink. A sink that never fails gets them instead, each with a line feed,
and for an empty text, which has no line, an empty one. So what is printed is what a sink gets unless
some text is empty, and only then. -/
theorem kept_lifetime (registry : Registry) (limit : Option Nat)
    (before early : List HandleRequest) (job : Job) (launched : Except SessionError Unit)
    (inputs : List Input) (hprints : job.printsLog = true)
    (hfine : (lifetime registry (some (.empty limit)) before early job launched inputs).sinkFailed =
      false) :
    let onScreen := lifetime registry none before early job launched inputs
    let inSink := lifetime registry (some (.empty limit)) before early job launched inputs
    let texts := job.texts launched inputs
    ∃ lss, (∀ lss', List.Forall₂ LinesOf texts lss' ↔ lss' = lss) ∧
      unlines onScreen.printed = unlines lss.flatten ∧
      inSink.kept = unlines (lss.flatMap sinkLines) ∧ inSink.printed = [] ∧
      (unlines onScreen.printed = inSink.kept ↔ "" ∉ texts) := by
  intro onScreen inSink texts
  have hscreen := tees_lifetime registry none before early job launched inputs
  have hsink := tees_lifetime registry (some (.empty limit)) before early job launched inputs
  have hprinted : onScreen.printed = (texts.map textLines).flatten := by
    have hnone : onScreen.sinkFailed = false := by rw [sinkFailed, hscreen.sink]; rfl
    rw [hscreen.printed hnone, hprints]
    rfl
  have hkept : inSink.kept = unlines ((texts.map textLines).flatMap sinkLines) := by
    have hsome : inSink.sink = some (texts.foldl Sink.put (.empty limit)) := hsink.sink
    rw [sinkFailed, hsome, Option.any_some] at hfine
    rw [kept, hsome]
    exact (Sink.text_foldl_put hfine).trans String.empty_append
  refine ⟨texts.map textLines, fun _ => forall₂_linesOf_iff, congrArg unlines hprinted, hkept,
    hsink.printed hfine, ?_⟩
  rw [hprinted, hkept]
  exact unlines_sinkLines_eq_iff

/-- A solve that prints its log. -/
def loudJob : Job :=
  ⟨.solve, Model.empty 0 none, { Parameters.empty with printLog := some true }, none⟩

theorem kept_lifetime_lineBreaks :
    let inputs : List Input := [.line (EventRecord.log "one\r\ntwo").toJson.compact,
      .line (EventRecord.trace "\n").toJson.compact]
    let onScreen := lifetime .empty none [] [] loudJob (.ok ()) inputs
    let inSink := lifetime .empty (some (.empty (some 9))) [] [] loudJob (.ok ()) inputs
    loudJob.printsLog = true ∧ inSink.sinkFailed = false ∧
      loudJob.texts (.ok ()) inputs = ["one\r\ntwo", "\n"] ∧
      unlines onScreen.printed = "one\ntwo\n\n" ∧ inSink.kept = "one\ntwo\n\n" := by
  intro inputs onScreen inSink
  have hprints : loudJob.printsLog = true := rfl
  have hfine : inSink.sinkFailed = false := by decide +kernel
  have htexts : loudJob.texts (.ok ()) inputs = ["one\r\ntwo", "\n"] := by decide +kernel
  obtain ⟨lss, hlss, hprinted, -, -, heq⟩ := kept_lifetime .empty (some 9) [] [] loudJob (.ok ())
    inputs hprints hfine
  rw [htexts] at hlss heq
  have hlines := (hlss [["one", "two"], [""]]).1 (forall₂_linesOf_iff.2 (by decide))
  have hscreen : unlines onScreen.printed = "one\ntwo\n\n" := by
    rw [hprinted, ← hlines]
    decide
  exact ⟨hprints, hfine, htexts, hscreen, (heq.2 (by decide)).symm.trans hscreen⟩

/-- An empty text of the engine leaves a line feed in a sink, but none on the screen. -/
theorem empty_text_unprinted :
    let inputs : List Input := [.line (EventRecord.log "").toJson.compact]
    let onScreen := lifetime .empty none [] [] loudJob (.ok ()) inputs
    let inSink := lifetime .empty (some (.empty none)) [] [] loudJob (.ok ()) inputs
    loudJob.printsLog = true ∧ inSink.sinkFailed = false ∧ inSink.kept = "\n" ∧
      unlines onScreen.printed = "" := by
  decide +kernel

end Session

end Scheduling
