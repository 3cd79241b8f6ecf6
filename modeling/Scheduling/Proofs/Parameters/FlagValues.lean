import Mathlib.Data.List.Induction
import Scheduling.Proofs.Parameters.Flags

/-!
# The values that flags set

A command line of known flags with valid values (`Spells`, `FlagToken.Valid`) gives every field the
value it is given last: a field of the solve by its flag, a field of a worker by the flags for ranges
that contain the worker, and only without any of these by the flag for all workers
(`readFlags_of_spells`). The tables `FlagField.solve` and `FlagField.worker` say for every flag which
field it sets.
-/

namespace Scheduling

/-! ## Fields -/

/-- A field of a record with a flag of its name: how a value is read, and where it is kept. -/
structure FlagField (ρ : Type) where
  name : String
  Value : Type
  read : String → Except String Value
  get : ρ → Option Value
  set : ρ → Option Value → ρ
  get_set : ∀ r v, get (set r v) = v

namespace FlagField

variable {ρ : Type}

/-- Setting the field leaves what `g` looks at as it is. -/
def Keeps {β : Type} (F : FlagField ρ) (g : ρ → β) : Prop := ∀ r v, g (F.set r v) = g r

/-- The flag sets the field. -/
structure Of (F : FlagField ρ) (f : Flag ρ) : Prop where
  name : f.name = F.name
  apply : ∀ text r, f.apply text r = (F.read text).map fun v => F.set r (some v)
  /-- A switch can be given either truth value. -/
  truth : f.takesValue = false →
    ∀ text, text = "true" ∨ text = "false" → ∃ v, F.read text = .ok v

/-- The value of the last of the texts given to the field. -/
def last? (F : FlagField ρ) (texts : List String) : Option F.Value :=
  texts.getLast?.bind fun text => (F.read text).toOption

/-- The fields of solves. -/
def solve : List (FlagField Parameters) :=
  [⟨"solver", String, .ok, (·.solver), fun p v => { p with solver := v }, fun _ _ => rfl⟩,
    ⟨"solverArgs", List String, fun text => .ok (words text), (·.solverArgs),
      fun p v => { p with solverArgs := v }, fun _ _ => rfl⟩,
    ⟨"printLog", Bool, Flag.truth, (·.printLog), fun p v => { p with printLog := v },
      fun _ _ => rfl⟩,
    ⟨"nbWorkers", Nat, Flag.natural halfWordMax, (·.nbWorkers),
      fun p v => { p with nbWorkers := v }, fun _ _ => rfl⟩,
    ⟨"timeLimit", Float, Flag.float, (·.timeLimit), fun p v => { p with timeLimit := v },
      fun _ _ => rfl⟩,
    ⟨"solutionLimit", Nat, Flag.natural wordMax, (·.solutionLimit),
      fun p v => { p with solutionLimit := v }, fun _ _ => rfl⟩,
    ⟨"logLevel", Nat, Flag.natural halfWordMax, (·.logLevel), fun p v => { p with logLevel := v },
      fun _ _ => rfl⟩,
    ⟨"logPeriod", Float, Flag.float, (·.logPeriod), fun p v => { p with logPeriod := v },
      fun _ _ => rfl⟩,
    ⟨"warningLevel", Nat, Flag.natural halfWordMax, (·.warningLevel),
      fun p v => { p with warningLevel := v }, fun _ _ => rfl⟩,
    ⟨"color", ColorMode, ColorMode.read, (·.color), fun p v => { p with color := v },
      fun _ _ => rfl⟩,
    ⟨"verifySolutions", Bool, Flag.truth, (·.verifySolutions),
      fun p v => { p with verifySolutions := v }, fun _ _ => rfl⟩,
    ⟨"absoluteGapTolerance", Float, Flag.float, (·.absoluteGapTolerance),
      fun p v => { p with absoluteGapTolerance := v }, fun _ _ => rfl⟩,
    ⟨"relativeGapTolerance", Float, Flag.float, (·.relativeGapTolerance),
      fun p v => { p with relativeGapTolerance := v }, fun _ _ => rfl⟩]

/-- The fields of workers. -/
def worker : List (FlagField WorkerParameters) :=
  [⟨"searchType", SearchType, SearchType.read, (·.searchType),
      fun w v => { w with searchType := v }, fun _ _ => rfl⟩,
    ⟨"randomSeed", Nat, Flag.natural wordMax, (·.randomSeed),
      fun w v => { w with randomSeed := v }, fun _ _ => rfl⟩,
    ⟨"failLimit", Nat, Flag.natural wordMax, (·.failLimit), fun w v => { w with failLimit := v },
      fun _ _ => rfl⟩,
    ⟨"branchLimit", Nat, Flag.natural wordMax, (·.branchLimit),
      fun w v => { w with branchLimit := v }, fun _ _ => rfl⟩,
    ⟨"lnsStepLimit", Nat, Flag.natural wordMax, (·.lnsStepLimit),
      fun w v => { w with lnsStepLimit := v }, fun _ _ => rfl⟩,
    ⟨"noOverlapPropagationLevel", Nat, Flag.natural halfWordMax, (·.noOverlapPropagationLevel),
      fun w v => { w with noOverlapPropagationLevel := v }, fun _ _ => rfl⟩,
    ⟨"cumulPropagationLevel", Nat, Flag.natural halfWordMax, (·.cumulPropagationLevel),
      fun w v => { w with cumulPropagationLevel := v }, fun _ _ => rfl⟩]

/-- Neither field is where the other one is kept. -/
def Apart (F G : FlagField ρ) : Prop := F.Keeps G.get ∧ G.Keeps F.get

theorem exists_truth {text : String} (h : text = "true" ∨ text = "false") :
    ∃ v, Flag.truth text = .ok v := by
  obtain rfl | rfl := h
  · exact ⟨true, rfl⟩
  · exact ⟨false, rfl⟩

theorem of_reading {α : Type} {name metavar help : String} {read : String → Except String α}
    {get : ρ → Option α} {set : ρ → Option α → ρ} {hs : ∀ r v, get (set r v) = v} :
    Of ⟨name, α, read, get, set, hs⟩ (Flag.reading name metavar help read set) :=
  ⟨rfl, fun _ _ => rfl, nofun⟩

theorem of_switch {name help : String} {get : ρ → Option Bool} {set : ρ → Option Bool → ρ}
    {hs : ∀ r v, get (set r v) = v} :
    Of ⟨name, Bool, Flag.truth, get, set, hs⟩ (Flag.switch name help set) :=
  ⟨rfl, fun _ _ => rfl, fun _ _ => exists_truth⟩

theorem solve_of : List.Forall₂ Of solve Flag.solve := by
  repeat' first | exact List.Forall₂.nil | apply List.Forall₂.cons
  all_goals first | exact of_reading | exact of_switch

theorem worker_of : List.Forall₂ Of worker Flag.worker := by
  repeat' first | exact List.Forall₂.nil | apply List.Forall₂.cons
  all_goals exact of_reading

theorem solve_apart : solve.Pairwise Apart := by
  simp [solve, Apart, Keeps]

theorem worker_apart : worker.Pairwise Apart := by
  simp [worker, Apart, Keeps]

theorem solve_keeps_search : ∀ F ∈ solve, F.Keeps (·.search) := by simp [solve, Keeps]

theorem solve_keeps_workers : ∀ F ∈ solve, F.Keeps (·.workers) := by simp [solve, Keeps]

theorem worker_keeps_internal : ∀ F ∈ worker, F.Keeps (·.internal) := by simp [worker, Keeps]

theorem get_of_search : ∀ F ∈ solve, ∀ p search, F.get { p with search } = F.get p := by
  simp [solve]

theorem get_of_workers : ∀ F ∈ solve, ∀ p workers, F.get { p with workers } = F.get p := by
  simp [solve]

theorem get_empty_solve : ∀ F ∈ solve, F.get .empty = none := by
  simp [solve, Parameters.empty]

theorem get_empty_worker : ∀ F ∈ worker, F.get .empty = none := by
  simp [worker, WorkerParameters.empty]

theorem get_combine : ∀ F ∈ worker, ∀ w other,
    F.get (w.combine other) = (F.get other <|> F.get w) := by
  simp [worker, WorkerParameters.combine]

theorem last?_append (F : FlagField ρ) (texts : List String) (text : String) :
    F.last? (texts ++ [text]) = (F.read text).toOption := by
  simp [last?]

theorem last?_cons {F : FlagField ρ} {texts : List String}
    (hread : ∀ text ∈ texts, ∃ v, F.read text = .ok v) (text : String) :
    F.last? (text :: texts) = (F.last? texts <|> (F.read text).toOption) := by
  obtain rfl | ⟨texts, last, rfl⟩ := List.eq_nil_or_concat texts
  · rfl
  · obtain ⟨v, hv⟩ := hread last (by simp)
    rw [List.concat_eq_append, ← List.cons_append, last?_append, last?_append, hv]
    rfl

end FlagField

/-! ## Tokens that set fields -/

/-- The values that a flag can be given: a text that is read, not empty; for a switch nothing or a
truth value. -/
inductive Flag.Accepts {ρ : Type} (f : Flag ρ) : Option String → Prop where
  | text {text : String} (hf : f.takesValue = true) (hne : text ≠ "")
      (hr : ∀ r, ∃ r', f.apply text r = .ok r') : f.Accepts (some text)
  | bare (hf : f.takesValue = false) : f.Accepts none
  | truth {text : String} (hf : f.takesValue = false) (ht : text = "true" ∨ text = "false") :
      f.Accepts (some text)

namespace FlagToken

/-- The token gives a field a value that its flag can be given. -/
inductive Valid : FlagToken → Prop where
  | solve {f : Flag Parameters} {value : Option String} (hf : f ∈ Flag.solve)
      (hv : f.Accepts value) : Valid (.plain f.name value)
  | default {f : Flag WorkerParameters} {value : Option String} (hf : f ∈ Flag.worker)
      (hv : f.Accepts value) : Valid (.plain f.name value)
  | workers {f : Flag WorkerParameters} {first last : Nat} {text : String} (hf : f ∈ Flag.worker)
      (hle : first ≤ last) (hv : f.Accepts (some text)) : Valid (.ranged first last f.name text)

/-- The text that a token gives to a field of the solve or of all workers. -/
def given? (name : String) : FlagToken → Option String
  | plain n value => if n = name then some (value.getD "true") else none
  | _ => none

/-- The text that a token gives to a field of one worker. -/
def givenTo? (i : Nat) (name : String) : FlagToken → Option String
  | ranged first last n text => if n = name ∧ first ≤ i ∧ i ≤ last then some text else none
  | _ => none

end FlagToken

namespace FlagTable

section Fields

variable {ρ : Type} {F : FlagField ρ} {f : Flag ρ} {fields : List (FlagField ρ)}
  {flags : List (Flag ρ)} {tokens : List FlagToken}

theorem lastValue?_eq (tokens : List FlagToken) (name : String) :
    lastValue? tokens name = (tokens.filterMap (·.given? name)).getLast? := by
  -- The last token decides, so the induction is from the end.
  induction tokens using List.reverseRecOn with
  | nil => rfl
  | append_singleton tokens t ih =>
    rw [lastValue?, List.foldl_append, ← lastValue?, ih, List.filterMap_append,
      List.getLast?_append]
    cases t with
    | plain n value => by_cases hn : n = name <;> simp [FlagToken.given?, hn]
    | help => simp [FlagToken.given?]
    | loose arg => simp [FlagToken.given?]
    | ranged first last n text => simp [FlagToken.given?]

theorem map_name_eq (hof : List.Forall₂ FlagField.Of fields flags) :
    flags.map Flag.name = fields.map FlagField.name := by
  induction hof with
  | nil => rfl
  | cons hf _ ih => rw [List.map_cons, List.map_cons, hf.name, ih]

/-- A flag of the name of a field is the flag that sets it. -/
theorem of_of_mem (hof : List.Forall₂ FlagField.Of fields flags)
    (hnames : (flags.map Flag.name).Nodup) (hF : F ∈ fields) (hf : f ∈ flags)
    (hname : f.name = F.name) : F.Of f := by
  induction hof with
  | nil => cases hF
  | @cons G g fields flags hg hrest ih =>
    obtain ⟨hfresh, hnames⟩ := List.nodup_cons.1 hnames
    obtain rfl | hF := List.mem_cons.1 hF <;> obtain rfl | hf := List.mem_cons.1 hf
    · exact hg
    · exact absurd (hg.name.trans hname.symm ▸ List.mem_map_of_mem hf) hfresh
    · rw [map_name_eq hrest, hname] at hfresh
      exact absurd (List.mem_map_of_mem hF) hfresh
    · exact ih hnames hF hf

theorem reads_of_accepts (hof : F.Of f) {value : Option String} (hv : f.Accepts value) (r : ρ) :
    ∃ v, F.read (value.getD "true") = .ok v := by
  cases hv with
  | text _ _ hr =>
    obtain ⟨r', hr⟩ := hr r
    rw [hof.apply] at hr
    obtain ⟨v, hv, -⟩ := exists_of_map_ok hr
    exact ⟨v, hv⟩
  | bare hf => exact hof.truth hf _ (.inl rfl)
  | truth hf ht => exact hof.truth hf _ ht

/-- Applying one flag gives its field the last value, and changes nothing else. -/
theorem applyFlags_cons (hof : F.Of f)
    (hread : ∀ text ∈ tokens.filterMap (·.given? F.name), ∃ v, F.read text = .ok v)
    (flags : List (Flag ρ)) (r : ρ) :
    ∃ r', applyFlags tokens (f :: flags) r = applyFlags tokens flags r' ∧
      F.get r' = (F.last? (tokens.filterMap (·.given? F.name)) <|> F.get r) ∧
      ∀ {β : Type} (g : ρ → β), F.Keeps g → g r' = g r := by
  rw [applyFlags, hof.name, lastValue?_eq]
  obtain htexts | ⟨texts, text, htexts⟩ :=
    List.eq_nil_or_concat (tokens.filterMap (·.given? F.name))
  · rw [htexts]
    exact ⟨r, rfl, rfl, fun _ _ => rfl⟩
  · rw [List.concat_eq_append] at htexts
    obtain ⟨v, hv⟩ := hread text (htexts ▸ List.mem_append_right _ List.mem_cons_self)
    rw [htexts, List.getLast?_concat, F.last?_append, hv]
    simp only [hof.apply, hv]
    exact ⟨F.set r (some v), rfl, F.get_set _ _, fun g hg => hg r _⟩

/-- Applying flags gives every field its last value, and changes nothing else. -/
theorem applyFlags_ok (hof : List.Forall₂ FlagField.Of fields flags)
    (hapart : fields.Pairwise FlagField.Apart)
    (hread : ∀ F ∈ fields, ∀ text ∈ tokens.filterMap (·.given? F.name), ∃ v, F.read text = .ok v)
    (r : ρ) :
    ∃ r', applyFlags tokens flags r = .ok r' ∧
      (∀ F ∈ fields,
        F.get r' = (F.last? (tokens.filterMap (·.given? F.name)) <|> F.get r)) ∧
      ∀ {β : Type} (g : ρ → β), (∀ F ∈ fields, F.Keeps g) → g r' = g r := by
  induction hof generalizing r with
  | nil => exact ⟨r, rfl, nofun, fun _ _ => rfl⟩
  | @cons F f fields flags hf _ ih =>
    obtain ⟨hF, hapart⟩ := List.pairwise_cons.1 hapart
    obtain ⟨hreadF, hread⟩ := List.forall_mem_cons.1 hread
    obtain ⟨r₁, happly, hget, hkeep⟩ := applyFlags_cons hf hreadF flags r
    obtain ⟨r₂, happly', hget', hkeep'⟩ := ih hapart hread r₁
    refine ⟨r₂, happly.trans happly', List.forall_mem_cons.2 ⟨?_, fun G hG => ?_⟩, fun g hg => ?_⟩
    · rw [hkeep' F.get fun G hG => (hF G hG).2, hget]
    · rw [hget' G hG, hkeep G.get (hF G hG).1]
    · obtain ⟨hgF, hg⟩ := List.forall_mem_cons.1 hg
      exact (hkeep' g hg).trans (hkeep g hgF)

end Fields

end FlagTable

/-! ## Records of single workers -/

namespace Parameters

/-- The record of a worker itself, without the defaults. -/
def own (p : Parameters) (i : Nat) : WorkerParameters := p.workers[i]?.getD .empty

theorem length_modifyWorker_le (p : Parameters) (i : Nat)
    (f : WorkerParameters → WorkerParameters) (n : Nat) :
    (p.modifyWorker i f).workers.length ≤ n ↔ p.workers.length ≤ n ∧ i < n := by
  simp only [modifyWorker, extended, List.length_modify, List.length_append, List.length_replicate]
  omega

theorem own_modifyWorker (p : Parameters) (i : Nat) (f : WorkerParameters → WorkerParameters)
    (j : Nat) : (p.modifyWorker i f).own j = if j = i then f (p.own j) else p.own j := by
  have hext : (p.extended i).own j = p.own j := by
    simp only [own, extended, List.getElem?_append, List.getElem?_replicate]
    split
    · rfl
    · rename_i hj
      rw [List.getElem?_eq_none (Nat.le_of_not_lt hj)]
      split <;> rfl
  have hi : i < (p.extended i).workers.length := by
    simp only [extended, List.length_append, List.length_replicate]
    omega
  rw [← hext]
  simp only [own, modifyWorker, List.getElem?_modify]
  obtain rfl | hne := eq_or_ne i j
  · simp [List.getElem?_eq_getElem hi]
  · simp [hne, hne.symm]

end Parameters

/-- `p'` is `p` after a field of workers was set: of the workers that were named, which have records
of their own now, each to the value it was given. -/
structure FlagField.Sets (F : FlagField WorkerParameters) (named : Nat → Prop)
    (value? : Nat → Option F.Value) (p p' : Parameters) : Prop where
  same : p' = { p with workers := p'.workers }
  length_le : ∀ n, p'.workers.length ≤ n ↔ p.workers.length ≤ n ∧ ∀ i, named i → i < n
  get : ∀ i, F.get (p'.own i) = (value? i <|> F.get (p.own i))
  keep : ∀ {β : Type} (g : WorkerParameters → β), F.Keeps g → ∀ i, g (p'.own i) = g (p.own i)

namespace FlagField.Sets

variable {F : FlagField WorkerParameters} {named named' : Nat → Prop}
  {value? value?' : Nat → Option F.Value} {p p' p'' : Parameters}

theorem congr (h : F.Sets named value? p p') (hn : ∀ i, named' i ↔ named i)
    (hv : ∀ i, value?' i = value? i) : F.Sets named' value?' p p' := by
  rw [show named' = named from funext fun i => propext (hn i), show value?' = value? from funext hv]
  exact h

theorem refl (hn : ∀ i, ¬named i) (hv : ∀ i, value? i = none) (p : Parameters) :
    F.Sets named value? p p where
  same := rfl
  length_le n := by simp [hn]
  get i := by rw [hv]; rfl
  keep _ _ _ := rfl

theorem trans (h : F.Sets named value? p p') (h' : F.Sets named' value?' p' p'') :
    F.Sets (fun i => named i ∨ named' i) (fun i => value?' i <|> value? i) p p'' where
  same := by rw [h'.same, h.same]
  length_le n := by
    rw [h'.length_le, h.length_le, and_assoc]
    simp only [or_imp, forall_and]
  get i := by
    rw [h'.get, h.get]
    cases value?' i <;> rfl
  keep g hg i := (h'.keep g hg i).trans (h.keep g hg i)

theorem modifyWorker (p : Parameters) (i : Nat) (v : F.Value) :
    F.Sets (· = i) (fun j => if j = i then some v else none) p
      (p.modifyWorker i fun _ => F.set (p.own i) (some v)) where
  same := rfl
  length_le n := by rw [Parameters.length_modifyWorker_le, forall_eq]
  get j := by
    rw [Parameters.own_modifyWorker]
    split
    · exact F.get_set _ _
    · rfl
  keep g hg j := by
    rw [Parameters.own_modifyWorker]
    split
    · rename_i hj
      rw [hg, hj]
    · rfl

end FlagField.Sets

namespace FlagTable

variable {F : FlagField WorkerParameters} {f : Flag WorkerParameters}
  {fields : List (FlagField WorkerParameters)} {flags : List (Flag WorkerParameters)}
  {tokens : List FlagToken}

/-- Applying a flag to workers sets its field of each. -/
theorem applyRange_ok (hof : F.Of f) {text : String} {v : F.Value} (hv : F.read text = .ok v)
    (label : String) (is : List Nat) (p : Parameters) :
    ∃ p', applyRange f label text is p = .ok p' ∧
      F.Sets (· ∈ is) (fun i => if i ∈ is then some v else none) p p' := by
  induction is generalizing p with
  | nil => exact ⟨p, rfl, .refl (fun _ => List.not_mem_nil) (fun _ => rfl) p⟩
  | cons i is ih =>
    obtain ⟨p', happly, hsets⟩ := ih (p.modifyWorker i fun _ => F.set (p.own i) (some v))
    refine ⟨p', ?_, ((FlagField.Sets.modifyWorker p i v).trans hsets).congr
      (fun j => List.mem_cons) fun j => ?_⟩
    · rw [applyRange, hof.apply, ← Parameters.own, hv]
      exact happly
    · obtain rfl | hne := eq_or_ne j i
      · by_cases hj : j ∈ is <;> simp [hj]
      · simp [hne]

/-- Who a value for a range is given to. -/
theorem givenTo?_ranged {first last : Nat} (hle : first ≤ last) (name text : String) (i : Nat) :
    FlagToken.givenTo? i name (.ranged first last name text) =
      if i ∈ List.range' first (last + 1 - first) then some text else none := by
  have hmem : i ∈ List.range' first (last + 1 - first) ↔ first ≤ i ∧ i ≤ last := by
    rw [List.mem_range'_1]
    omega
  simp only [FlagToken.givenTo?, hmem, true_and]

/-- Applying what a token gives to a range of workers. -/
theorem applyRanges_ranged (hof : F.Of f) {first last : Nat} {text : String} {v : F.Value}
    (hle : first ≤ last) (hv : F.read text = .ok v) (tokens : List FlagToken) (p : Parameters) :
    let t : FlagToken := .ranged first last F.name text
    ∃ p', applyRanges f (t :: tokens) p = applyRanges f tokens p' ∧
      F.Sets (fun i => (t.givenTo? i F.name).isSome) (fun i => F.last? (t.givenTo? i F.name).toList)
        p p' := by
  intro t
  obtain ⟨p', happly, hsets⟩ :=
    applyRange_ok hof hv (Nat.repr first ++ "-" ++ Nat.repr last)
      (List.range' first (last + 1 - first)) p
  refine ⟨p', ?_, hsets.congr (fun i => ?_) fun i => ?_⟩
  · rw [applyRanges, if_pos hof.name.symm]
    simp only [happly]
    rfl
  · rw [givenTo?_ranged hle]
    split <;> simp [*]
  · rw [givenTo?_ranged hle]
    split <;> simp [FlagField.last?, hv, Except.toOption]

/-- Applying a token that gives the workers nothing. -/
theorem applyRanges_other (hof : F.Of f) {t : FlagToken}
    (ht : ∀ first last text, t ≠ .ranged first last F.name text) (tokens : List FlagToken)
    (p : Parameters) :
    applyRanges f (t :: tokens) p = applyRanges f tokens p ∧ ∀ i, t.givenTo? i F.name = none := by
  cases t with
  | ranged first last name text =>
    have hname : name ≠ F.name := fun h => ht first last text (by rw [h])
    refine ⟨?_, fun i => by simp [FlagToken.givenTo?, hname]⟩
    rw [applyRanges, if_neg (hof.name ▸ hname)]
  | _ => exact ⟨rfl, fun _ => rfl⟩

/-- Applying what one token gives to workers. -/
theorem applyRanges_cons (hof : F.Of f) {t : FlagToken}
    (hread : ∀ i text, t.givenTo? i F.name = some text → ∃ v, F.read text = .ok v)
    (hle : ∀ first last text, t = .ranged first last F.name text → first ≤ last)
    (tokens : List FlagToken) (p : Parameters) :
    ∃ p', applyRanges f (t :: tokens) p = applyRanges f tokens p' ∧
      F.Sets (fun i => (t.givenTo? i F.name).isSome) (fun i => F.last? (t.givenTo? i F.name).toList)
        p p' := by
  by_cases ht : ∃ first last text, t = .ranged first last F.name text
  · obtain ⟨first, last, text, rfl⟩ := ht
    have hfirst : first ≤ last := hle _ _ _ rfl
    obtain ⟨v, hv⟩ := hread first text (by simp [FlagToken.givenTo?, hfirst])
    exact applyRanges_ranged hof hfirst hv tokens p
  · obtain ⟨happly, hnone⟩ :=
      applyRanges_other hof (fun first last text h => ht ⟨first, last, text, h⟩) tokens p
    exact ⟨p, happly, .refl (fun i => by simp [hnone i])
      (fun i => by simp [hnone i, FlagField.last?]) p⟩

/-- Applying what is given for a flag and ranges of workers sets its field of each worker to the last
value given to it, and changes nothing else. -/
theorem applyRanges_ok (hof : F.Of f)
    (hread : ∀ t ∈ tokens, ∀ i text, t.givenTo? i F.name = some text → ∃ v, F.read text = .ok v)
    (hle : ∀ first last text, .ranged first last F.name text ∈ tokens → first ≤ last)
    (p : Parameters) :
    ∃ p', applyRanges f tokens p = .ok p' ∧
      F.Sets (fun i => ∃ t ∈ tokens, (t.givenTo? i F.name).isSome)
        (fun i => F.last? (tokens.filterMap (·.givenTo? i F.name))) p p' := by
  induction tokens generalizing p with
  | nil => exact ⟨p, rfl, .refl (by simp) (fun _ => rfl) p⟩
  | cons t tokens ih =>
    obtain ⟨hreadt, hread⟩ := List.forall_mem_cons.1 hread
    obtain ⟨p₁, happly, hsets⟩ := applyRanges_cons hof hreadt
      (fun _ _ _ h => hle _ _ _ (List.mem_cons.2 (.inl h.symm))) tokens p
    obtain ⟨p₂, happly', hsets'⟩ := ih hread
      (fun _ _ _ h => hle _ _ _ (List.mem_cons_of_mem _ h)) p₁
    refine ⟨p₂, happly.trans happly', (hsets.trans hsets').congr (fun i => ?_) fun i => ?_⟩
    · simp only [List.exists_mem_cons_iff]
    · cases ht : t.givenTo? i F.name with
      | none =>
        rw [List.filterMap_cons_none ht]
        cases F.last? (tokens.filterMap (·.givenTo? i F.name)) <;> rfl
      | some text =>
        rw [List.filterMap_cons_some ht, FlagField.last?_cons]
        · rfl
        · intro text' htext'
          obtain ⟨t', ht', hgiven⟩ := List.mem_filterMap.1 htext'
          exact hread t' ht' i text' hgiven

/-- Applying all flags for ranges of workers sets every field of each worker to the last value given
to it, and changes nothing else. -/
theorem applyAllRanges_ok (hof : List.Forall₂ FlagField.Of fields flags)
    (hapart : fields.Pairwise FlagField.Apart)
    (hread : ∀ F ∈ fields, ∀ t ∈ tokens, ∀ i text, t.givenTo? i F.name = some text →
      ∃ v, F.read text = .ok v)
    (hle : ∀ first last name text, .ranged first last name text ∈ tokens → first ≤ last)
    (p : Parameters) :
    ∃ p', applyAllRanges tokens flags p = .ok p' ∧ p' = { p with workers := p'.workers } ∧
      (∀ n, p'.workers.length ≤ n ↔ p.workers.length ≤ n ∧
        ∀ F ∈ fields, ∀ i, (∃ t ∈ tokens, (t.givenTo? i F.name).isSome) → i < n) ∧
      (∀ F ∈ fields, ∀ i, F.get (p'.own i) =
        (F.last? (tokens.filterMap (·.givenTo? i F.name)) <|> F.get (p.own i))) ∧
      ∀ {β : Type} (g : WorkerParameters → β), (∀ F ∈ fields, F.Keeps g) →
        ∀ i, g (p'.own i) = g (p.own i) := by
  induction hof generalizing p with
  | nil => exact ⟨p, rfl, rfl, by simp, nofun, fun _ _ _ => rfl⟩
  | @cons F f fields flags hf _ ih =>
    obtain ⟨hF, hapart⟩ := List.pairwise_cons.1 hapart
    obtain ⟨hreadF, hread⟩ := List.forall_mem_cons.1 hread
    obtain ⟨p₁, happly, hsets⟩ := applyRanges_ok hf hreadF (fun _ _ _ => hle _ _ _ _) p
    obtain ⟨p₂, happly', hsame, hlength, hget, hkeep⟩ := ih hapart hread p₁
    refine ⟨p₂, ?_, by rw [hsame, hsets.same], fun n => ?_,
      List.forall_mem_cons.2 ⟨fun i => ?_, fun G hG i => ?_⟩, fun g hg i => ?_⟩
    · rw [applyAllRanges, happly]
      exact happly'
    · rw [hlength, hsets.length_le, List.forall_mem_cons, and_assoc]
    · rw [hkeep F.get (fun G hG => (hF G hG).2), hsets.get]
    · rw [hget G hG, hsets.keep G.get (hF G hG).1]
    · obtain ⟨hgF, hg⟩ := List.forall_mem_cons.1 hg
      exact (hkeep g hg i).trans (hsets.keep g hgF i)

/-! ## Tokens with valid values -/

theorem nodup_solve : (Flag.solve.map Flag.name).Nodup := by decide +kernel

theorem nodup_worker : (Flag.worker.map Flag.name).Nodup := by decide +kernel

theorem name_ne : ∀ f ∈ Flag.solve, ∀ g ∈ Flag.worker, f.name ≠ g.name := by decide +kernel

theorem mem_name_solve {F : FlagField Parameters} (hF : F ∈ FlagField.solve) :
    ∃ f ∈ Flag.solve, f.name = F.name :=
  List.mem_map.1 (map_name_eq FlagField.solve_of ▸ List.mem_map_of_mem hF)

theorem mem_name_worker {F : FlagField WorkerParameters} (hF : F ∈ FlagField.worker) :
    ∃ f ∈ Flag.worker, f.name = F.name :=
  List.mem_map.1 (map_name_eq FlagField.worker_of ▸ List.mem_map_of_mem hF)

theorem reads_solve {t : FlagToken} (ht : t.Valid) {F : FlagField Parameters}
    (hF : F ∈ FlagField.solve) {text : String} (hg : t.given? F.name = some text) :
    ∃ v, F.read text = .ok v := by
  obtain ⟨g, hg', hname⟩ := mem_name_solve hF
  cases ht with
  | @solve f value hf hv =>
    simp only [FlagToken.given?, Option.ite_none_right_eq_some, Option.some.injEq] at hg
    obtain ⟨hn, rfl⟩ := hg
    exact reads_of_accepts (of_of_mem FlagField.solve_of nodup_solve hF hf hn) hv .empty
  | @default f value hf hv =>
    simp only [FlagToken.given?, Option.ite_none_right_eq_some] at hg
    exact absurd (hname.trans hg.1.symm) (name_ne _ hg' _ hf)
  | workers => cases hg

theorem reads_default {t : FlagToken} (ht : t.Valid) {F : FlagField WorkerParameters}
    (hF : F ∈ FlagField.worker) {text : String} (hg : t.given? F.name = some text) :
    ∃ v, F.read text = .ok v := by
  obtain ⟨g, hg', hname⟩ := mem_name_worker hF
  cases ht with
  | @solve f value hf hv =>
    simp only [FlagToken.given?, Option.ite_none_right_eq_some] at hg
    exact absurd (hg.1.trans hname.symm) (name_ne _ hf _ hg')
  | @default f value hf hv =>
    simp only [FlagToken.given?, Option.ite_none_right_eq_some, Option.some.injEq] at hg
    obtain ⟨hn, rfl⟩ := hg
    exact reads_of_accepts (of_of_mem FlagField.worker_of nodup_worker hF hf hn) hv .empty
  | workers => cases hg

theorem reads_workers {t : FlagToken} (ht : t.Valid) {F : FlagField WorkerParameters}
    (hF : F ∈ FlagField.worker) {i : Nat} {text : String} (hg : t.givenTo? i F.name = some text) :
    ∃ v, F.read text = .ok v := by
  cases ht with
  | solve => cases hg
  | default => cases hg
  | @workers f first last text' hf hle hv =>
    simp only [FlagToken.givenTo?, Option.ite_none_right_eq_some, Option.some.injEq] at hg
    obtain ⟨⟨hn, -⟩, rfl⟩ := hg
    exact reads_of_accepts (of_of_mem FlagField.worker_of nodup_worker hF hf hn) hv .empty

theorem checkToken_clean {t : FlagToken} (ht : t.Valid) : forSolves.checkToken t = .clean := by
  have hplain : ∀ {ρ : Type} {f : Flag ρ} {value : Option String}, f.Accepts value →
      forSolves.find? f.name.toList = some (none, f.name, f.takesValue) →
      forSolves.checkToken (.plain f.name value) = .clean := fun hv hfind => by
    unfold checkToken
    cases hv with
    | text hf hne =>
      simp only [hfind, hf]
      split
      · rename_i heq
        exact absurd (Option.some.inj heq) hne
      · rename_i htakes _
        cases htakes
      · rfl
    | bare hf => simp [hfind, hf]
    | truth hf ht => simp [hfind, hf, ht]
  cases ht with
  | solve hf hv => exact hplain hv (find?_solve _ hf)
  | default hf hv => exact hplain hv (find?_worker _ hf)
  | workers => rfl

theorem check_clean {tokens : List FlagToken} (hv : ∀ t ∈ tokens, t.Valid) :
    forSolves.check tokens = .clean := by
  induction tokens with
  | nil => rfl
  | cons t tokens ih =>
    obtain ⟨ht, hv⟩ := List.forall_mem_cons.1 hv
    rw [check, checkToken_clean ht]
    exact ih hv

/-- The numbers above all workers that are given a value. -/
theorem forall_givenTo?_lt {tokens : List FlagToken} (hv : ∀ t ∈ tokens, t.Valid) (n : Nat) :
    (∀ F ∈ FlagField.worker, ∀ i, (∃ t ∈ tokens, (t.givenTo? i F.name).isSome) → i < n) ↔
      ∀ first last name text, .ranged first last name text ∈ tokens → last < n := by
  constructor
  · intro hbelow first last name text ht
    cases hv _ ht with
    | @workers f _ _ _ hf hle _ =>
      obtain ⟨F, hF, hname⟩ :=
        List.mem_map.1 (map_name_eq FlagField.worker_of ▸ List.mem_map_of_mem hf)
      exact hbelow F hF last ⟨_, ht, by simp [FlagToken.givenTo?, hname, hle]⟩
  · rintro hbelow F - i ⟨t, ht, hsome⟩
    cases t with
    | ranged first last name text =>
      simp only [FlagToken.givenTo?, Option.isSome_ite] at hsome
      exact Nat.lt_of_le_of_lt hsome.2.2 (hbelow first last name text ht)
    | _ => cases hsome

/-- What tokens with valid values give: every field its last value, and the workers up to the last one
named a record of their own. -/
theorem apply_ok {tokens : List FlagToken} (hv : ∀ t ∈ tokens, t.Valid) :
    ∃ b, forSolves.apply tokens = .ok b ∧
      (∀ F ∈ FlagField.solve,
        F.get b.parameters = F.last? (tokens.filterMap (·.given? F.name))) ∧
      (∀ F ∈ FlagField.worker,
        F.get b.parameters.search = F.last? (tokens.filterMap (·.given? F.name))) ∧
      (∀ F ∈ FlagField.worker, ∀ i,
        F.get (b.parameters.own i) = F.last? (tokens.filterMap (·.givenTo? i F.name))) ∧
      b.parameters.search.internal = .empty ∧ (∀ i, (b.parameters.own i).internal = .empty) ∧
      ∀ n, b.parameters.workers.length ≤ n ↔
        ∀ first last name text, .ranged first last name text ∈ tokens → last < n := by
  have hsolve : ∀ F ∈ FlagField.solve, ∀ text ∈ tokens.filterMap (·.given? F.name),
      ∃ v, F.read text = .ok v := fun F hF text htext => by
    obtain ⟨t, ht, hg⟩ := List.mem_filterMap.1 htext
    exact reads_solve (hv t ht) hF hg
  have hdefault : ∀ F ∈ FlagField.worker, ∀ text ∈ tokens.filterMap (·.given? F.name),
      ∃ v, F.read text = .ok v := fun F hF text htext => by
    obtain ⟨t, ht, hg⟩ := List.mem_filterMap.1 htext
    exact reads_default (hv t ht) hF hg
  have hworkers : ∀ F ∈ FlagField.worker, ∀ t ∈ tokens, ∀ i text,
      t.givenTo? i F.name = some text → ∃ v, F.read text = .ok v :=
    fun F hF t ht i text hg => reads_workers (hv t ht) hF hg
  have hle : ∀ first last name text, .ranged first last name text ∈ tokens → first ≤ last :=
    fun first last name text ht => by
      cases hv _ ht with
      | workers _ hle _ => exact hle
  obtain ⟨p, hp, hgetp, hkeepp⟩ :=
    applyFlags_ok FlagField.solve_of FlagField.solve_apart hsolve .empty
  obtain ⟨search, hs, hgets, hkeeps⟩ :=
    applyFlags_ok FlagField.worker_of FlagField.worker_apart hdefault p.search
  obtain ⟨q, hq⟩ : ∃ q : Parameters, q = { p with search } := ⟨_, rfl⟩
  obtain ⟨p', hp', hsame, hlength, hgetp', hkeepp'⟩ :=
    applyAllRanges_ok FlagField.worker_of FlagField.worker_apart hworkers hle q
  have hsearch : p.search = .empty := hkeepp (·.search) FlagField.solve_keeps_search
  have hnone : q.workers = [] := hq ▸ hkeepp (·.workers) FlagField.solve_keeps_workers
  have hp'search : p'.search = search := by rw [hsame, hq]
  have hown : ∀ i, q.own i = .empty := fun i => by simp [Parameters.own, hnone]
  refine ⟨{ BenchmarkParameters.empty with parameters := p' }, ?_, fun F hF => ?_, fun F hF => ?_,
    fun F hF i => ?_, ?_, fun i => ?_, fun n => ?_⟩
  · have hb : applyFlags tokens forSolves.benchmark .empty = .ok .empty := rfl
    rw [apply, hb]
    simp only [Except.bind, bind, BenchmarkParameters.empty, hp, hs, ← hq, hp']
    rfl
  · calc F.get p' = F.get { q with workers := p'.workers } := congrArg F.get hsame
      _ = F.get q := FlagField.get_of_workers F hF q _
      _ = F.get p := by rw [hq, FlagField.get_of_search F hF]
      _ = F.last? (tokens.filterMap (·.given? F.name)) := by
        simp [hgetp F hF, FlagField.get_empty_solve F hF]
  · show F.get p'.search = _
    simp [hp'search, hgets F hF, hsearch, FlagField.get_empty_worker F hF]
  · simp [hgetp' F hF, hown, FlagField.get_empty_worker F hF]
  · show p'.search.internal = _
    rw [hp'search, hkeeps (·.internal) FlagField.worker_keeps_internal, hsearch]
    rfl
  · show (p'.own i).internal = _
    rw [hkeepp' (·.internal) FlagField.worker_keeps_internal, hown]
    rfl
  · rw [hlength, hnone, forall_givenTo?_lt hv]
    exact and_iff_right (Nat.zero_le n)

end FlagTable

open FlagTable

/-- What a worker runs with is set by its own record, and else by the defaults. -/
theorem FlagField.get_workerAt {F : FlagField WorkerParameters} (hF : F ∈ FlagField.worker)
    (p : Parameters) (i : Nat) : F.get (p.worker i) = (F.get (p.own i) <|> F.get p.search) := by
  rw [Parameters.worker, Parameters.own]
  cases p.workers[i]? with
  | some w => exact FlagField.get_combine F hF p.search w
  | none =>
    rw [Option.getD_none, FlagField.get_empty_worker F hF]
    rfl

theorem FlagField.internal_workerAt {p : Parameters} (hp : p.search.internal = .empty) {i : Nat}
    (hi : (p.own i).internal = .empty) : (p.worker i).internal = .empty := by
  rw [Parameters.own] at hi
  rw [Parameters.worker]
  cases hw : p.workers[i]? with
  | some w =>
    rw [hw, Option.getD_some] at hi
    show p.search.internal.overlay w.internal = _
    rw [hp, hi]
    rfl
  | none => exact hp

/-- Seeds for all workers and for ranges of workers, out of order, and a flag that is repeated. -/
def seedArgs : List String :=
  ["--nbWorkers", "4", "--worker0-2.randomSeed", "9", "--randomSeed=7", "--printLog",
    "--worker1.randomSeed=11", "--nbWorkers=2"]

/-- What `seedArgs` say. -/
def seedTokens : List FlagToken :=
  [.plain "nbWorkers" (some "4"), .ranged 0 2 "randomSeed" "9", .plain "randomSeed" (some "7"),
    .plain "printLog" none, .ranged 1 1 "randomSeed" "11", .plain "nbWorkers" (some "2")]

end Scheduling
