import Mathlib.Data.List.Induction
import Mathlib.Tactic.WLOG
import Scheduling.Proofs.Benchmark.Pattern
import Scheduling.Proofs.Benchmark.Results

/-!
# Paths of runs

Two runs of a benchmark write to different files if their pattern has a placeholder of the name: with
names of equal length the texts are compared part by part, and with seeds of different lengths the last
part cannot be the same. A placeholder of the seed alone only tells the runs of one input apart, so that
with several inputs their files are overwritten although the benchmark is not refused
(`BenchmarkSetup.paths_distinct_iff`).
-/

namespace Scheduling

namespace Pattern

variable {value value' : Mark → List Char} {ps : List Part} {pattern name name' : String}
  {seed seed' : Option Nat}

/-! ### Parts side by side -/

theorem render_append (value : Mark → List Char) (ps ps' : List Part) :
    render value (ps ++ ps') = render value ps ++ render value ps' := List.flatMap_append

theorem render_concat (value : Mark → List Char) (ps : List Part) (p : Part) :
    render value (ps ++ [p]) = render value ps ++ p.text value := by
  rw [render_append, render_cons, render_nil, List.append_nil]

theorem render_congr (h : ∀ m, .mark m ∈ ps → value m = value' m) :
    render value ps = render value' ps := by
  induction ps with
  | nil => rfl
  | cons p ps ih =>
    have hrest := ih fun m hm => h m (List.mem_cons_of_mem _ hm)
    cases p with
    | char c => rw [render_cons, render_cons, hrest, Part.text_char, Part.text_char]
    | mark m => rw [render_cons, render_cons, hrest, Part.text_mark, Part.text_mark,
        h m List.mem_cons_self]

theorem Part.length_text_le (hle : ∀ m, (value m).length ≤ (value' m).length) (p : Part) :
    (p.text value).length ≤ (p.text value').length := by
  cases p with
  | char c => exact Nat.le_refl _
  | mark m => exact hle m

theorem length_render_le (hle : ∀ m, (value m).length ≤ (value' m).length) (ps : List Part) :
    (render value ps).length ≤ (render value' ps).length := by
  induction ps with
  | nil => exact Nat.le_refl _
  | cons p ps ih =>
    rw [render_cons, render_cons, List.length_append, List.length_append]
    exact Nat.add_le_add (p.length_text_le hle) ih

/-- If no placeholder has a longer text on the left, then the texts of all parts are the same on both
sides when the whole is. -/
theorem value_eq_of_render_eq (hle : ∀ m, (value m).length ≤ (value' m).length)
    (h : render value ps = render value' ps) : ∀ m, .mark m ∈ ps → value m = value' m := by
  induction ps with
  | nil => exact nofun
  | cons p ps ih =>
    have hfirst := p.length_text_le hle
    have hrest := length_render_le hle ps
    have hlength := congrArg List.length h
    simp only [render_cons, List.length_append] at hlength
    obtain ⟨hp, hps⟩ := List.append_inj h (by omega)
    intro m hm
    obtain rfl | hm := List.mem_cons.1 hm
    · exact hp
    · exact ih hps m hm

/-! ### Names of runs -/

/-- What comes before the seed in the text of a placeholder. -/
def stem (modelName : String) : Mark → List Char
  | .name => modelName.toList ++ "-seed".toList
  | .flatName => (flatten modelName).toList ++ "-seed".toList
  | .seed => []

theorem flatten_repr (n : Nat) : flatten (Nat.repr n) = Nat.repr n := by
  apply String.toList_injective
  rw [flatten, String.toList_ofList]
  have hdigits : ∀ c ∈ (Nat.repr n).toList, (if c = '/' ∨ c = '\\' then '_' else c) = c := by
    intro c hc
    have hdigit := isDigit_of_mem_repr hc
    rw [if_neg]
    rintro (rfl | rfl) <;> exact absurd hdigit (by decide)
  rw [List.map_congr_left hdigits, List.map_id']

theorem toList_flatten_append (s t : String) :
    (flatten (s ++ t)).toList = (flatten s).toList ++ (flatten t).toList := by
  simp [flatten]

theorem value_runName (modelName : String) (n : Nat) (m : Mark) :
    Mark.value (runName modelName (some n)) (some n) m = stem modelName m ++ (Nat.repr n).toList := by
  cases m with
  | name =>
    rw [Mark.value, runName, stem, String.toList_append, String.toList_append]
  | flatName =>
    rw [Mark.value, runName, stem, toList_flatten_append, toList_flatten_append, flatten_repr]
    rfl
  | seed => rfl

theorem repr_inj {n n' : Nat} (h : (Nat.repr n).toList = (Nat.repr n').toList) : n = n' := by
  rw [Nat.toList_repr, Nat.toList_repr] at h
  rw [← Nat.ofDigitChars_ten_toDigits (n := n), h, Nat.ofDigitChars_ten_toDigits]

/-- The digits at the end of a text can be read off it. -/
theorem digits_eq {xs xs' ds ds' : List Char} {c c' : Char} (hc : c.isDigit = false)
    (hc' : c'.isDigit = false) (hds : ∀ d ∈ ds, d.isDigit) (hds' : ∀ d ∈ ds', d.isDigit)
    (h : xs ++ c :: ds = xs' ++ c' :: ds') : ds = ds' := by
  have htake {xs ds : List Char} {c : Char} (hc : c.isDigit = false) (hds : ∀ d ∈ ds, d.isDigit) :
      (xs ++ c :: ds).reverse.takeWhile Char.isDigit = ds.reverse := by
    rw [List.reverse_append, List.reverse_cons, List.append_assoc, List.takeWhile_append_of_pos]
    · simp [hc]
    · exact fun d hd => hds d (List.mem_reverse.1 hd)
  rw [← List.reverse_inj, ← htake hc hds, h, htake hc' hds']

theorem stem_eq (modelName : String) {m : Mark} (hm : m ≠ .seed) :
    ∃ xs, stem modelName m = xs ++ ['d'] := by
  have hseed : "-seed".toList = ['-', 's', 'e', 'e'] ++ ['d'] := rfl
  cases m with
  | name => exact ⟨modelName.toList ++ ['-', 's', 'e', 'e'], by rw [stem, hseed, List.append_assoc]⟩
  | flatName =>
    exact ⟨(flatten modelName).toList ++ ['-', 's', 'e', 'e'], by rw [stem, hseed, List.append_assoc]⟩
  | seed => exact (hm rfl).elim

theorem length_flatten (name : String) : (flatten name).toList.length = name.toList.length := by
  simp [flatten]

theorem length_stem_le (h : name.toList.length ≤ name'.toList.length) (m : Mark) :
    (stem name m).length ≤ (stem name' m).length := by
  cases m with
  | name => simpa [stem] using h
  | flatName => simpa [stem, length_flatten] using h
  | seed => exact Nat.le_refl _

/-! ### Seeds of different lengths -/

/-- By how much a text is ahead of another one that it continues: by some digits. -/
def Ahead (xs xs' ys : List Char) : Prop := xs = xs' ++ ys ∧ ∀ y ∈ ys, y.isDigit

variable {xs xs' ys ds ds' : List Char}

/-- A text that is ahead before a character is ahead without it. -/
theorem Ahead.char {c : Char} (h : Ahead (xs ++ [c]) (xs' ++ [c]) ys) (hys : ys ≠ []) :
    ∃ ys' ≠ [], Ahead xs xs' ys' := by
  obtain ⟨heq, hdigits⟩ := h
  obtain rfl | ⟨ys, y, hconcat⟩ := List.eq_nil_or_concat ys
  · exact (hys rfl).elim
  · rw [List.concat_eq_append] at hconcat
    subst hconcat
    rw [← List.append_assoc] at heq
    obtain ⟨hrest, hlast⟩ := List.append_inj' heq rfl
    obtain rfl := List.singleton_inj.1 hlast
    refine ⟨c :: ys, List.cons_ne_nil c ys, by rw [hrest, List.append_assoc]; rfl, ?_⟩
    intro d hd
    rw [List.forall_mem_append] at hdigits
    obtain rfl | hd := List.mem_cons.1 hd
    · exact hdigits.2 d (List.mem_singleton_self d)
    · exact hdigits.1 d hd

/-- A text with a shorter seed is ahead already before a placeholder. -/
theorem Ahead.mark {m : Mark} (h : Ahead (xs ++ (stem name m ++ ds)) (xs' ++ (stem name' m ++ ds')) ys)
    (hds : ∀ d ∈ ds, d.isDigit) (hds' : ∀ d ∈ ds', d.isDigit) (hlength : ds.length < ds'.length) :
    ∃ ys' ≠ [], Ahead xs xs' ys' := by
  obtain ⟨heq, hdigits⟩ := h
  have hboth : ∀ d ∈ ds' ++ ys, d.isDigit := List.forall_mem_append.2 ⟨hds', hdigits⟩
  by_cases hm : m = .seed
  · subst hm
    replace heq : xs ++ ds = xs' ++ (ds' ++ ys) := by
      rw [← List.append_assoc]
      exact heq
    have hsuffix : ds <:+ ds' ++ ys := by
      refine List.suffix_of_suffix_length_le (List.suffix_append xs ds)
        (heq ▸ List.suffix_append xs' (ds' ++ ys)) ?_
      rw [List.length_append]
      omega
    obtain ⟨ys', hys'⟩ := hsuffix
    rw [← hys', ← List.append_assoc] at heq
    refine ⟨ys', ?_, List.append_cancel_right heq, fun d hd => hboth d ?_⟩
    · rintro rfl
      have hlengths := congrArg List.length hys'
      simp only [List.nil_append, List.length_append] at hlengths
      omega
    · rw [← hys']
      exact List.mem_append_left ds hd
  · -- Both texts end in the seed of their run, which stands after a letter.
    obtain ⟨zs, hzs⟩ := stem_eq name hm
    obtain ⟨zs', hzs'⟩ := stem_eq name' hm
    have hends : (xs ++ zs) ++ 'd' :: ds = (xs' ++ zs') ++ 'd' :: (ds' ++ ys) := by
      simpa [hzs, hzs'] using heq
    have hlengths := congrArg List.length (digits_eq rfl rfl hds hboth hends)
    rw [List.length_append] at hlengths
    omega

/-- A text with a shorter seed does not end where one with a longer seed does, if there is a
placeholder in it: from the right to the left it is ahead from the last placeholder on. -/
theorem not_mark_of_ahead (hds : ∀ d ∈ ds, d.isDigit) (hds' : ∀ d ∈ ds', d.isDigit)
    (hlength : ds.length < ds'.length)
    (h : Ahead (render (fun m => stem name m ++ ds) ps) (render (fun m => stem name' m ++ ds') ps) ys) :
    ys = [] ∧ ∀ m, .mark m ∉ ps := by
  induction ps using List.reverseRecOn generalizing ys with
  | nil => exact ⟨h.1.symm, nofun⟩
  | append_singleton ps p ih =>
    rw [render_concat, render_concat] at h
    cases p with
    | char c =>
      by_cases hys : ys = []
      · subst hys
        have hrest := h.1
        rw [List.append_nil] at hrest
        obtain ⟨-, hps⟩ := ih ⟨by rw [List.append_nil]; exact List.append_cancel_right hrest, h.2⟩
        exact ⟨rfl, fun m hm => hps m (by simpa using hm)⟩
      · obtain ⟨ys', hys', hahead⟩ := h.char hys
        exact (hys' (ih hahead).1).elim
    | mark m =>
      obtain ⟨ys', hys', hahead⟩ := h.mark hds hds' hlength
      exact (hys' (ih hahead).1).elim

/-! ### Runs with the same text -/

/-- The pattern has a placeholder of the name. -/
def Names (pattern : String) : Prop :=
  .mark .name ∈ parts pattern ∨ .mark .flatName ∈ parts pattern

instance : DecidablePred Names := fun _ => inferInstanceAs (Decidable (_ ∨ _))

variable {modelName modelName' : String} {n n' : Nat}

theorem isDigit_repr (n : Nat) : ∀ d ∈ (Nat.repr n).toList, d.isDigit := fun _ hd =>
  isDigit_of_mem_repr hd

/-- The text of a pattern for a run, as one substitution. -/
def runText (pattern modelName : String) (seed : Option Nat) : String :=
  fill pattern (runName modelName seed) seed

theorem runName_none (modelName : String) : runName modelName none = modelName := rfl

theorem render_of_runText_eq (h : runText pattern modelName seed = runText pattern modelName' seed') :
    render (Mark.value (runName modelName seed) seed) (parts pattern) =
      render (Mark.value (runName modelName' seed') seed') (parts pattern) := by
  rw [← toList_fill, ← toList_fill]
  exact congrArg String.toList h

/-- Before the digits of the seed stands the stem of the model's name. -/
theorem render_stem_of_runText_eq
    (h : runText pattern modelName (some n) = runText pattern modelName' (some n')) :
    render (fun m => stem modelName m ++ (Nat.repr n).toList) (parts pattern) =
      render (fun m => stem modelName' m ++ (Nat.repr n').toList) (parts pattern) := by
  have hrender := render_of_runText_eq h
  rwa [funext (value_runName modelName n), funext (value_runName modelName' n')] at hrender

/-- Two runs of one model with different seeds have different texts of a pattern with a
placeholder. -/
theorem seed_eq_of_runText_eq (hmark : ∃ m, .mark m ∈ parts pattern)
    (h : runText pattern modelName (some n) = runText pattern modelName (some n')) : n = n' := by
  wlog hle : (Nat.repr n).toList.length ≤ (Nat.repr n').toList.length generalizing n n'
  · exact (this h.symm (Nat.le_of_not_le hle)).symm
  obtain ⟨m, hm⟩ := hmark
  have hlengths : ∀ m, (stem modelName m ++ (Nat.repr n).toList).length ≤
      (stem modelName m ++ (Nat.repr n').toList).length := by
    intro m
    rw [List.length_append, List.length_append]
    exact Nat.add_le_add_left hle _
  have hsame := value_eq_of_render_eq hlengths (render_stem_of_runText_eq h) m hm
  exact repr_inj (List.append_cancel_left hsame)

theorem Names.exists_mark (h : Names pattern) : ∃ m ≠ Mark.seed, .mark m ∈ parts pattern := by
  obtain hm | hm := h
  · exact ⟨.name, by decide, hm⟩
  · exact ⟨.flatName, by decide, hm⟩

theorem flatten_eq_of_stem_eq {m : Mark} (hm : m ≠ .seed) (h : stem modelName m = stem modelName' m) :
    flatten modelName = flatten modelName' := by
  cases m with
  | name => rw [String.toList_injective (List.append_cancel_right h)]
  | flatName => exact String.toList_injective (List.append_cancel_right h)
  | seed => exact (hm rfl).elim

theorem flatten_eq_of_value_eq {m : Mark} (hm : m ≠ .seed)
    (h : Mark.value modelName none m = Mark.value modelName' none m) :
    flatten modelName = flatten modelName' := by
  cases m with
  | name => rw [String.toList_injective h]
  | flatName => exact String.toList_injective h
  | seed => exact (hm rfl).elim

/-- Runs without seeds have the same text of a pattern with a placeholder of the name only if their
models have the same flat name. -/
theorem flatten_eq_of_runText_eq (hnames : Names pattern)
    (h : runText pattern modelName none = runText pattern modelName' none) :
    flatten modelName = flatten modelName' := by
  wlog hle : modelName.toList.length ≤ modelName'.toList.length generalizing modelName modelName'
  · exact (this h.symm (Nat.le_of_not_le hle)).symm
  obtain ⟨m, hm, hmem⟩ := hnames.exists_mark
  have hlengths : ∀ m, (Mark.value modelName none m).length ≤ (Mark.value modelName' none m).length := by
    intro m
    cases m with
    | name => exact hle
    | flatName => simpa [Mark.value, length_flatten] using hle
    | seed => exact Nat.le_refl _
  have hrender := render_of_runText_eq h
  rw [runName_none, runName_none] at hrender
  exact flatten_eq_of_value_eq hm (value_eq_of_render_eq hlengths hrender m hmem)

/-- With a placeholder of the name the seeds of two runs with the same text have the same length: the
text with the shorter seed would be ahead. -/
theorem length_repr_le_of_runText_eq (hnames : Names pattern)
    (h : runText pattern modelName (some n) = runText pattern modelName' (some n')) :
    (Nat.repr n').toList.length ≤ (Nat.repr n).toList.length := by
  obtain ⟨m, -, hmem⟩ := hnames.exists_mark
  by_contra hlt
  have hahead : Ahead (render (fun m => stem modelName m ++ (Nat.repr n).toList) (parts pattern))
      (render (fun m => stem modelName' m ++ (Nat.repr n').toList) (parts pattern)) [] :=
    ⟨by rw [List.append_nil, render_stem_of_runText_eq h], nofun⟩
  have hnone := not_mark_of_ahead (isDigit_repr n) (isDigit_repr n') (Nat.lt_of_not_le hlt) hahead
  exact hnone.2 m hmem

/-- Runs with seeds have the same text of a pattern with a placeholder of the name only if they have
the same seed, and their models the same flat name. -/
theorem flatten_eq_and_seed_eq (hnames : Names pattern)
    (h : runText pattern modelName (some n) = runText pattern modelName' (some n')) :
    flatten modelName = flatten modelName' ∧ n = n' := by
  wlog hle : modelName.toList.length ≤ modelName'.toList.length generalizing modelName modelName' n n'
  · obtain ⟨hflat, hseed⟩ := this h.symm (Nat.le_of_not_le hle)
    exact ⟨hflat.symm, hseed.symm⟩
  obtain ⟨m, hm, hmem⟩ := hnames.exists_mark
  have hlength : (Nat.repr n).toList.length = (Nat.repr n').toList.length :=
    Nat.le_antisymm (length_repr_le_of_runText_eq hnames h.symm) (length_repr_le_of_runText_eq hnames h)
  have hlengths : ∀ m, (stem modelName m ++ (Nat.repr n).toList).length ≤
      (stem modelName' m ++ (Nat.repr n').toList).length := by
    intro m
    rw [List.length_append, List.length_append, hlength]
    exact Nat.add_le_add_right (length_stem_le hle m) _
  have hsame := value_eq_of_render_eq hlengths (render_stem_of_runText_eq h) m hmem
  obtain ⟨hstem, hdigits⟩ := List.append_inj' hsame hlength
  exact ⟨flatten_eq_of_stem_eq hm hstem, repr_inj hdigits⟩

/-- Without a placeholder of the name the text is told by the seed alone. -/
theorem fill_eq_of_not_names (h : ¬ Names pattern) (name name' : String) (seed : Option Nat) :
    fill pattern name seed = fill pattern name' seed := by
  refine congrArg String.ofList (render_congr fun m hm => ?_)
  cases m with
  | name => exact (h (.inl hm)).elim
  | flatName => exact (h (.inr hm)).elim
  | seed => rfl

theorem occurrences_pos_of_occurs {what cs : List Char} (hwhat : what ≠ [])
    (h : occurs what cs) : 0 < occurrences what cs := by
  induction cs with
  | nil => exact (hwhat (List.isEmpty_iff.1 h)).elim
  | cons c cs ih =>
    rw [occurs, Bool.or_eq_true, isSome_afterStart?_iff] at h
    rw [occurrences]
    obtain hprefix | hrest := h
    · rw [if_pos hprefix]
      omega
    · have hpos := ih hrest
      omega

/-- A pattern that varies has a placeholder. -/
theorem exists_mark_of_varies (h : varies pattern) : ∃ m, .mark m ∈ parts pattern := by
  obtain ⟨text, htext, hoccurs⟩ := List.any_eq_true.1 h
  obtain ⟨m, rfl⟩ : ∃ m : Mark, m.text = text := by
    simp only [marks, List.mem_cons, List.not_mem_nil, or_false] at htext
    obtain rfl | rfl | rfl := htext
    · exact ⟨.name, rfl⟩
    · exact ⟨.flatName, rfl⟩
    · exact ⟨.seed, rfl⟩
  obtain ⟨tail, heq, -⟩ := m.exists_chars_eq
  have hpos : 0 < (parts pattern).count (.mark m) := by
    rw [count_parts]
    have hne : m.chars ≠ [] := by
      rw [heq]
      exact List.cons_ne_nil _ _
    exact occurrences_pos_of_occurs hne hoccurs
  exact ⟨m, List.count_pos_iff.1 hpos⟩

end Pattern

/-! ### Files of a benchmark -/

/-- A file that each run of a benchmark writes. -/
inductive RunFile where
  | log
  | result
  | exportJson

namespace RunFile

/-- The pattern of the paths of a file. -/
def pattern (b : BenchmarkParameters) : RunFile → Option String
  | log => b.log
  | result => b.result
  | exportJson => b.exportJson

/-- The path of a file of a run. -/
def path (r : Run) : RunFile → Option String
  | log => r.log
  | result => r.result
  | exportJson => r.exportJson

theorem path_run {ι : Type} (f : RunFile) (b : BenchmarkParameters) (t : Turn ι) (m : Model) :
    f.path (b.run t m) =
      (f.pattern b).map fun p => Pattern.expand p (b.run t m).name (b.run t m).seed := by
  cases f <;> rfl

end RunFile

theorem varies_of_usageError? {b : BenchmarkParameters} {n : Nat} {f : RunFile} {pattern : String}
    (husage : b.usageError? n = none) (hruns : 1 < n * b.seeds) (hf : f.pattern b = some pattern) :
    Pattern.varies pattern := by
  obtain ⟨hn, hparallel, hseeds⟩ := usageError?_eq_none husage
  have hnot : ¬ n * b.seeds ≤ 1 := by omega
  rw [BenchmarkParameters.usageError?, if_neg (by omega), if_neg (by omega), if_neg (by omega),
    if_neg hnot, List.findSome?_eq_none_iff] at husage
  have hmem : ∃ flag, (flag, some pattern) ∈ b.runPatterns := by
    rw [← hf]
    cases f with
    | log => exact ⟨"log", List.mem_cons_self⟩
    | result => exact ⟨"result", List.mem_cons_of_mem _ List.mem_cons_self⟩
    | exportJson =>
      exact ⟨"exportJSON", List.mem_cons_of_mem _ (List.mem_cons_of_mem _ List.mem_cons_self)⟩
  obtain ⟨flag, hmem⟩ := hmem
  by_contra hvaries
  have herror := husage _ hmem
  simp [hvaries] at herror

theorem mem_turns {ι : Type} {inputs : List ι} {seeds : Nat} {t : Turn ι} :
    t ∈ turns inputs seeds ↔ inputs[t.index]? = some t.input ∧ t.seedIndex < seeds := by
  obtain ⟨input, index, k⟩ := t
  simp [turns, List.mk_mem_zipIdx_iff_getElem?]

namespace BenchmarkSetup

variable {ι : Type} {setup : BenchmarkSetup ι} {inputs : List ι} {b : BenchmarkParameters}

/-- The run is that of the turn. -/
structure Runs (setup : BenchmarkSetup ι) (inputs : List ι) (b : BenchmarkParameters) (t : Turn ι)
    (r : Run) : Prop where
  mem : t ∈ turns inputs b.seeds
  prepare : setup.prepare b t = .ok r

theorem Runs.seed_eq {t : Turn ι} {r : Run} (h : setup.Runs inputs b t r) :
    r.seed = if 1 < b.seeds then some (t.seedIndex + 1) else none := by
  obtain ⟨m, -, rfl⟩ := prepare_eq_ok h.prepare
  rfl

/-- The runs of one input are all of the same model. -/
theorem Runs.modelName_eq {t t' : Turn ι} {r r' : Run} (h : setup.Runs inputs b t r)
    (h' : setup.Runs inputs b t' r') (hi : t.index = t'.index) : r.modelName = r'.modelName := by
  obtain ⟨m, hm, rfl⟩ := prepare_eq_ok h.prepare
  obtain ⟨m', hm', rfl⟩ := prepare_eq_ok h'.prepare
  have hinput : t.input = t'.input := by
    have hmem := (mem_turns.1 h.mem).1
    rw [hi, (mem_turns.1 h'.mem).1] at hmem
    exact (Option.some.inj hmem).symm
  rw [hinput, hm'] at hm
  cases hm
  simp only [BenchmarkParameters.run, hi]

theorem Runs.path_eq {t : Turn ι} {r : Run} {f : RunFile} {pattern : String}
    (h : setup.Runs inputs b t r) (hf : f.pattern b = some pattern)
    (hinert : Pattern.Inert pattern r.name) :
    f.path r = some (Pattern.runText pattern r.modelName r.seed) := by
  obtain ⟨m, -, rfl⟩ := prepare_eq_ok h.prepare
  rw [RunFile.path_run, hf, Option.map_some, Pattern.expand_of_inert hinert, Run.name, Pattern.runText]

/-- Where every model can be built, flat names tell inputs apart and no name brings placeholders into
the pattern, a benchmark that is not refused for its usage gives different runs different paths exactly
if there is one input only or the pattern has a placeholder of the name. -/
theorem paths_distinct_iff {f : RunFile} {pattern : String}
    (husage : b.usageError? inputs.length = none) (hf : f.pattern b = some pattern)
    (hbuild : ∀ t ∈ turns inputs b.seeds, ∃ r, setup.Runs inputs b t r)
    (hnames : ∀ t t' r r', setup.Runs inputs b t r → setup.Runs inputs b t' r' → t.index ≠ t'.index →
      Pattern.flatten r.modelName ≠ Pattern.flatten r'.modelName)
    (hinert : ∀ t r, setup.Runs inputs b t r → Pattern.Inert pattern r.name) :
    (∀ t t' r r', setup.Runs inputs b t r → setup.Runs inputs b t' r' → t.pair ≠ t'.pair →
      f.path r ≠ f.path r') ↔ inputs.length = 1 ∨ Pattern.Names pattern := by
  obtain ⟨hinputs, -, hseeds⟩ := usageError?_eq_none husage
  constructor
  · intro hall
    by_contra hnot
    obtain ⟨hone, hpattern⟩ := not_or.1 hnot
    -- The first runs of the first two inputs have the same seed.
    have hfirst : (⟨inputs[0], 0, 0⟩ : Turn ι) ∈ turns inputs b.seeds :=
      mem_turns.2 ⟨List.getElem?_eq_getElem hinputs, hseeds⟩
    have hsecond : (⟨inputs[1], 1, 0⟩ : Turn ι) ∈ turns inputs b.seeds :=
      mem_turns.2 ⟨List.getElem?_eq_getElem (show 1 < inputs.length by omega), hseeds⟩
    obtain ⟨r, hr⟩ := hbuild _ hfirst
    obtain ⟨r', hr'⟩ := hbuild _ hsecond
    refine hall _ _ r r' hr hr' (by simp [Turn.pair]) ?_
    rw [hr.path_eq hf (hinert _ r hr), hr'.path_eq hf (hinert _ r' hr'), hr.seed_eq, hr'.seed_eq,
      Pattern.runText, Pattern.runText, Pattern.fill_eq_of_not_names hpattern]
  · intro hcond t t' r r' hr hr' hne hpath
    rw [hr.path_eq hf (hinert t r hr), hr'.path_eq hf (hinert t' r' hr'), hr.seed_eq, hr'.seed_eq,
      Option.some.injEq] at hpath
    obtain ⟨hmem, hlt⟩ := mem_turns.1 hr.mem
    obtain ⟨hmem', hlt'⟩ := mem_turns.1 hr'.mem
    by_cases hi : t.index = t'.index
    · have hk : t.seedIndex ≠ t'.seedIndex := fun hk => hne (Prod.ext hi hk)
      have hmany : 1 < b.seeds := by omega
      have hruns : 1 < inputs.length * b.seeds :=
        Nat.lt_of_lt_of_le hmany (Nat.le_mul_of_pos_left b.seeds hinputs)
      rw [if_pos hmany, if_pos hmany, hr.modelName_eq hr' hi] at hpath
      have hmark := Pattern.exists_mark_of_varies (varies_of_usageError? husage hruns hf)
      have hseed := Pattern.seed_eq_of_runText_eq hmark hpath
      omega
    · have hpattern : Pattern.Names pattern := by
        refine hcond.resolve_left fun hone => ?_
        have hindex := (List.getElem?_eq_some_iff.1 hmem).1
        have hindex' := (List.getElem?_eq_some_iff.1 hmem').1
        omega
      refine hnames t t' r r' hr hr' hi ?_
      by_cases hmany : 1 < b.seeds
      · rw [if_pos hmany, if_pos hmany] at hpath
        exact (Pattern.flatten_eq_and_seed_eq hpattern hpath).1
      · rw [if_neg hmany, if_neg hmany] at hpath
        exact Pattern.flatten_eq_of_runText_eq hpattern hpath

/-- A benchmark whose inputs are the models themselves. -/
def ofModels : BenchmarkSetup Model := ⟨.unavailable, .ok, "", []⟩

theorem runs_ofModels {inputs : List Model} {t : Turn Model} {r : Run}
    (h : ofModels.Runs inputs b t r) : t ∈ turns inputs b.seeds ∧ r = b.run t t.input :=
  ⟨h.mem, (Except.ok.inj h.prepare).symm⟩

/-- Two models that have slashes in their names. -/
def sampleModels : List Model :=
  [{ Sample.twoTasks 0 with name := some "a/b" }, { Sample.twoTasks 1 with name := some "c" }]

theorem paths_distinct_iff_twoModels :
    let b := { BenchmarkParameters.empty with
      nbSeeds := some 2, log := some "\x7bflat_name\x7d.log" }
    b.usageError? sampleModels.length = none ∧
      ∀ t t' r r', ofModels.Runs sampleModels b t r → ofModels.Runs sampleModels b t' r' →
        t.pair ≠ t'.pair → r.log ≠ r'.log := by
  intro b
  have husage : b.usageError? sampleModels.length = none := by decide +kernel
  have hflat : ∀ t ∈ turns sampleModels b.seeds, ∀ t' ∈ turns sampleModels b.seeds,
      t.index ≠ t'.index → Pattern.flatten (b.run t t.input).modelName ≠
        Pattern.flatten (b.run t' t'.input).modelName := by decide +kernel
  have hinert : ∀ t ∈ turns sampleModels b.seeds,
      Pattern.Inert "\x7bflat_name\x7d.log" (b.run t t.input).name := by decide +kernel
  refine ⟨husage, (paths_distinct_iff (f := .log) husage rfl (fun t ht => ⟨_, ht, rfl⟩)
    (fun t t' r r' hr hr' => ?_) fun t r hr => ?_).2 (.inr (by decide +kernel))⟩
  · obtain ⟨ht, rfl⟩ := runs_ofModels hr
    obtain ⟨ht', rfl⟩ := runs_ofModels hr'
    exact hflat t ht t' ht'
  · obtain ⟨ht, rfl⟩ := runs_ofModels hr
    exact hinert t ht

/-- With a placeholder of the seed the usage is not refused, although the log of one model is overwritten
by that of the other. -/
theorem seed_log_overwritten :
    ¬ ∀ (inputs : List Model) (b : BenchmarkParameters), b.usageError? inputs.length = none →
      (∀ t t' r r', ofModels.Runs inputs b t r → ofModels.Runs inputs b t' r' → t.index ≠ t'.index →
        Pattern.flatten r.modelName ≠ Pattern.flatten r'.modelName) →
      ∀ (f : RunFile) (t t' : Turn Model) (r r' : Run), (f.pattern b).isSome →
        ofModels.Runs inputs b t r → ofModels.Runs inputs b t' r' → t.pair ≠ t'.pair →
        f.path r ≠ f.path r' := by
  intro h
  let b := { BenchmarkParameters.empty with log := some "run\x7bseed\x7d.log" }
  have hflat : ∀ t ∈ turns sampleModels b.seeds, ∀ t' ∈ turns sampleModels b.seeds,
      t.index ≠ t'.index → Pattern.flatten (b.run t t.input).modelName ≠
        Pattern.flatten (b.run t' t'.input).modelName := by decide +kernel
  refine h sampleModels b (by decide +kernel) (fun t t' r r' hr hr' => ?_) .log
    ⟨sampleModels[0], 0, 0⟩ ⟨sampleModels[1], 1, 0⟩ _ _ rfl
    ⟨mem_turns.2 ⟨rfl, by decide⟩, rfl⟩ ⟨mem_turns.2 ⟨rfl, by decide⟩, rfl⟩ (by decide)
    (by decide +kernel)
  obtain ⟨ht, rfl⟩ := runs_ofModels hr
  obtain ⟨ht', rfl⟩ := runs_ofModels hr'
  exact hflat t ht t' ht'

end BenchmarkSetup

end Scheduling
