import Mathlib.Logic.Function.Basic
import Scheduling.Benchmark.Pattern
import Scheduling.Proofs.Json.OneLine

/-!
# Placeholders of a pattern

A pattern is a row of characters and placeholders (`Pattern.parts`), and filling it in puts texts in
the places of its placeholders and leaves the rest (`Pattern.fill`). The expansion of a pattern goes
over the text three times instead, and so it also replaces placeholders that come from the name of the
run. Where none comes from it, the pattern is filled in, and only there
(`Pattern.expand_eq_fill_iff`).
-/

namespace Scheduling

namespace Pattern

/-! ### Placeholders -/

/-- A placeholder. -/
inductive Mark where
  | name
  | flatName
  | seed
deriving DecidableEq, Repr

namespace Mark

/-- All placeholders. -/
def all : List Mark := [name, flatName, seed]

/-- How a placeholder is written. -/
def text : Mark → String
  | name => nameMark
  | flatName => flatNameMark
  | seed => seedMark

/-- The characters of a placeholder. -/
def chars (m : Mark) : List Char := m.text.toList

/-- What a placeholder stands for in a run. -/
def value (name : String) (seed : Option Nat) : Mark → List Char
  | .name => name.toList
  | .flatName => (flatten name).toList
  | .seed => ((seed.map Nat.repr).getD "").toList

theorem mem_all (m : Mark) : m ∈ all := by cases m <;> decide

/-- A placeholder starts with a brace, and has no other one of this kind. -/
theorem exists_chars_eq (m : Mark) : ∃ tail, m.chars = '{' :: tail ∧ '{' ∉ tail := by
  refine ⟨m.chars.tail, ?_⟩
  cases m <;> decide

theorem eq_of_prefix {m m' : Mark} {cs : List Char} (h : m.chars <+: cs) (h' : m'.chars <+: cs) :
    m = m' := by
  have hprefix := List.prefix_or_prefix_of_prefix h h'
  revert hprefix
  cases m <;> cases m' <;> decide

/-- The seed of a run has no braces. -/
theorem not_mem_value_seed (name : String) (seed : Option Nat) :
    '{' ∉ Mark.seed.value name seed := by
  cases seed with
  | none => exact List.not_mem_nil
  | some n => exact fun h => absurd (isDigit_of_mem_repr h) (by decide)

end Mark

theorem isSome_afterStart?_iff {what cs : List Char} :
    (afterStart? what cs).isSome ↔ what <+: cs := by
  rw [afterStart?, List.prefix_iff_eq_take, @eq_comm _ what]
  split <;> simp [*]

/-! ### Occurrences -/

/-- How often a text occurs in another one. -/
def occurrences (what : List Char) : List Char → Nat
  | [] => 0
  | c :: rest => (if what <+: c :: rest then 1 else 0) + occurrences what rest

section Pass

variable {what old new tail xs cs : List Char} {skip : Nat}

theorem le_occurrences_append (what xs cs : List Char) :
    occurrences what cs ≤ occurrences what (xs ++ cs) := by
  induction xs with
  | nil => exact Nat.le_refl _
  | cons x xs ih =>
    rw [List.cons_append, occurrences]
    omega

theorem not_prefix_cons {c : Char} (hc : c ≠ '{') : ¬ '{' :: tail <+: c :: cs := by
  rw [List.cons_prefix_cons]
  rintro ⟨rfl, -⟩
  exact hc rfl

/-- No placeholder starts within characters that are no braces. -/
theorem occurrences_append (h : '{' ∉ xs) :
    occurrences ('{' :: tail) (xs ++ cs) = occurrences ('{' :: tail) cs := by
  induction xs with
  | nil => rfl
  | cons x xs ih =>
    obtain ⟨hx, hxs⟩ := not_or.1 (mt List.mem_cons.2 h)
    rw [List.cons_append, occurrences, if_neg (not_prefix_cons (Ne.symm hx)), ih hxs, Nat.zero_add]

theorem occurrences_self_append (h : '{' ∉ tail) (cs : List Char) :
    occurrences ('{' :: tail) ('{' :: tail ++ cs) = 1 + occurrences ('{' :: tail) cs := by
  rw [List.cons_append, occurrences, occurrences_append h, if_pos]
  exact List.prefix_append ('{' :: tail) cs

/-! ### One pass -/

theorem replaceFrom_skip (old new xs cs : List Char) :
    replaceFrom old new xs.length (xs ++ cs) = replaceFrom old new 0 cs := by
  induction xs with
  | nil => rfl
  | cons x xs ih => exact ih

theorem replaceFrom_self_append (c : Char) (tail new cs : List Char) :
    replaceFrom (c :: tail) new 0 (c :: tail ++ cs) = new ++ replaceFrom (c :: tail) new 0 cs := by
  have hprefix : c :: tail <+: c :: (tail ++ cs) := List.prefix_append (c :: tail) cs
  rw [List.cons_append, replaceFrom, if_pos (isSome_afterStart?_iff.2 hprefix)]
  exact congrArg (new ++ ·) (replaceFrom_skip _ _ tail cs)

/-- Characters in which nothing starts that is to be replaced stay as they are. -/
theorem replaceFrom_append (h : occurrences old (xs ++ cs) = occurrences old cs) :
    replaceFrom old new 0 (xs ++ cs) = xs ++ replaceFrom old new 0 cs := by
  induction xs with
  | nil => rfl
  | cons x xs ih =>
    have hle := le_occurrences_append old xs cs
    rw [List.cons_append, occurrences] at h
    have hnot : ¬ old <+: x :: (xs ++ cs) := by
      intro hprefix
      rw [if_pos hprefix] at h
      omega
    rw [List.cons_append, replaceFrom, if_neg (mt isSome_afterStart?_iff.1 hnot),
      ih (by omega), List.cons_append]

/-- Every occurrence that is replaced takes its brace away. -/
theorem count_replaceFrom (htail : '{' ∉ tail) (hnew : '{' ∉ new) (hskip : '{' ∉ cs.take skip) :
    (replaceFrom ('{' :: tail) new skip cs).count '{' + occurrences ('{' :: tail) cs =
      cs.count '{' := by
  induction cs generalizing skip with
  | nil => simp [replaceFrom, occurrences]
  | cons c cs ih =>
    cases skip with
    | succ skip =>
      obtain ⟨hc, hskip⟩ := not_or.1 (mt List.mem_cons.2 hskip)
      rw [replaceFrom, occurrences, if_neg (not_prefix_cons (Ne.symm hc)),
        List.count_cons_of_ne (Ne.symm hc), Nat.zero_add, ih hskip]
    | zero =>
      rw [replaceFrom, occurrences]
      by_cases hprefix : '{' :: tail <+: c :: cs
      · obtain ⟨rfl, rest, rfl⟩ := List.cons_prefix_cons.1 hprefix
        have htake : '{' ∉ (tail ++ rest).take tail.length := by rwa [List.take_left]
        have hcount := ih htake
        rw [if_pos (isSome_afterStart?_iff.2 hprefix), if_pos hprefix, List.count_append,
          List.count_eq_zero.2 hnew, List.count_cons_self, List.length_cons, Nat.add_sub_cancel]
        omega
      · have htake : '{' ∉ cs.take 0 := List.not_mem_nil
        have hcount := ih htake
        rw [if_neg (mt isSome_afterStart?_iff.1 hprefix), if_neg hprefix, List.count_cons,
          List.count_cons]
        omega

end Pass

/-! ### Parts of a pattern -/

/-- A part of a pattern: a character that stays, or a placeholder. -/
inductive Part where
  | char (c : Char)
  | mark (m : Mark)
deriving DecidableEq, Repr

/-- The placeholder at the start of a text. -/
def markAt? (cs : List Char) : Option Mark := Mark.all.find? fun m => (afterStart? m.chars cs).isSome

/-- The parts of a text from left to right. The number says how many characters of a placeholder are
still to be passed over. -/
def partsFrom : (skip : Nat) → List Char → List Part
  | _, [] => []
  | skip + 1, _ :: rest => partsFrom skip rest
  | 0, c :: rest =>
    match markAt? (c :: rest) with
    | some m => .mark m :: partsFrom (m.chars.length - 1) rest
    | none => .char c :: partsFrom 0 rest

/-- The parts of a pattern. -/
def parts (pattern : String) : List Part := partsFrom 0 pattern.toList

/-- The text of a part, given the texts of the placeholders. -/
def Part.text (value : Mark → List Char) : Part → List Char
  | char c => [c]
  | mark m => value m

/-- The text of parts in a row. -/
def render (value : Mark → List Char) (ps : List Part) : List Char := ps.flatMap (Part.text value)

/-- The pattern with the texts of a run in the places of all placeholders. -/
def fill (pattern name : String) (seed : Option Nat) : String :=
  String.ofList (render (Mark.value name seed) (parts pattern))

variable {m : Mark} {value : Mark → List Char} {new cs : List Char} {ps : List Part} {skip : Nat}

@[simp] theorem render_nil (value : Mark → List Char) : render value [] = [] := rfl

@[simp] theorem render_cons (value : Mark → List Char) (p : Part) (ps : List Part) :
    render value (p :: ps) = p.text value ++ render value ps := rfl

@[simp] theorem Part.text_char (value : Mark → List Char) (c : Char) : (char c).text value = [c] := rfl

@[simp] theorem Part.text_mark (value : Mark → List Char) (m : Mark) : (mark m).text value = value m :=
  rfl

theorem prefix_of_markAt? (h : markAt? cs = some m) : m.chars <+: cs :=
  isSome_afterStart?_iff.1 (List.find?_some (p := fun m => (afterStart? (Mark.chars m) cs).isSome) h)

theorem markAt?_eq_some_iff : markAt? cs = some m ↔ m.chars <+: cs := by
  refine ⟨prefix_of_markAt?, fun h => ?_⟩
  cases hm : markAt? cs with
  | none =>
    have hnot := List.find?_eq_none.1 hm m m.mem_all
    exact (hnot (isSome_afterStart?_iff.2 h)).elim
  | some m' => rw [Mark.eq_of_prefix (prefix_of_markAt? hm) h]

theorem render_partsFrom (skip : Nat) (cs : List Char) :
    render Mark.chars (partsFrom skip cs) = cs.drop skip := by
  induction cs generalizing skip with
  | nil => simp [partsFrom]
  | cons c cs ih =>
    cases skip with
    | succ skip => exact ih skip
    | zero =>
      rw [partsFrom]
      cases hm : markAt? (c :: cs) with
      | none => simp [ih]
      | some m =>
        obtain ⟨rest, hrest⟩ := markAt?_eq_some_iff.1 hm
        obtain ⟨tail, heq, -⟩ := m.exists_chars_eq
        rw [heq, List.cons_append] at hrest
        obtain ⟨rfl, rfl⟩ := List.cons.inj hrest
        simp [ih, heq]

/-- The parts have a placeholder as often as it occurs in the text. -/
theorem count_partsFrom (m : Mark) (hskip : '{' ∉ cs.take skip) :
    (partsFrom skip cs).count (.mark m) = occurrences m.chars cs := by
  obtain ⟨tail, heq, -⟩ := m.exists_chars_eq
  induction cs generalizing skip with
  | nil => rw [partsFrom, occurrences, List.count_nil]
  | cons c cs ih =>
    cases skip with
    | succ skip =>
      obtain ⟨hc, hskip⟩ := not_or.1 (mt List.mem_cons.2 hskip)
      have hnot : ¬ m.chars <+: c :: cs := by
        rw [heq]
        exact not_prefix_cons (Ne.symm hc)
      rw [partsFrom, occurrences, if_neg hnot, Nat.zero_add, ih hskip]
    | zero =>
      rw [partsFrom, occurrences]
      cases hm : markAt? (c :: cs) with
      | none =>
        have hnot : ¬ m.chars <+: c :: cs := by
          rw [← markAt?_eq_some_iff, hm]
          exact nofun
        rw [if_neg hnot, Nat.zero_add, List.count_cons_of_ne (by simp), ih List.not_mem_nil]
      | some m' =>
        have hprefix := markAt?_eq_some_iff.1 hm
        obtain ⟨tail', heq', htail'⟩ := m'.exists_chars_eq
        rw [heq'] at hprefix
        obtain ⟨rfl, rest, rfl⟩ := List.cons_prefix_cons.1 hprefix
        have hrest : '{' ∉ (tail' ++ rest).take (m'.chars.length - 1) := by
          rwa [heq', List.length_cons, Nat.add_sub_cancel, List.take_left]
        rw [List.count_cons, ih hrest]
        by_cases h : m = m'
        · subst h
          have hp : m.chars <+: '{' :: (tail' ++ rest) := markAt?_eq_some_iff.1 hm
          simp [hp, Nat.add_comm]
        · have hnot : ¬ m.chars <+: '{' :: (tail' ++ rest) := by
            rw [← markAt?_eq_some_iff, hm]
            simpa using Ne.symm h
          simp [hnot, Ne.symm h]

/-! ### Passes over parts -/

theorem Part.text_update {p : Part} (hp : p ≠ .mark m) (value : Mark → List Char) (new : List Char) :
    p.text (Function.update value m new) = p.text value := by
  cases p with
  | char c => rfl
  | mark m' =>
    have hne : m' ≠ m := by
      rintro rfl
      exact hp rfl
    simp [hne]

theorem count_le_occurrences (hm : value m = m.chars) :
    ps.count (.mark m) ≤ occurrences m.chars (render value ps) := by
  obtain ⟨tail, heq, htail⟩ := m.exists_chars_eq
  induction ps with
  | nil => exact Nat.zero_le _
  | cons p ps ih =>
    rw [render_cons]
    by_cases hp : p = .mark m
    · subst hp
      rw [List.count_cons_self, Part.text_mark, hm, heq, occurrences_self_append htail, ← heq]
      omega
    · have hle := le_occurrences_append m.chars (p.text value) (render value ps)
      rw [List.count_cons_of_ne hp]
      omega

/-- A pass over a text in which a placeholder occurs only where the parts have it replaces just
these. -/
theorem replaceFrom_render (hm : value m = m.chars)
    (hcount : occurrences m.chars (render value ps) = ps.count (.mark m)) (new : List Char) :
    replaceFrom m.chars new 0 (render value ps) = render (Function.update value m new) ps := by
  obtain ⟨tail, heq, htail⟩ := m.exists_chars_eq
  induction ps with
  | nil => rfl
  | cons p ps ih =>
    have hle : ps.count (.mark m) ≤ occurrences m.chars (render value ps) := count_le_occurrences hm
    rw [render_cons] at hcount
    rw [render_cons, render_cons]
    by_cases hp : p = .mark m
    · subst hp
      rw [Part.text_mark, hm, heq, occurrences_self_append htail, ← heq, List.count_cons_self]
        at hcount
      rw [Part.text_mark, hm, heq, replaceFrom_self_append, ← heq, ih (by omega), Part.text_mark,
        Function.update_self]
    · have hstays := le_occurrences_append m.chars (p.text value) (render value ps)
      rw [List.count_cons_of_ne hp] at hcount
      rw [replaceFrom_append (by omega), ih (by omega), Part.text_update hp]

/-- A placeholder occurs only where the parts have it if the other parts are without braces or are
other placeholders. -/
theorem occurrences_render (hm : value m = m.chars)
    (hparts : ∀ p ∈ ps, p ≠ .mark m → '{' ∉ p.text value ∨ ∃ m' ≠ m, p.text value = m'.chars) :
    occurrences m.chars (render value ps) = ps.count (.mark m) := by
  obtain ⟨tail, heq, htail⟩ := m.exists_chars_eq
  induction ps with
  | nil => rfl
  | cons p ps ih =>
    obtain ⟨hfirst, hps⟩ := List.forall_mem_cons.1 hparts
    rw [render_cons]
    by_cases hp : p = .mark m
    · subst hp
      rw [List.count_cons_self, Part.text_mark, hm, heq, occurrences_self_append htail, ← heq, ih hps]
      omega
    · rw [List.count_cons_of_ne hp, ← ih hps]
      obtain hfree | ⟨m', hne, htext⟩ := hfirst hp
      · rw [heq, occurrences_append hfree]
      · obtain ⟨tail', heq', htail'⟩ := m'.exists_chars_eq
        have hnot : ¬ m.chars <+: m'.chars ++ render value ps := fun hprefix =>
          hne (Mark.eq_of_prefix (List.prefix_append _ _) hprefix)
        rw [heq', List.cons_append] at hnot
        rw [htext, heq', List.cons_append, occurrences, if_neg hnot, Nat.zero_add, heq,
          occurrences_append htail']

/-- Replacing a placeholder of the parts takes its brace away. -/
theorem count_render (hm : value m = m.chars) (hnew : '{' ∉ new) :
    (render (Function.update value m new) ps).count '{' + ps.count (.mark m) =
      (render value ps).count '{' := by
  obtain ⟨tail, heq, htail⟩ := m.exists_chars_eq
  induction ps with
  | nil => rfl
  | cons p ps ih =>
    rw [render_cons, render_cons, List.count_append, List.count_append]
    by_cases hp : p = .mark m
    · subst hp
      rw [List.count_cons_self, Part.text_mark, Part.text_mark, hm, heq, Function.update_self,
        List.count_eq_zero.2 hnew, List.count_cons_self, List.count_eq_zero.2 htail]
      omega
    · rw [List.count_cons_of_ne hp, Part.text_update hp]
      omega

/-! ### Expansion -/

/-- How often a placeholder occurs in a text. -/
def Mark.count (m : Mark) (text : String) : Nat := occurrences m.chars text.toList

/-- The pattern after the first pass, which puts in the name without slashes. -/
def flatNamed (pattern name : String) : String := replace pattern flatNameMark (flatten name)

/-- The pattern after the second pass, which puts in the name as it is. -/
def named (pattern name : String) : String := replace (flatNamed pattern name) nameMark name

variable {pattern name : String}

theorem count_parts (m : Mark) (pattern : String) : (parts pattern).count (.mark m) = m.count pattern :=
  count_partsFrom m List.not_mem_nil

theorem render_parts (pattern : String) : render Mark.chars (parts pattern) = pattern.toList :=
  render_partsFrom 0 pattern.toList

/-- The texts of the placeholders after the first pass. -/
def flatTexts (name : String) : Mark → List Char :=
  Function.update Mark.chars .flatName (flatten name).toList

/-- The texts of the placeholders after the second pass. -/
def nameTexts (name : String) : Mark → List Char :=
  Function.update (flatTexts name) .name name.toList

theorem value_eq_update (name : String) (seed : Option Nat) :
    Mark.value name seed = Function.update (nameTexts name) .seed (Mark.seed.value name seed) := by
  funext m
  cases m <;> simp [nameTexts, flatTexts, Mark.value]

theorem toList_flatNamed (pattern name : String) :
    (flatNamed pattern name).toList = render (flatTexts name) (parts pattern) := by
  have hcount : occurrences Mark.flatName.chars (render Mark.chars (parts pattern)) =
      (parts pattern).count (.mark .flatName) := by
    rw [render_parts, count_parts, Mark.count]
  have hpass := replaceFrom_render rfl hcount (flatten name).toList
  rw [render_parts] at hpass
  rw [flatNamed, replace, String.toList_ofList]
  exact hpass

theorem toList_named (h : Mark.name.count (flatNamed pattern name) = Mark.name.count pattern) :
    (named pattern name).toList = render (nameTexts name) (parts pattern) := by
  have hcount : occurrences Mark.name.chars (render (flatTexts name) (parts pattern)) =
      (parts pattern).count (.mark .name) := by
    rw [count_parts, ← toList_flatNamed]
    exact h
  have hname : flatTexts name .name = Mark.name.chars := rfl
  have hpass := replaceFrom_render hname hcount name.toList
  rw [← toList_flatNamed] at hpass
  rw [named, replace, String.toList_ofList]
  exact hpass

theorem toList_expand (pattern name : String) (seed : Option Nat) :
    (expand pattern name seed).toList =
      replaceFrom Mark.seed.chars (Mark.seed.value name seed) 0 (named pattern name).toList :=
  String.toList_ofList

theorem toList_fill (pattern name : String) (seed : Option Nat) :
    (fill pattern name seed).toList = render (Mark.value name seed) (parts pattern) :=
  String.toList_ofList

/-- The name brings no placeholder into the pattern: the name without slashes no one of the name, and
both names no one of the seed. -/
structure Inert (pattern name : String) : Prop where
  names : Mark.name.count (flatNamed pattern name) = Mark.name.count pattern
  seeds : Mark.seed.count (named pattern name) = Mark.seed.count pattern

instance (pattern name : String) : Decidable (Inert pattern name) :=
  decidable_of_iff (_ ∧ _) ⟨fun h => ⟨h.1, h.2⟩, fun h => ⟨h.1, h.2⟩⟩

theorem not_mem_flatten (h : '{' ∉ name.toList) : '{' ∉ (flatten name).toList := by
  rw [flatten, String.toList_ofList, List.mem_map]
  rintro ⟨c, hc, heq⟩
  split at heq
  · exact absurd heq (by decide)
  · exact h (heq ▸ hc)

/-- A name without braces brings no placeholder into a pattern whose other characters are no braces. -/
theorem inert_of_braceless (hname : '{' ∉ name.toList) (hpattern : .char '{' ∉ parts pattern) :
    Inert pattern name := by
  have hchar {c : Char} (hc : .char c ∈ parts pattern) : '{' ∉ [c] := by
    intro hmem
    obtain rfl := List.mem_singleton.1 hmem
    exact hpattern hc
  have hnames : Mark.name.count (flatNamed pattern name) = Mark.name.count pattern := by
    rw [← count_parts .name pattern, Mark.count, toList_flatNamed]
    refine occurrences_render rfl fun p hp hne => ?_
    match p, hp, hne with
    | .char c, hp, _ => exact .inl (hchar hp)
    | .mark .name, _, hne => exact (hne rfl).elim
    | .mark .flatName, _, _ => exact .inl (not_mem_flatten hname)
    | .mark .seed, _, _ => exact .inr ⟨.seed, by decide, rfl⟩
  refine ⟨hnames, ?_⟩
  rw [← count_parts .seed pattern, Mark.count, toList_named hnames]
  refine occurrences_render rfl fun p hp hne => ?_
  match p, hp, hne with
  | .char c, hp, _ => exact .inl (hchar hp)
  | .mark .name, _, _ => exact .inl hname
  | .mark .flatName, _, _ => exact .inl (not_mem_flatten hname)
  | .mark .seed, _, hne => exact (hne rfl).elim

/-- Where the name brings no placeholder into the pattern, the expansion fills it in. -/
theorem expand_of_inert (h : Inert pattern name) (seed : Option Nat) :
    expand pattern name seed = fill pattern name seed := by
  have hcount : occurrences Mark.seed.chars (render (nameTexts name) (parts pattern)) =
      (parts pattern).count (.mark .seed) := by
    rw [count_parts, ← toList_named h.names]
    exact h.seeds
  have hseed : nameTexts name .seed = Mark.seed.chars := rfl
  have hpass := replaceFrom_render hseed hcount (Mark.seed.value name seed)
  apply String.toList_injective
  rw [toList_expand, toList_fill, toList_named h.names, hpass, ← value_eq_update]

/-- Where the name without slashes brings no placeholder of the name into the pattern, the expansion
fills the pattern in exactly if the names bring no placeholder of the seed into it. -/
theorem expand_eq_fill_iff (h : Mark.name.count (flatNamed pattern name) = Mark.name.count pattern)
    (seed : Option Nat) :
    expand pattern name seed = fill pattern name seed ↔
      Mark.seed.count (named pattern name) = Mark.seed.count pattern := by
  refine ⟨fun heq => ?_, fun hseed => expand_of_inert ⟨h, hseed⟩ seed⟩
  -- Both sides have the braces of the text after two passes, less one for each replaced placeholder.
  obtain ⟨tail, hchars, htail⟩ := Mark.seed.exists_chars_eq
  have hseed := Mark.not_mem_value_seed name seed
  have hexpand : ((expand pattern name seed).toList).count '{' + Mark.seed.count (named pattern name) =
      (named pattern name).toList.count '{' := by
    rw [toList_expand, Mark.count, hchars]
    exact count_replaceFrom htail hseed List.not_mem_nil
  have hfill : ((fill pattern name seed).toList).count '{' + Mark.seed.count pattern =
      (named pattern name).toList.count '{' := by
    rw [toList_fill, value_eq_update, ← count_parts, toList_named h]
    exact count_render rfl hseed
  rw [heq] at hexpand
  omega

/-- A pattern with every placeholder. -/
def samplePattern : String := "\x7bname\x7d/\x7bflat_name\x7d-\x7bseed\x7d.json"

theorem expand_eq_fill_iff_slashes :
    Mark.name.count (flatNamed samplePattern "a/b") = Mark.name.count samplePattern ∧
      expand samplePattern "a/b" (some 4) = fill samplePattern "a/b" (some 4) ∧
      fill samplePattern "a/b" (some 4) = "a/b/a_b-4.json" := by
  have hname : Mark.name.count (flatNamed samplePattern "a/b") = Mark.name.count samplePattern := by
    decide +kernel
  exact ⟨hname, (expand_eq_fill_iff hname _).2 (by decide +kernel), by decide +kernel⟩

/-- A name with a placeholder is not inserted as it is: the seed takes the place of the placeholder. -/
theorem name_expanded_again :
    ¬ ∀ (pattern name : String) (seed : Option Nat),
      expand pattern name seed = fill pattern name seed := by
  intro h
  have hagain := h "\x7bname\x7d.log" "a\x7bseed\x7d" (some 1)
  revert hagain
  decide +kernel

end Pattern

end Scheduling
