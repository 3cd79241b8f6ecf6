import Scheduling.Proofs.Json.Nesting
import Scheduling.Proofs.Json.Scalar

/-!
# Reading what was written

A value that can be written has one text for each way to space it out; the text on one line and the
indented one are two of these (`compact_eq`, `prettyAt_eq`). From any of them the value is read back
up to what lies too deep (`ofText?_compact`, `ofText?_pretty`).
-/

namespace Scheduling

namespace Json

variable {cs rest : List Char} {j : Json} {fuel depth : Nat}

/-! ### Texts with blanks -/

/-- The blanks between the parts of a value. -/
structure Spacing where
  /-- What stands before an item at a level, and before the end of an array or object there. -/
  gap : (level : Nat) → List Char
  /-- What stands after the colon of a member. -/
  space : List Char
  gap_blank : ∀ level, ∀ c ∈ gap level, isBlank c
  space_blank : ∀ c ∈ space, isBlank c

namespace Spacing

/-- No blanks at all. -/
def none : Spacing := ⟨fun _ => [], [], by simp, by simp⟩

/-- A line for each item. -/
def lines : Spacing where
  gap level := (newLine level).toList
  space := [' ']
  gap_blank level c hc := by
    have hc : c ∈ '\n' :: List.replicate (2 * level) ' ' := by simpa [newLine] using hc
    obtain rfl | hc := List.mem_cons.1 hc
    · rfl
    · rw [List.eq_of_mem_replicate hc]
      rfl
  space_blank c hc := by
    obtain rfl : c = ' ' := by simpa using hc
    rfl

end Spacing

mutual

/-- The text of a value. -/
def spell (s : Spacing) (level : Nat) : Json → List Char
  | arr [] => ['[', ']']
  | obj [] => ['\x7b', '\x7d']
  | arr items => '[' :: (spellItems s (level + 1) items ++ (s.gap level ++ [']']))
  | obj members => '\x7b' :: (spellMembers s (level + 1) members ++ (s.gap level ++ ['\x7d']))
  | j => (compact j).toList

/-- The text of items. -/
def spellItems (s : Spacing) (level : Nat) : List Json → List Char
  | [] => []
  | [j] => s.gap level ++ spell s level j
  | j :: k :: rest => s.gap level ++ (spell s level j ++ ',' :: spellItems s level (k :: rest))

/-- The text of members. -/
def spellMembers (s : Spacing) (level : Nat) : List (String × Json) → List Char
  | [] => []
  | [(key, j)] => s.gap level ++ ((writeString key).toList ++ ':' :: (s.space ++ spell s level j))
  | (key, j) :: m :: rest =>
    s.gap level ++ ((writeString key).toList
      ++ ':' :: (s.space ++ (spell s level j ++ ',' :: spellMembers s level (m :: rest))))

end

/-! ### Writing -/

theorem compactItems_false (j : Json) (rest : List Json) :
    compactItems (j :: rest) false = "," ++ compactItems (j :: rest) true := by
  simp [compactItems, String.append_assoc]

theorem compactMembers_false (m : String × Json) (rest : List (String × Json)) :
    compactMembers (m :: rest) false = "," ++ compactMembers (m :: rest) true := by
  simp [compactMembers, String.append_assoc]

mutual

theorem compact_eq (j : Json) (level : Nat) : (compact j).toList = spell .none level j := by
  match j with
  | arr [] => rfl
  | obj [] => rfl
  | arr (j :: rest) => simp [compact, spell, compactItems_eq (j :: rest) (level + 1), Spacing.none]
  | obj (m :: rest) => simp [compact, spell, compactMembers_eq (m :: rest) (level + 1), Spacing.none]
  | null | bool _ | int _ | float _ | str _ | flaw _ => rfl

theorem compactItems_eq (items : List Json) (level : Nat) :
    (compactItems items true).toList = spellItems .none level items := by
  match items with
  | [] => rfl
  | [j] => simp [compactItems, spellItems, compact_eq j level, Spacing.none]
  | j :: k :: rest =>
    rw [compactItems, compactItems_false]
    simp [spellItems, compact_eq j level, compactItems_eq (k :: rest) level, Spacing.none]

theorem compactMembers_eq (members : List (String × Json)) (level : Nat) :
    (compactMembers members true).toList = spellMembers .none level members := by
  match members with
  | [] => rfl
  | [(key, j)] => simp [compactMembers, spellMembers, compact_eq j level, Spacing.none]
  | (key, j) :: m :: rest =>
    rw [compactMembers, compactMembers_false]
    simp [spellMembers, compact_eq j level, compactMembers_eq (m :: rest) level, Spacing.none]

end

theorem prettyItems_false (level : Nat) (j : Json) (rest : List Json) :
    prettyItems level (j :: rest) false = "," ++ prettyItems level (j :: rest) true := by
  simp [prettyItems, String.append_assoc]

theorem prettyMembers_false (level : Nat) (m : String × Json) (rest : List (String × Json)) :
    prettyMembers level (m :: rest) false = "," ++ prettyMembers level (m :: rest) true := by
  simp [prettyMembers, String.append_assoc]

mutual

theorem prettyAt_eq (j : Json) (level : Nat) : (prettyAt level j).toList = spell .lines level j := by
  match j with
  | arr [] => simp [prettyAt, spell]
  | obj [] => simp [prettyAt, spell]
  | arr (j :: rest) => simp [prettyAt, spell, prettyItems_eq (j :: rest) level, Spacing.lines]
  | obj (m :: rest) => simp [prettyAt, spell, prettyMembers_eq (m :: rest) level, Spacing.lines]
  | null | bool _ | int _ | float _ | str _ | flaw _ => rfl

theorem prettyItems_eq (items : List Json) (level : Nat) :
    (prettyItems level items true).toList = spellItems .lines (level + 1) items := by
  match items with
  | [] => rfl
  | [j] => simp [prettyItems, spellItems, prettyAt_eq j (level + 1), Spacing.lines]
  | j :: k :: rest =>
    rw [prettyItems, prettyItems_false]
    simp [spellItems, prettyAt_eq j (level + 1), prettyItems_eq (k :: rest) level, Spacing.lines]

theorem prettyMembers_eq (members : List (String × Json)) (level : Nat) :
    (prettyMembers level members true).toList = spellMembers .lines (level + 1) members := by
  match members with
  | [] => rfl
  | [(key, j)] => simp [prettyMembers, spellMembers, prettyAt_eq j (level + 1), Spacing.lines]
  | (key, j) :: m :: rest =>
    rw [prettyMembers, prettyMembers_false]
    simp [spellMembers, prettyAt_eq j (level + 1), prettyMembers_eq (m :: rest) level,
      Spacing.lines]

end

/-! ### Scalars -/

theorem isBlank_of_isDigit {c : Char} (h : c.isDigit) : isBlank c = false := by
  have hne {b : Char} (hb : b.isDigit = false) : c ≠ b := by
    rintro rfl
    exact absurd h (by simp [hb])
  simp only [isBlank, Bool.or_eq_false_iff, decide_eq_false_iff_not]
  exact ⟨⟨⟨hne rfl, hne rfl⟩, hne rfl⟩, hne rfl⟩

theorem readValue_numeral (h : Numeral cs j) (hr : Ends rest) :
    readValue (fuel + 1) depth (cs ++ rest) = (j, some rest) := by
  obtain ⟨n, hn, hv⟩ := h.numberText hr
  obtain ⟨c, tail, hcs, hc⟩ := exists_cons_of_numberText hn
  have hskip : skipBlanks (cs ++ rest) = cs ++ rest := by
    rw [hcs]
    obtain rfl | hc := hc
    · rfl
    · exact skipBlanks_cons (isBlank_of_isDigit hc)
  have hhead {d : Char} {more : List Char} (he : cs ++ rest = d :: more) : d = '-' ∨ d.isDigit := by
    rw [hcs] at he
    exact (List.cons.inj he).1 ▸ hc
  rw [readValue, hskip]
  split
  iterate 6
    rename_i he
    exact absurd (hhead he) (by decide)
  · simp only [hn, hv, Option.getD_some]

theorem length_le_flatMap (s : List Char) : s.length ≤ (s.flatMap escapeChar).length := by
  have hpos (c : Char) : 0 < (escapeChar c).length := by
    unfold escapeChar
    repeat' split
    all_goals simp
  induction s with
  | nil => simp
  | cons c s ih =>
    have := hpos c
    simp only [List.length_cons, List.flatMap_cons, List.length_append]
    omega

/-- A written string starts with a quote, and its parts are read up to the other quote. -/
theorem exists_stringParts (s : String) (rest : List Char) :
    ∃ tail, (writeString s).toList ++ rest = '"' :: tail ∧
      stringParts (tail.length + 1) tail = some (s.toList.map part, rest) := by
  refine ⟨s.toList.flatMap escapeChar ++ '"' :: rest, by simp [writeString], ?_⟩
  refine stringParts_flatMap s.toList ?_
  have := length_le_flatMap s.toList
  simp only [List.length_append, List.length_cons]
  omega

theorem readValue_string (s : String) :
    readValue (fuel + 1) depth ((writeString s).toList ++ rest) = (.str s, some rest) := by
  obtain ⟨tail, htext, hparts⟩ := exists_stringParts s rest
  rw [htext, readValue, skipBlanks_cons rfl]
  simp only [hparts, joinParts_map_part, String.ofList_toList]

theorem ends_of_isBlank {c : Char} (h : isBlank c) : Ends (c :: rest) := by
  simp only [isBlank, Bool.or_eq_true, decide_eq_true_eq] at h
  obtain ((rfl | rfl) | rfl) | rfl := h <;> exact ends_cons (by decide)

/-! ### Arrays and objects -/

section Parts

variable {tail more : List Char} {items : List Json} {members : List (String × Json)}

/-- No item starts with the end of its array. -/
theorem skipBlanks_ne_bracket (h : readItems fuel depth cs = (items, some rest)) :
    skipBlanks cs ≠ ']' :: more := by
  intro hs
  cases fuel with
  | zero => simp [readItems] at h
  | succ fuel =>
    rw [← readItems_skipBlanks, hs, readItems] at h
    cases fuel with
    | zero => simp [readValue, brokenHere] at h
    | succ fuel =>
      have hb : readValue (fuel + 1) depth (']' :: more) = brokenHere := by
        rw [readValue, skipBlanks_cons rfl]
        rfl
      simp [hb, brokenHere] at h

theorem readValue_arr (h : readItems fuel (depth + 1) cs = (items, some rest)) :
    readValue (fuel + 1) depth ('[' :: cs) =
      (if depthMax ≤ depth then .flaw .unreadable else .arr items, some rest) := by
  simp only [readValue, skipBlanks_cons (show isBlank '[' = false from rfl)]
  split
  · rename_i hs
    exact (skipBlanks_ne_bracket h hs).elim
  · rw [readItems_skipBlanks, h]
    by_cases hd : depthMax ≤ depth <;> simp [hd]

theorem readItems_last (h : readValue fuel depth cs = (j, some tail))
    (ht : skipBlanks tail = ']' :: rest) : readItems (fuel + 1) depth cs = ([j], some rest) := by
  rw [readItems, h]
  simp only [ht]

theorem readItems_more (h : readValue fuel depth cs = (j, some tail))
    (ht : skipBlanks tail = ',' :: more) (hm : readItems fuel depth more = (items, some rest)) :
    readItems (fuel + 1) depth cs = (j :: items, some rest) := by
  rw [readItems, h]
  simp only [ht, hm]

/-- No member starts with the end of its object. -/
theorem skipBlanks_ne_brace (h : readMembers fuel depth cs = (some members, some rest)) :
    skipBlanks cs ≠ '\x7d' :: more := by
  intro hs
  cases fuel with
  | zero => simp [readMembers] at h
  | succ fuel =>
    rw [readMembers, hs] at h
    simp at h

theorem readValue_obj (h : readMembers fuel (depth + 1) cs = (some members, some rest)) :
    readValue (fuel + 1) depth ('\x7b' :: cs) =
      (if depthMax ≤ depth then .flaw .unreadable else .obj members, some rest) := by
  have hne (more : List Char) : skipBlanks cs ≠ '\x7d' :: more := skipBlanks_ne_brace h
  rw [← readMembers_skipBlanks] at h
  simp only [readValue, skipBlanks_cons (show isBlank '\x7b' = false from rfl)]
  cases hs : skipBlanks cs with
  | nil =>
    rw [hs] at h
    by_cases hd : depthMax ≤ depth <;> simp [h, hd]
  | cons c t =>
    have hc : c ≠ '\x7d' := fun he => hne t (he ▸ hs)
    rw [hs] at h
    by_cases hd : depthMax ≤ depth <;> simp [h, hd]

section Member

variable (key : String) {space : List Char} (hs : ∀ c ∈ space, isBlank c)
  (h : readValue fuel depth cs = (j, some tail))

include hs h

theorem readMembers_last (ht : skipBlanks tail = '\x7d' :: rest) :
    readMembers (fuel + 1) depth ((writeString key).toList ++ ':' :: (space ++ cs)) =
      (some [(key, j)], some rest) := by
  obtain ⟨text, htext, hparts⟩ := exists_stringParts key (':' :: (space ++ cs))
  rw [htext]
  simp only [readMembers, skipBlanks_cons (show isBlank '"' = false from rfl), hparts,
    skipBlanks_cons (show isBlank ':' = false from rfl), joinParts_map_part, readValue_blanks hs, h,
    ht, Option.map_some, String.ofList_toList]

theorem readMembers_more (ht : skipBlanks tail = ',' :: more)
    (hm : readMembers fuel depth more = (some members, some rest)) :
    readMembers (fuel + 1) depth ((writeString key).toList ++ ':' :: (space ++ cs)) =
      (some ((key, j) :: members), some rest) := by
  obtain ⟨text, htext, hparts⟩ := exists_stringParts key (':' :: (space ++ cs))
  rw [htext]
  simp only [readMembers, skipBlanks_cons (show isBlank '"' = false from rfl), hparts,
    skipBlanks_cons (show isBlank ':' = false from rfl), joinParts_map_part, readValue_blanks hs, h,
    ht, hm, Option.map_some, String.ofList_toList]

end Member

end Parts

/-! ### Values -/

theorem ends_gap {c : Char} {gap : List Char} (hg : ∀ c ∈ gap, isBlank c) (hc : Ends (c :: rest)) :
    Ends (gap ++ c :: rest) := by
  cases gap with
  | nil => exact hc
  | cons d gap => exact ends_of_isBlank (hg d List.mem_cons_self)

theorem spell_arr (s : Spacing) (level : Nat) (items : List Json) :
    spell s level (arr (j :: items)) =
      '[' :: (spellItems s (level + 1) (j :: items) ++ (s.gap level ++ [']'])) := by
  rw [spell]
  simp

theorem spell_obj (s : Spacing) (level : Nat) (m : String × Json) (members : List (String × Json)) :
    spell s level (obj (m :: members)) =
      '\x7b' :: (spellMembers s (level + 1) (m :: members) ++ (s.gap level ++ ['\x7d'])) := by
  rw [spell]
  simp

theorem spell_ne_nil (s : Spacing) (level : Nat) (hj : Plain Faithful j) : spell s level j ≠ [] := by
  have hnumeral {cs : List Char} {j : Json} (h : Numeral cs j) : cs ≠ [] := by
    obtain ⟨n, hn, -⟩ := h
    obtain ⟨c, tail, rfl, -⟩ := exists_cons_of_numberText hn
    exact List.cons_ne_nil c tail
  cases j with
  | null => simp [spell, compact]
  | bool b => cases b <;> simp [spell, compact]
  | int v => exact hnumeral (numeral_intText hj.1 hj.2)
  | float x => exact hnumeral hj
  | str t => simp [spell, compact, writeString]
  | arr items => cases items <;> simp [spell]
  | obj members => cases members <;> simp [spell]
  | flaw f => exact hj.elim

mutual

/-- From its text a value is read back up to what lies too deep. -/
theorem readValue_spell (s : Spacing) (j : Json) (hj : Plain Faithful j) (level depth fuel : Nat)
    (rest : List Char) (hf : 2 * (spell s level j).length ≤ fuel) (hr : Ends rest) :
    readValue fuel depth (spell s level j ++ rest) = (clip depth j, some rest) := by
  obtain ⟨fuel, rfl⟩ : ∃ k, fuel = k + 1 := by
    have hpos := List.length_pos_iff.2 (spell_ne_nil s level hj)
    exact ⟨fuel - 1, by omega⟩
  cases j with
  | null => simp [spell, compact, readValue, skipBlanks_cons, isBlank, clip]
  | bool b => cases b <;> simp [spell, compact, readValue, skipBlanks_cons, isBlank, clip]
  | int v => exact readValue_numeral (numeral_intText hj.1 hj.2) hr
  | float x => exact readValue_numeral hj hr
  | str t => exact readValue_string t
  | arr items =>
    cases items with
    | nil =>
      by_cases hd : depthMax ≤ depth <;>
        simp [spell, readValue, skipBlanks_cons, isBlank, clip, clipItems, hd]
    | cons k items =>
      rw [spell_arr, List.length_cons, List.length_append] at hf
      have h := readItems_spell s (k :: items) (by simp) hj (level + 1) (depth + 1) fuel (s.gap level)
        rest (s.gap_blank level) (by omega)
      rw [spell_arr, clip, List.cons_append, List.append_assoc, List.append_assoc]
      exact readValue_arr h
  | obj members =>
    cases members with
    | nil =>
      by_cases hd : depthMax ≤ depth <;>
        simp [spell, readValue, skipBlanks_cons, isBlank, clip, clipMembers, hd]
    | cons m members =>
      rw [spell_obj, List.length_cons, List.length_append] at hf
      have h := readMembers_spell s (m :: members) (by simp) hj (level + 1) (depth + 1) fuel
        (s.gap level) rest (s.gap_blank level) (by omega)
      rw [spell_obj, clip, List.cons_append, List.append_assoc, List.append_assoc]
      exact readValue_obj h
  | flaw f => exact hj.elim

theorem readItems_spell (s : Spacing) (items : List Json) (hne : items ≠ [])
    (hj : PlainItems Faithful items) (level depth fuel : Nat) (gap rest : List Char)
    (hg : ∀ c ∈ gap, isBlank c) (hf : 2 * (spellItems s level items).length + 1 ≤ fuel) :
    readItems fuel depth (spellItems s level items ++ (gap ++ ']' :: rest)) =
      (clipItems depth items, some rest) := by
  obtain ⟨fuel, rfl⟩ : ∃ k, fuel = k + 1 := ⟨fuel - 1, by omega⟩
  match items with
  | [] => exact absurd rfl hne
  | [j] =>
    rw [spellItems, List.length_append] at hf
    have h := readValue_spell s j hj.1 level depth fuel (gap ++ ']' :: rest) (by omega)
      (ends_gap hg (ends_cons (by decide)))
    rw [← readValue_blanks (s.gap_blank level)] at h
    rw [spellItems, List.append_assoc]
    exact readItems_last h (by rw [skipBlanks_append hg, skipBlanks_cons rfl])
  | j :: k :: items =>
    rw [spellItems, List.length_append, List.length_append, List.length_cons] at hf
    have hm := readItems_spell s (k :: items) (by simp) hj.2 level depth fuel gap rest hg (by omega)
    have h := readValue_spell s j hj.1 level depth fuel
      (',' :: (spellItems s level (k :: items) ++ (gap ++ ']' :: rest))) (by omega)
      (ends_cons (by decide))
    rw [← readValue_blanks (s.gap_blank level)] at h
    rw [spellItems, List.append_assoc, List.append_assoc, List.cons_append]
    exact readItems_more h (skipBlanks_cons rfl) hm

theorem readMembers_spell (s : Spacing) (members : List (String × Json)) (hne : members ≠ [])
    (hj : PlainMembers Faithful members) (level depth fuel : Nat) (gap rest : List Char)
    (hg : ∀ c ∈ gap, isBlank c) (hf : 2 * (spellMembers s level members).length + 1 ≤ fuel) :
    readMembers fuel depth (spellMembers s level members ++ (gap ++ '\x7d' :: rest)) =
      (some (clipMembers depth members), some rest) := by
  obtain ⟨fuel, rfl⟩ : ∃ k, fuel = k + 1 := ⟨fuel - 1, by omega⟩
  match members with
  | [] => exact absurd rfl hne
  | [(key, j)] =>
    simp only [spellMembers, List.length_append, List.length_cons] at hf
    have h := readValue_spell s j hj.1 level depth fuel (gap ++ '\x7d' :: rest) (by omega)
      (ends_gap hg (ends_cons (by decide)))
    have hlast := readMembers_last key s.space_blank h
      (by rw [skipBlanks_append hg, skipBlanks_cons rfl])
    rw [← readMembers_skipBlanks, spellMembers, List.append_assoc,
      skipBlanks_append (s.gap_blank level), readMembers_skipBlanks]
    simpa [clipMembers] using hlast
  | (key, j) :: m :: members =>
    simp only [spellMembers, List.length_append, List.length_cons] at hf
    have hm := readMembers_spell s (m :: members) (by simp) hj.2 level depth fuel gap rest hg
      (by omega)
    have h := readValue_spell s j hj.1 level depth fuel
      (',' :: (spellMembers s level (m :: members) ++ (gap ++ '\x7d' :: rest))) (by omega)
      (ends_cons (by decide))
    have hmore := readMembers_more key s.space_blank h (skipBlanks_cons rfl) hm
    rw [← readMembers_skipBlanks, spellMembers, List.append_assoc,
      skipBlanks_append (s.gap_blank level), readMembers_skipBlanks]
    simpa [clipMembers] using hmore

end

theorem ofText?_of_spell {text : String} {s : Spacing} (hj : Plain Faithful j)
    (h : text.toList = spell s 0 j) : ofText? text = some (clip 0 j) := by
  have hread := readValue_spell s j hj 0 0 (2 * text.length + 2) [] (by
    rw [← h, String.length_toList]
    omega) ends_nil
  rw [List.append_nil, ← h] at hread
  simp only [ofText?, read, hread]
  rfl

/-- What is read of a value that was written on one line. -/
theorem ofText?_compact (hj : Plain Faithful j) : ofText? j.compact = some (clip 0 j) :=
  ofText?_of_spell hj (compact_eq j 0)

/-- What is read of a value that was written indented. -/
theorem ofText?_pretty (hj : Plain Faithful j) : ofText? j.pretty = some (clip 0 j) :=
  ofText?_of_spell hj (prettyAt_eq j 0)

end Json

end Scheduling
