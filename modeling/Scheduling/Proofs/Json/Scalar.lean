import Mathlib.Data.List.Basic
import Mathlib.Data.List.DropRight
import Mathlib.Data.List.TakeWhile
import Mathlib.Tactic.Common
import Scheduling.Json.Reader
import Scheduling.Json.Writer

/-!
# Blanks, strings and numbers in JSON texts

What is read does not hang on the blanks in front. A string is read back from the text that is written
for it, whatever characters it has. A number is read up to the first character that cannot belong to it,
and an integer of 64 bits is read back exactly.
-/

namespace Scheduling

namespace Json

variable {cs rest : List Char} {j : Json} {n : NumberText} {fuel depth : Nat}

/-! ### Blanks -/

/-- The characters that may stand between the parts of a value. -/
def isBlank (c : Char) : Bool := c = ' ' || c = '\n' || c = '\t' || c = '\r'

theorem skipBlanks_append (h : ∀ c ∈ cs, isBlank c) : skipBlanks (cs ++ rest) = skipBlanks rest :=
  List.dropWhile_append_of_pos h

theorem skipBlanks_cons {c : Char} (h : isBlank c = false) : skipBlanks (c :: rest) = c :: rest :=
  List.dropWhile_cons_of_neg (p := isBlank) (by simp [h])

theorem skipBlanks_skipBlanks : skipBlanks (skipBlanks cs) = skipBlanks cs :=
  List.dropWhile_idempotent _ cs

theorem readValue_skipBlanks : readValue fuel depth (skipBlanks cs) = readValue fuel depth cs := by
  cases fuel with
  | zero => rfl
  | succ fuel => rw [readValue, readValue, skipBlanks_skipBlanks]

theorem readItems_skipBlanks : readItems fuel depth (skipBlanks cs) = readItems fuel depth cs := by
  cases fuel with
  | zero => rfl
  | succ fuel => rw [readItems, readItems, readValue_skipBlanks]

theorem readMembers_skipBlanks :
    readMembers fuel depth (skipBlanks cs) = readMembers fuel depth cs := by
  cases fuel with
  | zero => rfl
  | succ fuel => rw [readMembers, readMembers, skipBlanks_skipBlanks]

theorem readValue_blanks (h : ∀ c ∈ cs, isBlank c) :
    readValue fuel depth (cs ++ rest) = readValue fuel depth rest := by
  rw [← readValue_skipBlanks, skipBlanks_append h, readValue_skipBlanks]

/-! ### Strings -/

/-- What is read for a character of a written string. -/
def part (c : Char) : StringPart :=
  if c.toNat < 32 ∧ (escapeChar c).length = 6 then .unit c.toNat else .char c

theorem hexValue_escapeDigit : ∀ k < 16, hexValue (escapeDigit k) = some k := by decide

theorem hexQuad_escape {k : Nat} (hk : k < 32) :
    hexQuad ('0' :: '0' :: escapeDigit (k / 16) :: escapeDigit k :: rest) = some (k, rest) := by
  have hlow : hexValue (escapeDigit k) = some (k % 16) := by
    have h := hexValue_escapeDigit (k % 16) (Nat.mod_lt _ (by decide))
    rwa [escapeDigit, Nat.mod_mod] at h
  have hzero : hexValue '0' = some 0 := rfl
  have hsum : 4096 * 0 + 256 * 0 + 16 * (k / 16) + k % 16 = k := by omega
  simp only [hexQuad, hzero, hexValue_escapeDigit (k / 16) (by omega), hlow, Option.bind_eq_bind,
    Option.bind_some, hsum]

theorem stringParts_letter {e d : Char} (he : escapedChar e = some d) (hu : e ≠ 'u') :
    stringParts (fuel + 1) ('\\' :: e :: cs) =
      (stringParts fuel cs).map fun p => (.char d :: p.1, p.2) := by
  rw [stringParts]
  · simp only [he, Option.bind_eq_bind, Option.bind_some]
    cases stringParts fuel cs <;> rfl
  · simpa using hu

theorem stringParts_unit {k : Nat} (hk : k < 32) :
    stringParts (fuel + 1)
        ('\\' :: 'u' :: '0' :: '0' :: escapeDigit (k / 16) :: escapeDigit k :: cs) =
      (stringParts fuel cs).map fun p => (.unit k :: p.1, p.2) := by
  rw [stringParts]
  simp only [hexQuad_escape hk, Option.bind_eq_bind, Option.bind_some]
  cases stringParts fuel cs <;> rfl

theorem stringParts_char {c : Char} (hq : c ≠ '"') (hb : c ≠ '\\') (hc : 32 ≤ c.toNat) :
    stringParts (fuel + 1) (c :: cs) =
      (stringParts fuel cs).map fun p => (.char c :: p.1, p.2) := by
  rw [stringParts, if_neg (by simp only [hb, or_false]; omega)]
  · exact fun h => hq h
  · exact fun _ h => (hb h).elim
  · exact fun _ _ h => (hb h).elim

theorem stringParts_escapeChar (c : Char) (fuel : Nat) (cs : List Char) :
    stringParts (fuel + 1) (escapeChar c ++ cs) =
      (stringParts fuel cs).map fun p => (part c :: p.1, p.2) := by
  unfold part escapeChar
  by_cases hq : c = '"'
  · subst hq; exact stringParts_letter rfl (by decide)
  by_cases hb : c = '\\'
  · subst hb; exact stringParts_letter rfl (by decide)
  by_cases hn : c = '\n'
  · subst hn; exact stringParts_letter rfl (by decide)
  by_cases hr : c = '\r'
  · subst hr; exact stringParts_letter rfl (by decide)
  by_cases ht : c = '\t'
  · subst ht; exact stringParts_letter rfl (by decide)
  simp only [if_neg hq, if_neg hb, if_neg hn, if_neg hr, if_neg ht]
  by_cases h8 : c.toNat = 8
  · obtain rfl : c = Char.ofNat 8 := by rw [← h8, Char.ofNat_toNat]
    exact stringParts_letter rfl (by decide)
  by_cases h12 : c.toNat = 12
  · obtain rfl : c = Char.ofNat 12 := by rw [← h12, Char.ofNat_toNat]
    exact stringParts_letter rfl (by decide)
  simp only [if_neg h8, if_neg h12]
  by_cases h32 : c.toNat < 32
  · simpa [h32] using stringParts_unit h32
  · simpa [h32] using stringParts_char hq hb (by omega)

theorem stringParts_flatMap (s : List Char) (hfuel : s.length < fuel) :
    stringParts fuel (s.flatMap escapeChar ++ '"' :: rest) = some (s.map part, rest) := by
  induction s generalizing fuel with
  | nil =>
    obtain ⟨fuel, rfl⟩ : ∃ k, fuel = k + 1 := ⟨fuel - 1, by simp at hfuel; omega⟩
    rfl
  | cons c s ih =>
    rw [List.length_cons] at hfuel
    obtain ⟨fuel, rfl⟩ : ∃ k, fuel = k + 1 := ⟨fuel - 1, by omega⟩
    rw [List.flatMap_cons, List.append_assoc, stringParts_escapeChar, ih (by omega)]
    rfl

/-- Only controls are read as units, so no surrogate is among them. -/
theorem joinParts_map_part (s : List Char) : joinParts (s.map part) = some s := by
  have hunit {c : Char} (h : part c ≠ .char c) : part c = .unit c.toNat ∧ c.toNat < 32 := by
    unfold part at h ⊢
    split at h
    · rename_i hc
      exact ⟨if_pos hc, hc.1⟩
    · exact absurd rfl h
  induction s with
  | nil => rfl
  | cons c s ih =>
    rw [List.map_cons]
    by_cases hc : part c = .char c
    · rw [hc, joinParts, ih]
      rfl
    · obtain ⟨hc, h32⟩ := hunit hc
      have hne : ¬ (0xD800 ≤ c.toNat ∧ c.toNat < 0xDC00) := by omega
      have hne' : ¬ (0xDC00 ≤ c.toNat ∧ c.toNat < 0xE000) := by omega
      have hne'' : ¬ (0xD800 ≤ c.toNat ∧ c.toNat < 0xE000) := by omega
      have hjoin : (joinParts (s.map part)).map (Char.ofNat c.toNat :: ·) = some (c :: s) := by
        rw [ih, Char.ofNat_toNat]
        rfl
      rw [hc]
      cases hs : s.map part with
      | nil => rw [joinParts, if_neg hne'', ← hs]; exact hjoin; simp
      | cons p ps =>
        cases p with
        | char d => rw [joinParts, if_neg hne'', ← hs]; exact hjoin; simp
        | unit k => rw [joinParts, if_neg hne, if_neg hne', ← hs]; exact hjoin

/-! ### Numbers -/

/-- The text has nothing in front that a number could go on with. -/
def Ends (cs : List Char) : Prop :=
  ∀ c ∈ cs.head?, c.isDigit = false ∧ c ≠ '.' ∧ c ≠ 'e' ∧ c ≠ 'E'

theorem ends_nil : Ends [] := fun _ h => by simp at h

theorem ends_cons {c : Char} (h : c.isDigit = false ∧ c ≠ '.' ∧ c ≠ 'e' ∧ c ≠ 'E') :
    Ends (c :: rest) := fun d hd => by
  obtain rfl : c = d := by simpa using hd
  exact h

theorem spanDigits_append (h : Ends rest) :
    spanDigits (cs ++ rest) = ((spanDigits cs).1, (spanDigits cs).2 ++ rest) := by
  induction cs with
  | nil =>
    cases rest with
    | nil => rfl
    | cons c rest => simp [spanDigits, (h c rfl).1]
  | cons c cs ih =>
    simp only [spanDigits, Prod.mk.injEq] at ih
    by_cases hc : c.isDigit
    · simp [spanDigits, hc, ih]
    · simp [spanDigits, hc]

/-- The sign of a number, and the text after it. -/
def signOf (cs : List Char) : Bool × List Char :=
  match cs with
  | '-' :: rest => (true, rest)
  | _ => (false, cs)

/-- The digits before the point, and the text after them. -/
def wholeOf (cs : List Char) : Option (List Char × List Char) :=
  match spanDigits cs with
  | ([], _) => none
  | ('0' :: _ :: _, _) => none
  | (digits, rest) => some (digits, rest)

/-- The digits after the point, and the text after them. -/
def fractionOf (cs : List Char) : Option (Option (List Char) × List Char) :=
  match cs with
  | '.' :: rest =>
    match spanDigits rest with
    | ([], _) => none
    | (digits, rest) => some (some digits, rest)
  | _ => some (none, cs)

/-- The digits of an exponent, and the text after them. -/
def powerOf (negative : Bool) (cs : List Char) : Option (Option (Bool × List Char) × List Char) :=
  match spanDigits cs with
  | ([], _) => none
  | (digits, rest) => some (some (negative, digits), rest)

/-- The exponent of a number, and the text after it. -/
def exponentOf : List Char → Option (Option (Bool × List Char) × List Char)
  | c :: rest =>
    if c = 'e' ∨ c = 'E' then
      match rest with
      | '-' :: rest => powerOf true rest
      | '+' :: rest => powerOf false rest
      | _ => powerOf false rest
    else some (none, c :: rest)
  | [] => some (none, [])

section Bind

variable {β : Type} (cs)

theorem wholeOf_bind (k : List Char × List Char → Option β) :
    (wholeOf cs).bind k =
      match spanDigits cs with
      | ([], _) => none
      | ('0' :: _ :: _, _) => none
      | (digits, rest) => k (digits, rest) := by
  unfold wholeOf
  cases spanDigits cs
  split <;> simp_all

theorem fractionOf_bind (k : Option (List Char) × List Char → Option β) :
    (fractionOf cs).bind k =
      match cs with
      | '.' :: rest =>
        match spanDigits rest with
        | ([], _) => none
        | (digits, rest) => k (some digits, rest)
      | _ => k (none, cs) := by
  unfold fractionOf
  split
  · rename_i rest
    cases spanDigits rest
    split <;> simp_all
  · rfl

theorem exponentOf_bind (k : Option (Bool × List Char) × List Char → Option β) :
    (exponentOf cs).bind k =
      match cs with
      | c :: rest =>
        if c = 'e' ∨ c = 'E' then
          match rest with
          | '-' :: rest => (powerOf true rest).bind k
          | '+' :: rest => (powerOf false rest).bind k
          | _ => (powerOf false rest).bind k
        else k (none, c :: rest)
      | [] => k (none, []) := by
  unfold exponentOf
  split
  · split
    · split <;> rfl
    · rfl
  · rfl

end Bind

theorem numberText_eq (cs : List Char) :
    numberText cs =
      (wholeOf (signOf cs).2).bind fun whole => (fractionOf whole.2).bind fun fraction =>
        (exponentOf fraction.2).bind fun exponent =>
          some (⟨(signOf cs).1, whole.1, fraction.1, exponent.1⟩, exponent.2) := by
  simp only [wholeOf_bind, fractionOf_bind, exponentOf_bind]
  rfl

section Append

variable (hr : Ends rest)

include hr

theorem wholeOf_append {p : List Char × List Char} (h : wholeOf cs = some p) :
    wholeOf (cs ++ rest) = some (p.1, p.2 ++ rest) := by
  unfold wholeOf at h ⊢
  rw [spanDigits_append hr]
  cases hs : spanDigits cs
  rw [hs] at h
  split at h <;> simp_all
  subst h
  exact ⟨rfl, rfl⟩

theorem powerOf_append {negative : Bool} {p : Option (Bool × List Char) × List Char}
    (h : powerOf negative cs = some p) : powerOf negative (cs ++ rest) = some (p.1, p.2 ++ rest) := by
  unfold powerOf at h ⊢
  rw [spanDigits_append hr]
  cases hs : spanDigits cs
  rw [hs] at h
  split at h <;> simp_all
  subst h
  exact ⟨rfl, rfl⟩

theorem fractionOf_append {p : Option (List Char) × List Char} (h : fractionOf cs = some p) :
    fractionOf (cs ++ rest) = some (p.1, p.2 ++ rest) := by
  unfold fractionOf at h
  split at h
  · rename_i tail
    show (match spanDigits (tail ++ rest) with
      | ([], _) => none
      | (digits, r) => some (some digits, r)) = _
    rw [spanDigits_append hr]
    cases hs : spanDigits tail
    rw [hs] at h
    split at h <;> simp_all
    subst h
    exact ⟨rfl, rfl⟩
  · rename_i hpoint
    obtain rfl := Option.some.inj h
    unfold fractionOf
    split
    · rename_i tail he
      cases cs with
      | nil => exact absurd rfl (hr '.' (by simpa using congrArg List.head? he)).2.1
      | cons c cs => exact (hpoint cs (by simpa using congrArg List.head? he)).elim
    · rfl

theorem exponentOf_append {p : Option (Bool × List Char) × List Char} (h : exponentOf cs = some p) :
    exponentOf (cs ++ rest) = some (p.1, p.2 ++ rest) := by
  cases cs with
  | nil =>
    obtain rfl := Option.some.inj h
    cases rest with
    | nil => rfl
    | cons c rest =>
      obtain ⟨-, -, he, hE⟩ := hr c rfl
      simp [exponentOf, he, hE]
  | cons c cs =>
    simp only [exponentOf, List.cons_append] at h ⊢
    by_cases hc : c = 'e' ∨ c = 'E'
    · rw [if_pos hc] at h ⊢
      have hrest (h : powerOf false cs = some p) (hm : ∀ tail, cs ≠ '-' :: tail)
          (hp : ∀ tail, cs ≠ '+' :: tail) :
          (match cs ++ rest with
          | '-' :: rest => powerOf true rest
          | '+' :: rest => powerOf false rest
          | _ => powerOf false (cs ++ rest)) = some (p.1, p.2 ++ rest) := by
        have hnil : cs ≠ [] := by
          rintro rfl
          simp [powerOf, spanDigits] at h
        obtain ⟨d, ds, rfl⟩ := List.exists_cons_of_ne_nil hnil
        split
        · rename_i he
          exact (hm ds (by simpa using congrArg List.head? he)).elim
        · rename_i he
          exact (hp ds (by simpa using congrArg List.head? he)).elim
        · exact powerOf_append hr h
      split at h
      · exact powerOf_append hr h
      · exact powerOf_append hr h
      · rename_i hm hp
        exact hrest h (fun tail he => hm tail he) fun tail he => hp tail he
    · rw [if_neg hc] at h ⊢
      obtain rfl := Option.some.inj h
      rfl

theorem numberText_append {p : NumberText × List Char} (h : numberText cs = some p) :
    numberText (cs ++ rest) = some (p.1, p.2 ++ rest) := by
  rw [numberText_eq] at h ⊢
  obtain ⟨w, hw, h⟩ := Option.bind_eq_some_iff.1 h
  obtain ⟨f, hf, h⟩ := Option.bind_eq_some_iff.1 h
  obtain ⟨e, he, h⟩ := Option.bind_eq_some_iff.1 h
  obtain rfl := Option.some.inj h
  have hsign : signOf (cs ++ rest) = ((signOf cs).1, (signOf cs).2 ++ rest) := by
    cases cs with
    | nil => simp [signOf, wholeOf, spanDigits] at hw
    | cons c cs =>
      unfold signOf
      split <;> rename_i hc
      · obtain ⟨rfl, rfl⟩ := List.cons.inj hc
        rfl
      · split
        · rename_i hc'
          exact (hc (cs ++ rest) (by rw [(List.cons.inj hc').1]; rfl)).elim
        · rfl
  rw [hsign, wholeOf_append hr hw]
  simp only [Option.bind_some, fractionOf_append hr hf, exponentOf_append hr he]

end Append

/-! ### Numerals -/

/-- The text is that of a number with a value. -/
def Numeral (cs : List Char) (j : Json) : Prop :=
  ∃ n, numberText cs = some (n, []) ∧ n.value? = some j

/-- The text that is written for a float is that of the float. -/
def Faithful (x : Float) : Prop := Numeral (writeFloat x).toList (.float x)

example : Faithful 2.5 := ⟨⟨false, ['2'], some ['5'], none⟩, by decide +kernel, by rfl⟩

theorem Numeral.numberText (h : Numeral cs j) (hr : Ends rest) :
    ∃ n, Json.numberText (cs ++ rest) = some (n, rest) ∧ n.value? = some j := by
  obtain ⟨n, hn, hv⟩ := h
  exact ⟨n, numberText_append hr hn, hv⟩

theorem exists_cons_of_numberText {p : NumberText × List Char} (h : numberText cs = some p) :
    ∃ c tail, cs = c :: tail ∧ (c = '-' ∨ c.isDigit) := by
  rw [numberText_eq] at h
  obtain ⟨w, hw, -⟩ := Option.bind_eq_some_iff.1 h
  cases cs with
  | nil => simp [signOf, wholeOf, spanDigits] at hw
  | cons c tail =>
    refine ⟨c, tail, rfl, ?_⟩
    by_cases hc : c = '-'
    · exact .inl hc
    · refine .inr ?_
      have hsign : signOf (c :: tail) = (false, c :: tail) := by simp [signOf, hc]
      by_contra hd
      simp [hsign, wholeOf, spanDigits, hd] at hw

theorem head?_toDigits {n : Nat} (h : 0 < n) : (Nat.toDigits 10 n).head? ≠ some '0' := by
  induction n using Nat.strongRecOn with
  | ind n ih =>
    by_cases hn : n < 10
    · rw [Nat.toDigits_of_lt_base hn, List.head?_cons, ne_eq, Option.some.injEq, Nat.digitChar_eq_zero]
      omega
    · rw [Nat.toDigits_of_base_le (by decide) (by omega), List.head?_append_of_ne_nil _ Nat.toDigits_ne_nil]
      exact ih (n / 10) (by omega) (by omega)

theorem le_ofDigitChars (cs : List Char) (k : Nat) : k ≤ Nat.ofDigitChars 10 cs k := by
  induction cs generalizing k with
  | nil => simp
  | cons c cs ih =>
    rw [Nat.ofDigitChars_cons]
    have := ih (10 * k + (c.toNat - '0'.toNat))
    omega

theorem whole_ofDigitChars (cs : List Char) (k : Nat)
    (h : (Nat.ofDigitChars 10 cs k : Int) ≤ wordMax) :
    Significand.whole ⟨k, 0⟩ cs = ⟨Nat.ofDigitChars 10 cs k, 0⟩ := by
  induction cs generalizing k with
  | nil => rfl
  | cons c cs ih =>
    rw [Nat.ofDigitChars_cons] at h
    have hfits : Significand.fits ⟨k, 0⟩ c = true := by
      have hle := le_ofDigitChars cs (10 * k + (c.toNat - '0'.toNat))
      exact decide_eq_true (Int.le_trans (Int.ofNat_le.2 hle) h)
    rw [Significand.whole, if_pos hfits]
    exact ih _ h

theorem wholeOf_toDigits (n : Nat) : wholeOf (Nat.toDigits 10 n) = some (Nat.toDigits 10 n, []) := by
  have hdigit : ∀ c ∈ Nat.toDigits 10 n, c.isDigit = true :=
    fun c hc => Nat.isDigit_of_mem_toDigits (by decide) (by decide) hc
  have hspan : spanDigits (Nat.toDigits 10 n) = (Nat.toDigits 10 n, []) := by
    rw [spanDigits, List.takeWhile_eq_self_iff.2 hdigit, List.dropWhile_eq_nil_iff.2 hdigit]
  rw [wholeOf, hspan]
  split
  · rename_i h
    exact (Nat.toDigits_ne_nil (Prod.mk.inj h).1).elim
  · rename_i h
    have hd := (Prod.mk.inj h).1
    obtain rfl | hn := Nat.eq_zero_or_pos n
    · simp at hd
    · exact (head?_toDigits hn (by rw [hd]; rfl)).elim
  · rename_i h
    rw [(Prod.mk.inj h).1, (Prod.mk.inj h).2]

/-- An integer from the least of 64 bits to the greatest natural number of 64 bits is read back. -/
theorem numeral_intText {v : Int} (hl : intMin ≤ v) (hg : v ≤ wordMax) :
    Numeral (intText v).toList (.int v) := by
  have htext : (intText v).toList = (if v < 0 then ['-'] else []) ++ Nat.toDigits 10 v.natAbs := by
    rw [intText, String.toList_append, Nat.toList_repr]
    split <;> rfl
  have hsign : signOf (intText v).toList = (decide (v < 0), Nat.toDigits 10 v.natAbs) := by
    rw [htext]
    by_cases hv : v < 0
    · simp [hv, signOf]
    · rw [if_neg hv, List.nil_append, decide_eq_false hv, signOf]
      intro tail he
      have hd := Nat.isDigit_of_mem_toDigits (b := 10) (n := v.natAbs) (c := '-') (by decide)
        (by decide) (by rw [he]; exact List.mem_cons_self)
      exact absurd hd (by decide)
  have hwhole : Significand.whole ⟨0, 0⟩ (Nat.toDigits 10 v.natAbs) = ⟨v.natAbs, 0⟩ := by
    have h := whole_ofDigitChars (Nat.toDigits 10 v.natAbs) 0
    rw [Nat.ofDigitChars_ten_toDigits] at h
    exact h (by simp only [intMin, wordMax] at *; omega)
  refine ⟨⟨decide (v < 0), Nat.toDigits 10 v.natAbs, none, none⟩, ?_, ?_⟩
  · rw [numberText_eq, hsign, wholeOf_toDigits]
    rfl
  · simp only [NumberText.value?, hwhole, ne_eq, not_true_eq_false, if_false]
    by_cases hv : v < 0
    · have hsmall : ¬ (v.natAbs = 0 ∨ -intMin < (v.natAbs : Int)) := by
        simp only [intMin] at *
        omega
      simp only [hv, decide_true, Bool.not_true, Bool.false_eq_true, if_false, if_neg hsmall]
      congr 2
      omega
    · simp only [hv, decide_false, Bool.not_false, if_true]
      congr 2
      omega

end Json

end Scheduling
