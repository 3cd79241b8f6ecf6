import Mathlib.Data.List.Perm.Basic
import Scheduling.Parameters.Flags

/-!
# Sorting arguments into flags and others

What the name of a flag of solves stands for (`FlagTable.Names`), which arguments make up a flag
with its value (`Says`), and how a command line is split into its flags and all other arguments
(`Splits`). Reading the known flags of a command line splits it in this way: the flags alone give
the same parameters, and the others alone are all set aside again (`readKnownFlags_splits`).
-/

namespace Scheduling

theorem exists_of_map_ok {ε α β : Type} {x : Except ε α} {f : α → β} {b : β}
    (h : x.map f = .ok b) : ∃ a, x = .ok a ∧ f a = b := by
  cases x with
  | error e => cases h
  | ok a => exact ⟨a, rfl, Except.ok.inj h⟩

/-! ## Numbers in names -/

theorem isDigit_of_foldl {step : Except IntegerFlaw Nat → Char → Except IntegerFlaw Nat}
    (hs : ∀ {read c n}, step read c = .ok n → (∃ m, read = .ok m) ∧ c.isDigit) {cs : List Char}
    {read : Except IntegerFlaw Nat} {n : Nat} (h : cs.foldl step read = .ok n) :
    (∃ m, read = .ok m) ∧ ∀ c ∈ cs, c.isDigit := by
  induction cs generalizing read with
  | nil => exact ⟨⟨n, h⟩, nofun⟩
  | cons c cs ih =>
    obtain ⟨⟨m, hm⟩, hcs⟩ := ih h
    obtain ⟨hread, hc⟩ := hs hm
    exact ⟨hread, List.forall_mem_cons.2 ⟨hc, hcs⟩⟩

/-- The text of a number has digits only, behind a sign at most. -/
theorem isDigit_of_readNatural {greatest n : Nat} {text : String}
    (h : readNatural greatest text = .ok n) {c : Char} (hc : c ∈ text.toList) :
    c = '+' ∨ c.isDigit := by
  rw [readNatural] at h
  split at h
  · cases h
  · cases h
  · cases h
  · rename_i d rest _ _ htext
    have hdigits := (isDigit_of_foldl (fun {read c n} hn => by
      cases read with
      | error e => cases hn
      | ok m =>
        by_cases hc : c.isDigit
        · exact ⟨⟨m, rfl⟩, hc⟩
        · cases (if_neg hc).symm.trans hn) h).2
    rw [htext] at hc
    by_cases hd : d = '+'
    · rw [if_pos hd] at hdigits
      exact (List.mem_cons.1 hc).imp (·.trans hd) (hdigits c)
    · rw [if_neg hd] at hdigits
      exact .inr (hdigits c hc)

theorem not_mem_of_readNatural {greatest n : Nat} {text : String}
    (h : readNatural greatest text = .ok n) {c : Char} (hc : c.isDigit = false) (hp : c ≠ '+') :
    c ∉ text.toList :=
  fun hmem => by simpa [hp, hc] using isDigit_of_readNatural h hmem

namespace FlagTable

/-! ## Calls for the usage -/

theorem sort_help {arg : String} (hh : arg = "-h" ∨ arg = "--help") (keep : Bool)
    (args : List String) :
    forSolves.sort keep (arg :: args) =
      (forSolves.sort keep args).map fun (tokens, others) => (.help :: tokens, others) := by
  rw [sort, if_pos hh]

/-! ## Names of flags -/

theorem cut?_cons (c d : Char) (cs : List Char) :
    cut? c (d :: cs) =
      if d = c then some ([], cs) else (cut? c cs).map fun (xs, ys) => (d :: xs, ys) := by
  by_cases h : d = c
  · simp [cut?, h]
  · simp only [cut?, ne_eq, h, not_false_eq_true, decide_true, List.dropWhile_cons_of_pos,
      List.takeWhile_cons_of_pos, if_false]
    split <;> rfl

theorem cut?_eq_some {c : Char} {cs xs ys : List Char} :
    cut? c cs = some (xs, ys) ↔ cs = xs ++ c :: ys ∧ c ∉ xs := by
  constructor
  · intro h
    induction cs generalizing xs with
    | nil => cases h
    | cons d cs ih =>
      rw [cut?_cons] at h
      split at h
      · obtain ⟨rfl, rfl⟩ := Prod.mk.inj (Option.some.inj h)
        exact ⟨by simp [*], nofun⟩
      · rename_i hd
        obtain ⟨⟨xs', ys'⟩, hcut, hxs⟩ := Option.map_eq_some_iff.1 h
        obtain ⟨rfl, rfl⟩ := Prod.mk.inj hxs
        obtain ⟨rfl, hc⟩ := ih hcut
        exact ⟨rfl, List.not_mem_cons_of_ne_of_not_mem (Ne.symm hd) hc⟩
  · rintro ⟨rfl, hc⟩
    induction xs with
    | nil => simp [cut?_cons]
    | cons x xs ih =>
      have hx : x ≠ c := Ne.symm (List.ne_of_not_mem_cons hc)
      simp [cut?_cons, hx, ih (List.not_mem_of_not_mem_cons hc)]

theorem cut?_eq_none {c : Char} {cs : List Char} (h : c ∉ cs) : cut? c cs = none :=
  Option.eq_none_iff_forall_ne_some.2 fun (xs, ys) hs => h <| by simp [(cut?_eq_some.1 hs).1]

/-- How workers are written in the name of a flag: one index, or the first and the last index. -/
inductive Spans : String → Nat → Nat → Prop where
  | one {a : String} {i : Nat} (ha : readNatural wordMax.toNat a = .ok i) : Spans a i i
  | range {a b : String} {i j : Nat} (ha : readNatural wordMax.toNat a = .ok i)
      (hb : readNatural wordMax.toNat b = .ok j) (hij : i ≤ j) : Spans (a ++ "-" ++ b) i j

/-- What a name of a flag stands for: the workers it is for, unless for all; the field it sets;
whether it takes a value. -/
inductive Names : String → Option (Nat × Nat) → String → Bool → Prop where
  | solve {f : Flag Parameters} (hf : f ∈ Flag.solve) : Names f.name none f.name f.takesValue
  | default {f : Flag WorkerParameters} (hf : f ∈ Flag.worker) :
      Names f.name none f.name f.takesValue
  | workers {f : Flag WorkerParameters} {a : String} {i j : Nat} (ha : Spans a i j)
      (hf : f ∈ Flag.worker) :
      Names ("worker" ++ a ++ "." ++ f.name) (some (i, j)) f.name f.takesValue

variable {name field : String} {range : Option (Nat × Nat)} {takes : Bool}

theorem Spans.not_mem {a : String} {i j : Nat} (ha : Spans a i j) {c : Char}
    (hc : c.isDigit = false) (hp : c ≠ '+') (hm : c ≠ '-') : c ∉ a.toList := by
  cases ha with
  | one ha => exact not_mem_of_readNatural ha hc hp
  | range ha hb hij =>
    simp [not_mem_of_readNatural ha hc hp, not_mem_of_readNatural hb hc hp, hm]

/-- The workers that a text in front of the dot stands for. -/
def span? (cs : List Char) : Option (Nat × Nat) :=
  match cut? '-' cs with
  | some (first, last) =>
    (workerIndex? first).bind fun i =>
      (workerIndex? last).bind fun j => if i ≤ j then some (i, j) else none
  | none => (workerIndex? cs).map fun i => (i, i)

theorem workerIndex?_eq_some {a : String} {i : Nat} :
    workerIndex? a.toList = some i ↔ readNatural wordMax.toNat a = .ok i := by
  rw [workerIndex?, String.ofList_toList]
  cases readNatural wordMax.toNat a <;> simp [Except.toOption]

theorem span?_eq_some {a : String} {i j : Nat} : span? a.toList = some (i, j) ↔ Spans a i j := by
  constructor
  · intro h
    rw [span?] at h
    split at h
    · rename_i first last hcut
      obtain ⟨i', hi, h⟩ := Option.bind_eq_some_iff.1 h
      obtain ⟨j', hj, h⟩ := Option.bind_eq_some_iff.1 h
      split at h
      · rename_i hle
        obtain ⟨rfl, rfl⟩ := Prod.mk.inj (Option.some.inj h)
        obtain ⟨ha, -⟩ := cut?_eq_some.1 hcut
        have hs : a = String.ofList first ++ "-" ++ String.ofList last :=
          String.toList_injective (by simp [ha])
        rw [hs]
        rw [← String.toList_ofList (l := first)] at hi
        rw [← String.toList_ofList (l := last)] at hj
        exact .range (workerIndex?_eq_some.1 hi) (workerIndex?_eq_some.1 hj) hle
      · cases h
    · obtain ⟨i', hi, h⟩ := Option.map_eq_some_iff.1 h
      obtain ⟨rfl, rfl⟩ := Prod.mk.inj h
      exact .one (workerIndex?_eq_some.1 hi)
  · intro h
    rw [span?]
    cases h with
    | one ha =>
      rw [cut?_eq_none (not_mem_of_readNatural ha rfl (by decide)), workerIndex?_eq_some.2 ha]
      rfl
    | @range a b i j ha hb hij =>
      have hcut : cut? '-' (a ++ "-" ++ b).toList = some (a.toList, b.toList) :=
        cut?_eq_some.2 ⟨by simp, not_mem_of_readNatural ha rfl (by decide)⟩
      rw [hcut]
      simp [workerIndex?_eq_some.2 ha, workerIndex?_eq_some.2 hb, hij]

theorem workerRange?_append (rest : List Char) :
    workerRange? ("worker".toList ++ rest) =
      (cut? '.' rest).bind fun (range, field) =>
        (span? range).map fun (i, j) => (i, j, .ofList field) := by
  have htake : ("worker".toList ++ rest).take 6 = "worker".toList := rfl
  have hdrop : ("worker".toList ++ rest).drop 6 = rest := rfl
  rw [workerRange?, if_pos htake, hdrop]
  simp only [Option.bind_eq_bind, Option.bind_some]
  cases cut? '.' rest with
  | none => rfl
  | some parts =>
    obtain ⟨range, field⟩ := parts
    simp only [Option.bind_some, span?]
    cases cut? '-' range with
    | none => cases workerIndex? range <;> simp
    | some ends =>
      obtain ⟨first, last⟩ := ends
      dsimp only
      cases workerIndex? first with
      | none => rfl
      | some i =>
        cases workerIndex? last with
        | none => rfl
        | some j => by_cases hle : i ≤ j <;> simp [hle]

theorem workerRange?_eq_some {i j : Nat} :
    workerRange? name.toList = some (i, j, field) ↔
      ∃ a, Spans a i j ∧ name = "worker" ++ a ++ "." ++ field := by
  constructor
  · intro h
    have htake : name.toList.take 6 = "worker".toList := by
      by_contra hn
      rw [workerRange?, if_neg hn] at h
      cases h
    rw [← List.take_append_drop 6 name.toList, htake, workerRange?_append] at h
    obtain ⟨⟨range, field'⟩, hcut, h⟩ := Option.bind_eq_some_iff.1 h
    obtain ⟨⟨i', j'⟩, hspan, h⟩ := Option.map_eq_some_iff.1 h
    cases h
    rw [← String.toList_ofList (l := range)] at hspan
    refine ⟨_, span?_eq_some.1 hspan, String.toList_injective ?_⟩
    rw [← List.take_append_drop 6 name.toList, htake, (cut?_eq_some.1 hcut).1]
    simp
  · rintro ⟨a, ha, rfl⟩
    have hcut : cut? '.' (a.toList ++ '.' :: field.toList) = some (a.toList, field.toList) :=
      cut?_eq_some.2 ⟨rfl, ha.not_mem rfl (by decide) (by decide)⟩
    have hname : ("worker" ++ a ++ "." ++ field).toList =
        "worker".toList ++ (a.toList ++ '.' :: field.toList) := by simp
    rw [hname, workerRange?_append, hcut]
    simp [span?_eq_some.2 ha]

theorem exists_of_takesValue? {ρ : Type} {flags : List (Flag ρ)}
    (h : takesValue? flags name = some takes) :
    ∃ f ∈ flags, f.name = name ∧ f.takesValue = takes := by
  obtain ⟨f, hf, rfl⟩ := Option.map_eq_some_iff.1 h
  exact ⟨f, List.mem_of_find?_eq_some hf, by simpa using List.find?_some hf, rfl⟩

theorem takesValue?_worker :
    ∀ f ∈ Flag.worker, takesValue? Flag.worker f.name = some f.takesValue := by
  decide +kernel

theorem find?_solve :
    ∀ f ∈ Flag.solve, forSolves.find? f.name.toList = some (none, f.name, f.takesValue) := by
  decide +kernel

theorem find?_worker :
    ∀ f ∈ Flag.worker, forSolves.find? f.name.toList = some (none, f.name, f.takesValue) := by
  decide +kernel

theorem find?_eq_some :
    forSolves.find? name.toList = some (range, field, takes) ↔ Names name range field takes := by
  constructor
  · intro h
    rw [find?] at h
    split at h
    · rename_i first last field' hrange
      obtain ⟨takes', htakes, h⟩ := Option.map_eq_some_iff.1 h
      cases h
      obtain ⟨f, hf, rfl, rfl⟩ := exists_of_takesValue? htakes
      obtain ⟨a, ha, rfl⟩ := workerRange?_eq_some.1 hrange
      exact .workers ha hf
    · rw [String.ofList_toList] at h
      obtain ⟨takes', htakes, h⟩ := Option.map_eq_some_iff.1 h
      cases h
      have htakes : (takesValue? Flag.solve name <|> takesValue? Flag.worker name) = some takes :=
        htakes
      cases hsolve : takesValue? Flag.solve name with
      | some t =>
        rw [hsolve] at htakes
        cases htakes
        obtain ⟨f, hf, rfl, rfl⟩ := exists_of_takesValue? hsolve
        exact .solve hf
      | none =>
        rw [hsolve] at htakes
        obtain ⟨f, hf, rfl, rfl⟩ := exists_of_takesValue? htakes
        exact .default hf
  · intro h
    cases h with
    | solve hf => exact find?_solve _ hf
    | default hf => exact find?_worker _ hf
    | workers ha hf =>
      rw [find?, workerRange?_eq_some.2 ⟨_, ha, rfl⟩]
      simp [takesValue?_worker _ hf]

/-! ## Arguments of a flag -/

/-- The arguments that make up a flag, and what they say. -/
inductive Says : List String → FlagToken → Prop where
  /-- The value is behind an equals sign. -/
  | inline {name field : String} {range : Option (Nat × Nat)} {takes : Bool}
      (hn : Names name range field takes) (value : String) :
      Says ["--" ++ name ++ "=" ++ value] (token range field (some value))
  /-- The value is the next argument. -/
  | next {name field : String} {range : Option (Nat × Nat)} (hn : Names name range field true)
      (value : String) : Says ["--" ++ name, value] (token range field (some value))
  /-- A switch without value. -/
  | switch {name field : String} {range : Option (Nat × Nat)}
      (hn : Names name range field false) : Says ["--" ++ name] (token range field none)

/-- An argument that a flag begins with. -/
def Begins (arg : String) : Prop := ∃ others t, Says (arg :: others) t

/-- How arguments are split: the arguments of flags, and all others. -/
inductive Splits : List String → List String → List String → Prop where
  | nil : Splits [] [] []
  | flag {said args kept others : List String} {t : FlagToken} (hs : Says said t)
      (h : Splits args kept others) : Splits (said ++ args) (said ++ kept) others
  | other {arg : String} {args kept others : List String} (hn : ¬ Begins arg)
      (h : Splits args kept others) : Splits (arg :: args) kept (arg :: others)

/-- Arguments that are nothing but flags, and what they say. -/
inductive Spells : List String → List FlagToken → Prop where
  | nil : Spells [] []
  | cons {said args : List String} {t : FlagToken} {tokens : List FlagToken} (hs : Says said t)
      (h : Spells args tokens) : Spells (said ++ args) (t :: tokens)

theorem equals_not_mem_solve : ∀ f ∈ Flag.solve, '=' ∉ f.name.toList := by decide +kernel

theorem equals_not_mem_worker : ∀ f ∈ Flag.worker, '=' ∉ f.name.toList := by decide +kernel

theorem Names.equals_not_mem (hn : Names name range field takes) : '=' ∉ name.toList := by
  cases hn with
  | solve hf => exact equals_not_mem_solve _ hf
  | default hf => exact equals_not_mem_worker _ hf
  | workers ha hf =>
    simp [ha.not_mem (c := '=') rfl (by decide) (by decide), equals_not_mem_worker _ hf]

theorem Names.ne_help (hn : Names name range field takes) : name ≠ "help" := by
  rintro rfl
  have hnone : forSolves.find? "help".toList = none := by decide +kernel
  rw [find?_eq_some.2 hn] at hnone
  cases hnone

theorem not_help_of_name (hn : Names name range field takes) :
    ¬("--" ++ name = "-h" ∨ "--" ++ name = "--help") := by
  rintro (h | h) <;> have h := congrArg String.toList h
  · simp at h
  · exact hn.ne_help (String.toList_injective (by simpa using h))

theorem not_help_of_value (name value : String) :
    ¬("--" ++ name ++ "=" ++ value = "-h" ∨ "--" ++ name ++ "=" ++ value = "--help") := by
  rintro (h | h) <;> have h := congrArg String.toList h
  · simp at h
  · have hmem : '=' ∈ "--help".toList := h ▸ by simp
    revert hmem
    decide

theorem sort_flag {said : List String} {t : FlagToken} (hs : Says said t) (keep : Bool)
    (args : List String) :
    forSolves.sort keep (said ++ args) =
      (forSolves.sort keep args).map fun (tokens, others) => (t :: tokens, others) := by
  cases hs with
  | @inline name _ _ _ hn value =>
    have hlist : ("--" ++ name ++ "=" ++ value).toList =
        '-' :: '-' :: (name.toList ++ '=' :: value.toList) := by simp
    have hcut : cut? '=' (name.toList ++ '=' :: value.toList) = some (name.toList, value.toList) :=
      cut?_eq_some.2 ⟨rfl, hn.equals_not_mem⟩
    rw [List.singleton_append, sort, if_neg (not_help_of_value name value)]
    simp only [hlist, hcut, find?_eq_some.2 hn, String.ofList_toList]
  | @next name _ _ hn value =>
    have hlist : ("--" ++ name).toList = '-' :: '-' :: name.toList := by simp
    show forSolves.sort keep (("--" ++ name) :: value :: args) = _
    rw [sort, if_neg (not_help_of_name hn)]
    simp only [hlist, cut?_eq_none hn.equals_not_mem, find?_eq_some.2 hn]
  | @switch name _ _ hn =>
    have hlist : ("--" ++ name).toList = '-' :: '-' :: name.toList := by simp
    rw [List.singleton_append, sort, if_neg (not_help_of_name hn)]
    simp only [hlist, cut?_eq_none hn.equals_not_mem, find?_eq_some.2 hn]

theorem sort_spells {args : List String} {tokens : List FlagToken} (h : Spells args tokens)
    (keep : Bool) : forSolves.sort keep args = .ok (tokens, []) := by
  induction h with
  | nil => rfl
  | cons hs _ ih => rw [sort_flag hs, ih]; rfl

/-- An argument whose name is known begins a flag. -/
theorem begins_of_find? {arg : String} {body name : List Char}
    (hlist : arg.toList = '-' :: '-' :: body)
    (hbody : body = name ∨ ∃ value, body = name ++ '=' :: value)
    (hf : forSolves.find? name = some (range, field, takes)) : Begins arg := by
  have hn : Names (.ofList name) range field takes :=
    find?_eq_some.1 (by rwa [String.toList_ofList])
  obtain rfl | ⟨value, rfl⟩ := hbody
  · have harg : arg = "--" ++ String.ofList body := String.toList_injective (by simp [hlist])
    subst harg
    cases takes with
    | false => exact ⟨_, _, .switch hn⟩
    | true => exact ⟨_, _, .next hn ""⟩
  · have harg : arg = "--" ++ String.ofList name ++ "=" ++ String.ofList value :=
      String.toList_injective (by simp [hlist])
    subst harg
    exact ⟨_, _, .inline hn _⟩

/-- An argument that begins no flag and does not ask for the usage is set aside. -/
theorem sort_other {arg : String} (hn : ¬Begins arg) (hh : ¬(arg = "-h" ∨ arg = "--help"))
    (args : List String) :
    forSolves.sort true (arg :: args) =
      (forSolves.sort true args).map fun (tokens, others) => (tokens, arg :: others) := by
  rw [sort, if_neg hh]
  split
  · rename_i body hlist
    cases hcut : cut? '=' body with
    | none =>
      cases hf : forSolves.find? body with
      | none => simp [hf]
      | some found => exact absurd (begins_of_find? hlist (.inl rfl) hf) hn
    | some parts =>
      obtain ⟨name, value⟩ := parts
      cases hf : forSolves.find? name with
      | none => simp [hf]
      | some found =>
        exact absurd (begins_of_find? hlist (.inr ⟨value, (cut?_eq_some.1 hcut).1⟩) hf) hn
  · rfl

/-- An argument that begins a flag begins one here, unless its value is missing. -/
theorem Begins.flag_or_error {arg : String} (h : Begins arg) (args : List String) :
    (∃ said t rest, Says said t ∧ arg :: args = said ++ rest) ∨
      ∃ e, forSolves.sort true (arg :: args) = .error e := by
  obtain ⟨others, t, hs⟩ := h
  cases hs with
  | inline hn value => exact .inl ⟨_, _, args, .inline hn value, rfl⟩
  | switch hn => exact .inl ⟨_, _, args, .switch hn, rfl⟩
  | @next name _ _ hn value =>
    cases args with
    | cons value args => exact .inl ⟨_, _, args, .next hn value, rfl⟩
    | nil =>
      have hlist : ("--" ++ name).toList = '-' :: '-' :: name.toList := by simp
      refine .inr ⟨.missingValue ("--" ++ name), ?_⟩
      rw [sort, if_neg (not_help_of_name hn)]
      simp only [hlist, cut?_eq_none hn.equals_not_mem, find?_eq_some.2 hn, String.ofList_toList]

theorem Says.ne_nil {said : List String} {t : FlagToken} (hs : Says said t) : said ≠ [] := by
  cases hs <;> exact List.cons_ne_nil _ _

theorem Says.length_lt {said args : List String} {t : FlagToken} (hs : Says said t) :
    args.length < (said ++ args).length := by
  cases hs <;> simp only [List.cons_append, List.nil_append, List.length_cons] <;> omega

/-- What is sorted out without a call for the usage is split as it should be: the tokens are what the
flags say, and the arguments set aside are all others. -/
theorem splits_of_sort {args others : List String} {tokens : List FlagToken}
    (h : forSolves.sort true args = .ok (tokens, others)) (hh : .help ∉ tokens) :
    ∃ kept, Splits args kept others ∧ Spells kept tokens ∧
      forSolves.sort true others = .ok ([], others) := by
  -- A flag may take two arguments, so the induction is on the number of arguments.
  induction hlen : args.length using Nat.strongRecOn generalizing args tokens others with
  | ind n ih =>
    subst hlen
    cases args with
    | nil =>
      cases h
      exact ⟨[], .nil, .nil, rfl⟩
    | cons arg args =>
      by_cases hhelp : arg = "-h" ∨ arg = "--help"
      · rw [sort_help hhelp] at h
        obtain ⟨parts, -, hparts⟩ := exists_of_map_ok h
        cases hparts
        exact absurd List.mem_cons_self hh
      by_cases hb : Begins arg
      · obtain ⟨said, t, rest, hs, hargs⟩ | ⟨e, he⟩ := hb.flag_or_error args
        · rw [hargs] at h ih ⊢
          rw [sort_flag hs] at h
          obtain ⟨parts, hrest, hparts⟩ := exists_of_map_ok h
          cases hparts
          obtain ⟨kept, hsplit, hspell, hothers⟩ :=
            ih _ hs.length_lt hrest (fun hmem => hh (List.mem_cons_of_mem _ hmem)) rfl
          exact ⟨said ++ kept, .flag hs hsplit, .cons hs hspell, hothers⟩
        · rw [he] at h
          cases h
      · rw [sort_other hb hhelp] at h
        obtain ⟨parts, hrest, hparts⟩ := exists_of_map_ok h
        cases hparts
        obtain ⟨kept, hsplit, hspell, hothers⟩ := ih _ (Nat.lt_succ_self _) hrest hh rfl
        refine ⟨kept, .other hb hsplit, hspell, ?_⟩
        rw [sort_other hb hhelp, hothers]
        rfl

/-! ## Splits -/

section Splits

variable {args args' kept kept' others others' : List String}

theorem Splits.kept_sublist (h : Splits args kept others) : kept.Sublist args := by
  induction h with
  | nil => exact List.Sublist.slnil
  | flag _ _ ih => exact (List.Sublist.refl _).append ih
  | other _ _ ih => exact ih.cons _

theorem Splits.others_sublist (h : Splits args kept others) : others.Sublist args := by
  induction h with
  | nil => exact List.Sublist.slnil
  | flag _ _ ih => exact ih.trans (List.sublist_append_right _ _)
  | other _ _ ih => exact ih.cons_cons _

/-- Every argument is in one of the parts, as often as it is given. -/
theorem Splits.perm (h : Splits args kept others) : (kept ++ others).Perm args := by
  induction h with
  | nil => exact .nil
  | @flag said _ _ _ _ _ _ ih =>
    rw [List.append_assoc]
    exact ih.append_left said
  | other _ _ ih => exact List.perm_middle.trans (ih.cons _)

/-- A name alone whose value is the next argument. -/
def Awaits (arg : String) : Prop :=
  ∃ name range field, Names name range field true ∧ arg = "--" ++ name

/-- How many arguments a flag has is seen from the first one. -/
theorem Says.shape {said : List String} {t : FlagToken} (hs : Says said t) :
    (∃ arg, said = [arg] ∧ ¬Awaits arg) ∨ ∃ arg value, said = [arg, value] ∧ Awaits arg := by
  cases hs with
  | @inline name _ _ _ hn value =>
    refine .inl ⟨_, rfl, ?_⟩
    rintro ⟨name', _, _, hn', h⟩
    have h := congrArg String.toList h
    have hmem : '=' ∈ ("--" ++ name').toList := h ▸ by simp
    exact hn'.equals_not_mem (by simpa using hmem)
  | next hn value => exact .inr ⟨_, value, rfl, _, _, _, hn, rfl⟩
  | @switch name _ _ hn =>
    refine .inl ⟨_, rfl, ?_⟩
    rintro ⟨name', _, _, hn', h⟩
    have hname : name = name' := String.toList_injective (by simpa using congrArg String.toList h)
    subst hname
    have hfind := (find?_eq_some.2 hn).symm.trans (find?_eq_some.2 hn')
    simp at hfind

theorem Says.append_inj {said said' : List String} {t t' : FlagToken} (hs : Says said t)
    (hs' : Says said' t') (h : said ++ args = said' ++ args') : said = said' ∧ args = args' := by
  obtain ⟨arg, rfl, hn⟩ | ⟨arg, value, rfl, ha⟩ := hs.shape <;>
    obtain ⟨arg', rfl, hn'⟩ | ⟨arg', value', rfl, ha'⟩ := hs'.shape
  · simpa using h
  · exact absurd ((List.cons.inj h).1 ▸ ha') hn
  · exact absurd ((List.cons.inj h).1 ▸ ha) hn'
  · simpa [and_assoc] using h

theorem Splits.of_flag {said : List String} {t : FlagToken} (hs : Says said t)
    (h : Splits (said ++ args) kept others) :
    ∃ kept', kept = said ++ kept' ∧ Splits args kept' others := by
  generalize hall : said ++ args = all at h
  cases h with
  | nil => exact absurd (List.append_eq_nil_iff.1 hall).1 hs.ne_nil
  | flag hs' h =>
    obtain ⟨rfl, rfl⟩ := hs.append_inj hs' hall
    exact ⟨_, rfl, h⟩
  | @other arg _ _ _ hn h =>
    obtain ⟨first, rest, rfl⟩ := List.exists_cons_of_ne_nil hs.ne_nil
    exact absurd ⟨rest, t, (List.cons.inj hall).1 ▸ hs⟩ hn

theorem Splits.of_other {arg : String} (hn : ¬Begins arg) (h : Splits (arg :: args) kept others) :
    ∃ others', others = arg :: others' ∧ Splits args kept others' := by
  generalize hall : arg :: args = all at h
  cases h with
  | nil => cases hall
  | @flag _ _ _ _ t hs h =>
    obtain ⟨first, rest, rfl⟩ := List.exists_cons_of_ne_nil hs.ne_nil
    exact absurd ⟨rest, t, (List.cons.inj hall).1 ▸ hs⟩ hn
  | other _ h =>
    obtain ⟨rfl, rfl⟩ := List.cons.inj hall
    exact ⟨_, rfl, h⟩

/-- Arguments can be split in one way only. -/
theorem Splits.unique (h : Splits args kept others) (h' : Splits args kept' others') :
    kept' = kept ∧ others' = others := by
  induction h generalizing kept' others' with
  | nil => exact ⟨List.sublist_nil.1 h'.kept_sublist, List.sublist_nil.1 h'.others_sublist⟩
  | flag hs _ ih =>
    obtain ⟨_, rfl, hrest⟩ := h'.of_flag hs
    exact (ih hrest).imp_left (congrArg _)
  | other hn _ ih =>
    obtain ⟨_, rfl, hrest⟩ := h'.of_other hn
    exact (ih hrest).imp_right (congrArg _)

end Splits

/-! ## Reading known flags -/

/-- Tokens that pass all checks do not ask for the usage. -/
theorem help_not_mem_of_check {t : FlagTable} {tokens : List FlagToken}
    (h : t.check tokens = .clean) : .help ∉ tokens := by
  induction tokens with
  | nil => exact List.not_mem_nil
  | cons token tokens ih =>
    rw [check] at h
    split at h
    · rename_i hclean
      refine List.not_mem_cons_of_ne_of_not_mem ?_ (ih h)
      rintro rfl
      cases hclean
    · rename_i hne
      exact absurd h hne

theorem read_of_sort {t : FlagTable} {keep : Bool} {args others : List String}
    {tokens : List FlagToken} (hsort : t.sort keep args = .ok (tokens, others)) :
    t.read keep args =
      match t.check tokens with
      | .help => .ok (.usage t.usage)
      | .fault e => .error e
      | .clean => (t.apply tokens).map fun b => .parsed (b, others) := by
  rw [read, hsort]
  show (match t.check tokens with | .help => _ | .fault e => _ | .clean => _) = _
  cases t.check tokens <;> rfl

theorem read_eq_parsed {t : FlagTable} {keep : Bool} {args others : List String}
    {b : BenchmarkParameters} :
    t.read keep args = .ok (.parsed (b, others)) ↔
      ∃ tokens, t.sort keep args = .ok (tokens, others) ∧ t.check tokens = .clean ∧
        t.apply tokens = .ok b := by
  constructor
  · intro h
    cases hsort : t.sort keep args with
    | error e =>
      rw [read, hsort] at h
      cases h
    | ok sorted =>
      obtain ⟨tokens, others'⟩ := sorted
      rw [read_of_sort hsort] at h
      cases hcheck : t.check tokens with
      | help => simp [hcheck] at h
      | fault e => simp [hcheck] at h
      | clean =>
        rw [hcheck] at h
        obtain ⟨b, happly, hb⟩ := exists_of_map_ok h
        cases hb
        exact ⟨tokens, rfl, hcheck, happly⟩
  · rintro ⟨tokens, hsort, hcheck, happly⟩
    rw [read_of_sort hsort, hcheck, happly]
    rfl

end FlagTable

open FlagTable

theorem readFlags_eq_parsed {args : List String} {p : Parameters} :
    readFlags args = .ok (.parsed p) ↔
      ∃ others b, forSolves.read false args = .ok (.parsed (b, others)) ∧ b.parameters = p := by
  constructor
  · intro h
    obtain ⟨o, hread, ho⟩ := exists_of_map_ok h
    cases o with
    | usage text => cases ho
    | parsed r => exact ⟨r.2, r.1, hread, FlagOutcome.parsed.inj ho⟩
  · rintro ⟨others, b, hread, rfl⟩
    rw [readFlags, hread]
    rfl

theorem readKnownFlags_eq_parsed {args others : List String} {p : Parameters} :
    readKnownFlags args = .ok (.parsed (p, others)) ↔
      ∃ b, forSolves.read true args = .ok (.parsed (b, others)) ∧ b.parameters = p := by
  constructor
  · intro h
    obtain ⟨o, hread, ho⟩ := exists_of_map_ok h
    cases o with
    | usage text => cases ho
    | parsed r =>
      obtain ⟨hp, hothers⟩ := Prod.mk.inj (FlagOutcome.parsed.inj ho)
      exact ⟨r.1, hothers ▸ hread, hp⟩
  · rintro ⟨b, hread, rfl⟩
    rw [readKnownFlags, hread]
    rfl

/-- Reading known flags splits the arguments into flags and others: the flags alone give the same
parameters, and the others alone are set aside again and give none. -/
theorem readKnownFlags_splits {args others : List String} {p : Parameters}
    (h : readKnownFlags args = .ok (.parsed (p, others))) :
    ∃ kept, Splits args kept others ∧
      (∀ kept' others', Splits args kept' others' → kept' = kept ∧ others' = others) ∧
      kept.Sublist args ∧ others.Sublist args ∧ (kept ++ others).Perm args ∧
      readFlags kept = .ok (.parsed p) ∧
      readKnownFlags others = .ok (.parsed (.empty, others)) := by
  obtain ⟨b, hread, rfl⟩ := readKnownFlags_eq_parsed.1 h
  obtain ⟨tokens, hsort, hcheck, happly⟩ := read_eq_parsed.1 hread
  obtain ⟨kept, hsplit, hspell, hothers⟩ := splits_of_sort hsort (help_not_mem_of_check hcheck)
  refine ⟨kept, hsplit, fun _ _ => hsplit.unique, hsplit.kept_sublist, hsplit.others_sublist,
    hsplit.perm, ?_, ?_⟩
  · have hkept : forSolves.read false kept = .ok (.parsed (b, [])) :=
      read_eq_parsed.2 ⟨tokens, sort_spells hspell false, hcheck, happly⟩
    exact readFlags_eq_parsed.2 ⟨[], b, hkept, rfl⟩
  · have hread : forSolves.read true others = .ok (.parsed (.empty, others)) :=
      read_eq_parsed.2 ⟨[], hothers, rfl, rfl⟩
    exact readKnownFlags_eq_parsed.2 ⟨.empty, hread, rfl⟩

/-- Flags of each kind among other arguments; one value looks like a flag, and one worker comes
before the first of its range. -/
def mixedArgs : List String :=
  ["--nbWorkers", "4", "--verbose", "--worker0-1.failLimit=7", "plan.json", "--printLog",
    "--solver", "--help", "--worker2-1.failLimit", "--"]

theorem readKnownFlags_splits_mixedArgs :
    ∃ kept, Splits mixedArgs kept ["--verbose", "plan.json", "--worker2-1.failLimit", "--"] ∧
      readFlags kept =
        .ok (.parsed
          { Parameters.empty with
            nbWorkers := some 4
            printLog := some true
            solver := some "--help"
            workers := List.replicate 2 { WorkerParameters.empty with failLimit := some 7 } }) := by
  have h : readKnownFlags mixedArgs = .ok (.parsed (_, _)) := rfl
  obtain ⟨kept, hsplit, -, -, -, -, hread, -⟩ := readKnownFlags_splits h
  exact ⟨kept, hsplit, hread⟩

end Scheduling
