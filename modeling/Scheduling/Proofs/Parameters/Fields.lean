import Mathlib.Data.List.Pairwise
import Scheduling.Parameters.Record
import Scheduling.Proofs.Json.Arranged

/-!
# The fields of parameters

The fields of a worker, a solve and a benchmark as tables (`JsonField.worker`, `JsonField.solve`,
`JsonField.benchmark`): the key of each, the kind of its values, and where it is kept. A record is
written and read by the rows of its table, and a member changes only the field with its key.
-/

namespace Scheduling

theorem Except.bind_eq_ok_iff {ε α β : Type} {x : Except ε α} {f : α → Except ε β} {b : β} :
    x >>= f = .ok b ↔ ∃ a, x = .ok a ∧ f a = .ok b := by
  cases x <;> simp [bind, Except.bind]

theorem Except.bind_pure_eq_ok_iff {ε α β : Type} {x : Except ε α} {f : α → β} {b : β} :
    (x >>= fun a => pure (f a)) = .ok b ↔ ∃ a, x = .ok a ∧ b = f a := by
  cases x <;> simp [bind, Except.bind, pure, Except.pure, eq_comm]

namespace Json

variable {members : List (String × Json)} {key : String} {j : Json}

theorem mem_of_lookup (h : members.lookup key = some j) : (key, j) ∈ members :=
  SortedMap.mem_of_get? ((lookup_eq_get? members key).symm.trans h)

theorem lookup_of_mem (hn : (members.map Prod.fst).Nodup) {m : String × Json} (hm : m ∈ members) :
    members.lookup m.1 = some m.2 :=
  (lookup_eq_get? members m.1).trans (SortedMap.get?_of_mem hn hm)

theorem lookup_of_not_mem (h : key ∉ members.map Prod.fst) : members.lookup key = none := by
  rw [lookup_eq_get?]
  apply SortedMap.get?_eq_none
  intro m hm he
  exact h (he ▸ List.mem_map_of_mem hm)

end Json

/-! ## Kinds of values -/

/-- What a field of parameters holds. -/
inductive FieldKind where
  | text
  | texts
  | truth
  /-- Natural numbers up to a greatest one, of 64 bits at most. -/
  | natural (most : Int) (hmost : most ≤ wordMax)
  | float
  | searchType
  | color

namespace FieldKind

/-- The values of a kind. -/
abbrev Value : FieldKind → Type
  | text => String
  | texts => List String
  | truth => Bool
  | natural _ _ => Nat
  | float => Float
  | searchType => SearchType
  | color => ColorMode

/-- The value that a JSON value stands for. -/
def read (unit : UnitForm) : (k : FieldKind) → Json → Option k.Value
  | text => Json.string?
  | texts => Json.list? Json.string?
  | truth => Json.bool?
  | natural most _ => fun j => (j.intWithin? 0 most).map Int.toNat
  | float => Json.float?
  | searchType => Json.named? unit SearchType.ofName?
  | color => Json.named? unit ColorMode.ofName?

/-- The JSON value of a value. -/
def write : (k : FieldKind) → k.Value → Json
  | text => .str
  | texts => fun args : List String => .arr (args.map .str)
  | truth => .bool
  | natural _ _ => fun n : Nat => .int n
  | float => .float
  | searchType => fun t : SearchType => .str t.name
  | color => fun c : ColorMode => .str c.name

/-- The value is within the bounds of its kind; a float is as asked. -/
def Proper (ok : Float → Prop) : (k : FieldKind) → k.Value → Prop
  | natural most _ => fun n : Nat => (n : Int) ≤ most
  | float => ok
  | _ => fun _ => True

/-- The JSON value is a name, or an object with the name as its only key. -/
def IsName (unit : UnitForm) (name : String) (j : Json) : Prop :=
  j = .str name ∨ ∃ data, unit.accepts data = true ∧ j = .obj [(name, data)]

/-- The JSON value is of a kind. -/
def Holds (unit : UnitForm) : FieldKind → Json → Prop
  | text, j => ∃ s, j = .str s
  | texts, j => ∃ args : List String, j = .arr (args.map .str)
  | truth, j => ∃ b, j = .bool b
  | natural most _, j => ∃ n : Nat, (n : Int) ≤ most ∧ j = .int n
  | float, j => (∃ v, j = .int v) ∨ ∃ x, j = .float x
  | searchType, j => ∃ t : SearchType, IsName unit t.name j
  | color, j => ∃ c : ColorMode, IsName unit c.name j

variable {unit : UnitForm} {k : FieldKind} {j : Json} {ok : Float → Prop} {f : Json → Json}

theorem write_ne_null (v : k.Value) : k.write v ≠ .null := by
  cases k <;> exact nofun

theorem read_write {v : k.Value} (h : k.Proper ok v) : k.read unit (k.write v) = some v := by
  cases k with
  | text | truth | float => rfl
  | texts => exact Json.list?_map fun _ _ => rfl
  | natural most _ =>
    have hbounds : 0 ≤ ((v : Nat) : Int) ∧ ((v : Nat) : Int) ≤ most := ⟨Int.natCast_nonneg v, h⟩
    simp [read, write, Json.intWithin?, hbounds]
  | searchType => cases v <;> rfl
  | color => cases v <;> rfl

theorem plain_write {v : k.Value} (h : k.Proper ok v) : Json.Plain ok (k.write v) := by
  cases k with
  | texts => exact Json.plain_list fun _ _ => trivial
  | natural most hmost => exact Json.plain_of_le_wordMax (Int.le_trans (show (v : Int) ≤ most from h) hmost)
  | float => exact h
  | _ => trivial

theorem isSound_of_read {v : k.Value} (h : k.read unit j = some v) : j.isSound := by
  cases k with
  | text => exact Json.isSound_of_string? h
  | texts => exact Json.isSound_of_list? h fun _ _ => Json.isSound_of_string?
  | truth => exact Json.isSound_of_bool? h
  | natural most _ =>
    obtain ⟨n, hn, -⟩ := Option.map_eq_some_iff.1 h
    exact Json.isSound_of_intWithin? hn
  | float => exact Json.isSound_of_float? h
  | searchType | color => exact Json.isSound_of_named? h

/-- A value that was written is the same apart from the order of members. -/
theorem arranged_write (hf : Json.Arranges ok f) {v : k.Value} (h : k.Proper ok v) :
    f (k.write v) = k.write v := by
  cases k with
  | text | searchType | color => exact hf.str _
  | texts =>
    rw [write, hf.arr, List.map_map]
    congr 1
    exact List.map_congr_left fun s _ => hf.str s
  | truth => exact hf.bool _
  | natural most _ => exact hf.int _
  | float => exact hf.float _ h

theorem isSome_named?_iff {α : Type} {ofName? : String → Option α} {name : α → String}
    (hname : ∀ s a, ofName? s = some a ↔ s = name a) :
    (j.named? unit ofName?).isSome ↔ ∃ a, IsName unit (name a) j := by
  rw [Option.isSome_iff_exists]
  apply exists_congr
  intro a
  rw [Json.named?, Option.bind_eq_some_iff]
  simp only [hname, exists_eq_right]
  constructor
  · intro h
    unfold Json.choice? at h
    split at h
    · exact .inl (congrArg Json.str (Option.some.inj h))
    · split at h
      · rename_i hdata
        obtain rfl := Option.some.inj h
        exact .inr ⟨_, hdata, rfl⟩
      · exact nomatch h
    · exact nomatch h
  · rintro (rfl | ⟨data, hdata, rfl⟩)
    · rfl
    · rw [Json.choice?, if_pos hdata]

theorem searchType_ofName?_iff (s : String) (t : SearchType) :
    SearchType.ofName? s = some t ↔ s = t.name := by
  constructor
  · intro h
    have hname : (t.name == s) = true := List.find?_some (p := fun t => SearchType.name t == s) h
    exact (beq_iff_eq.1 hname).symm
  · rintro rfl
    cases t <;> rfl

theorem color_ofName?_iff (s : String) (c : ColorMode) :
    ColorMode.ofName? s = some c ↔ s = c.name := by
  constructor
  · intro h
    unfold ColorMode.ofName? at h
    split at h <;> cases h <;> rfl
  · rintro rfl
    cases c <;> rfl

theorem mapM_string?_iff {items : List Json} {args : List String} :
    items.mapM Json.string? = some args ↔ items = args.map .str := by
  constructor
  · intro h
    induction items generalizing args with
    | nil =>
      obtain rfl := Option.some.inj h
      rfl
    | cons item items ih =>
      simp only [List.mapM_cons, Option.bind_eq_bind, Option.bind_eq_some_iff] at h
      obtain ⟨s, hs, args', hargs, hpure⟩ := h
      obtain rfl := Option.some.inj hpure
      cases item with
      | str s' =>
        obtain rfl := Option.some.inj hs
        rw [ih hargs, List.map_cons]
      | _ => exact nomatch hs
  · rintro rfl
    exact Json.list?_map fun _ _ => rfl

/-- Exactly the JSON values of a kind can be read as values of it. -/
theorem isSome_read_iff : (k.read unit j).isSome ↔ k.Holds unit j := by
  cases k with
  | text => cases j <;> simp [read, Holds, Json.string?]
  | texts => cases j <;> simp [read, Holds, Json.list?, Option.isSome_iff_exists, mapM_string?_iff]
  | truth => cases j <;> simp [read, Holds, Json.bool?]
  | natural most _ =>
    cases j with
    | int v =>
      have hcast : (∃ n : Nat, (n : Int) ≤ most ∧ v = n) ↔ 0 ≤ v ∧ v ≤ most := by
        constructor
        · rintro ⟨n, hn, rfl⟩
          exact ⟨Int.natCast_nonneg n, hn⟩
        · rintro ⟨hv, hmost⟩
          exact ⟨v.toNat, by omega, by omega⟩
      simp [read, Holds, Json.intWithin?, hcast]
    | _ => simp [read, Holds, Json.intWithin?]
  | float => cases j <;> simp [read, Holds, Json.float?]
  | searchType => exact isSome_named?_iff searchType_ofName?_iff
  | color => exact isSome_named?_iff color_ofName?_iff

end FieldKind

/-! ## Tables -/

/-- A field of a record: its key, the kind of its values, and where it is kept. -/
structure JsonField (ρ : Type) where
  name : String
  kind : FieldKind
  get : ρ → Option kind.Value
  set : ρ → Option kind.Value → ρ
  get_set : ∀ r v, get (set r v) = v

namespace JsonField

variable {ρ : Type}

/-- Numbers of 64 bits. -/
abbrev word : FieldKind := .natural wordMax (Int.le_refl _)

/-- Numbers of 32 bits. -/
abbrev halfWord : FieldKind := .natural halfWordMax (by decide)

/-- The fields of workers. -/
def worker : List (JsonField WorkerParameters) :=
  [⟨"searchType", .searchType, (·.searchType), fun w v => { w with searchType := v },
      fun _ _ => rfl⟩,
    ⟨"randomSeed", word, (·.randomSeed), fun w v => { w with randomSeed := v }, fun _ _ => rfl⟩,
    ⟨"failLimit", word, (·.failLimit), fun w v => { w with failLimit := v }, fun _ _ => rfl⟩,
    ⟨"branchLimit", word, (·.branchLimit), fun w v => { w with branchLimit := v }, fun _ _ => rfl⟩,
    ⟨"lnsStepLimit", word, (·.lnsStepLimit), fun w v => { w with lnsStepLimit := v },
      fun _ _ => rfl⟩,
    ⟨"noOverlapPropagationLevel", halfWord, (·.noOverlapPropagationLevel),
      fun w v => { w with noOverlapPropagationLevel := v }, fun _ _ => rfl⟩,
    ⟨"cumulPropagationLevel", halfWord, (·.cumulPropagationLevel),
      fun w v => { w with cumulPropagationLevel := v }, fun _ _ => rfl⟩]

/-- The fields of solves, apart from the records of workers. -/
def solve : List (JsonField Parameters) :=
  [⟨"solver", .text, (·.solver), fun p v => { p with solver := v }, fun _ _ => rfl⟩,
    ⟨"solverArgs", .texts, (·.solverArgs), fun p v => { p with solverArgs := v }, fun _ _ => rfl⟩,
    ⟨"printLog", .truth, (·.printLog), fun p v => { p with printLog := v }, fun _ _ => rfl⟩,
    ⟨"nbWorkers", halfWord, (·.nbWorkers), fun p v => { p with nbWorkers := v }, fun _ _ => rfl⟩,
    ⟨"timeLimit", .float, (·.timeLimit), fun p v => { p with timeLimit := v }, fun _ _ => rfl⟩,
    ⟨"solutionLimit", word, (·.solutionLimit), fun p v => { p with solutionLimit := v },
      fun _ _ => rfl⟩,
    ⟨"logLevel", halfWord, (·.logLevel), fun p v => { p with logLevel := v }, fun _ _ => rfl⟩,
    ⟨"logPeriod", .float, (·.logPeriod), fun p v => { p with logPeriod := v }, fun _ _ => rfl⟩,
    ⟨"warningLevel", halfWord, (·.warningLevel), fun p v => { p with warningLevel := v },
      fun _ _ => rfl⟩,
    ⟨"color", .color, (·.color), fun p v => { p with color := v }, fun _ _ => rfl⟩,
    ⟨"verifySolutions", .truth, (·.verifySolutions), fun p v => { p with verifySolutions := v },
      fun _ _ => rfl⟩,
    ⟨"absoluteGapTolerance", .float, (·.absoluteGapTolerance),
      fun p v => { p with absoluteGapTolerance := v }, fun _ _ => rfl⟩,
    ⟨"relativeGapTolerance", .float, (·.relativeGapTolerance),
      fun p v => { p with relativeGapTolerance := v }, fun _ _ => rfl⟩]

/-- The fields of benchmarks. -/
def benchmark : List (JsonField BenchmarkParameters) :=
  [⟨"nbParallelRuns", halfWord, (·.nbParallelRuns), fun b v => { b with nbParallelRuns := v },
      fun _ _ => rfl⟩,
    ⟨"nbSeeds", halfWord, (·.nbSeeds), fun b v => { b with nbSeeds := v }, fun _ _ => rfl⟩,
    ⟨"log", .text, (·.log), fun b v => { b with log := v }, fun _ _ => rfl⟩,
    ⟨"result", .text, (·.result), fun b v => { b with result := v }, fun _ _ => rfl⟩,
    ⟨"exportJSON", .text, (·.exportJson), fun b v => { b with exportJson := v }, fun _ _ => rfl⟩,
    ⟨"output", .text, (·.output), fun b v => { b with output := v }, fun _ _ => rfl⟩,
    ⟨"summary", .text, (·.summary), fun b v => { b with summary := v }, fun _ _ => rfl⟩]

/-- Setting the field leaves what `g` looks at as it is. -/
def Keeps {β : Type} (F : JsonField ρ) (g : ρ → β) : Prop := ∀ r v, g (F.set r v) = g r

/-- How the field is read. -/
def reader (unit : UnitForm) (F : JsonField ρ) : FieldReader ρ := .optional (F.kind.read unit) F.set

/-- The members of the fields that are set. -/
def members (T : List (JsonField ρ)) (r : ρ) : List (String × Json) :=
  T.flatMap fun F => Json.member? F.name (F.get r) F.kind.write

/-- Two fields of a table have different keys, and neither is where the other one is kept. -/
def Apart (F G : JsonField ρ) : Prop := F.name ≠ G.name ∧ F.Keeps G.get ∧ G.Keeps F.get

instance : Std.Symm (Apart : JsonField ρ → JsonField ρ → Prop) :=
  ⟨fun _ _ h => ⟨h.1.symm, h.2.2, h.2.1⟩⟩

theorem worker_apart : worker.Pairwise Apart := by simp [worker, Apart, Keeps]

theorem solve_apart : solve.Pairwise Apart := by simp [solve, Apart, Keeps]

theorem benchmark_apart : benchmark.Pairwise Apart := by simp [benchmark, Apart, Keeps]

theorem worker_row (unit : UnitForm) :
    ∀ F ∈ worker, WorkerParameters.field? unit F.name = some (F.reader unit) := by
  repeat refine List.forall_mem_cons.2 ⟨rfl, ?_⟩
  exact nofun

theorem solve_row (unit : UnitForm) :
    ∀ F ∈ solve, Parameters.field? unit F.name = some (F.reader unit) := by
  repeat refine List.forall_mem_cons.2 ⟨rfl, ?_⟩
  exact nofun

theorem benchmark_row :
    ∀ F ∈ benchmark, BenchmarkParameters.field? F.name = some (F.reader .null) := by
  repeat refine List.forall_mem_cons.2 ⟨rfl, ?_⟩
  exact nofun

theorem worker_field?_eq_none {unit : UnitForm} {key : String} (h : key ∉ worker.map name) :
    WorkerParameters.field? unit key = none := by
  unfold WorkerParameters.field?
  split
  case h_8 => rfl
  all_goals exact absurd (by simp [worker]) h

theorem solve_field?_eq_none {unit : UnitForm} {key : String} (h : key ∉ solve.map name)
    (hw : key ≠ "workers") : Parameters.field? unit key = none := by
  unfold Parameters.field?
  split
  case h_14 => exact absurd rfl hw
  case h_15 => rfl
  all_goals exact absurd (by simp [solve]) h

theorem benchmark_field?_eq_none {key : String} (h : key ∉ benchmark.map name) :
    BenchmarkParameters.field? key = none := by
  unfold BenchmarkParameters.field?
  split
  case h_8 => rfl
  all_goals exact absurd (by simp [benchmark]) h

end JsonField

/-! ## Reading a record in any order -/

namespace FieldReader

variable {ρ β : Type} {field? : String → Option (FieldReader ρ)} {read : FieldReader ρ} {r r' : ρ}
  {ms os : List (String × Json)} {seen : List String} {key : String} {j : Json} {g : ρ → β}

/-- Reads the fields of a record in which no field is repeated. -/
def fill (field? : String → Option (FieldReader ρ)) :
    ρ → List (String × Json) → Except ParameterFlaw (ρ × List (String × Json))
  | r, [] => .ok (r, [])
  | r, (key, j) :: rest =>
    match field? key with
    | some read =>
      match read j r with
      | .ok r => fill field? r rest
      | .error e => .error e
    | none =>
      if !j.isSound then .error .malformed
      else
        match fill field? r rest with
        | .ok (r, others) => .ok (r, (key, j) :: others)
        | .error e => .error e

/-- The keys of members that are fields. -/
def known (field? : String → Option (FieldReader ρ)) (ms : List (String × Json)) : List String :=
  (ms.map Prod.fst).filter fun k => (field? k).isSome

theorem members_eq_fill (hn : (known field? ms).Nodup) (hs : ∀ k ∈ known field? ms, k ∉ seen) :
    members field? seen r ms = fill field? r ms := by
  induction ms generalizing seen r with
  | nil => rfl
  | cons m ms ih =>
    obtain ⟨key, j⟩ := m
    rw [members, fill]
    cases hk : field? key with
    | none =>
      have he : known field? ((key, j) :: ms) = known field? ms := by
        rw [known, List.map_cons, List.filter_cons_of_neg (by simp [hk])]
        rfl
      rw [he] at hn hs
      cases hrest : fill field? r ms <;> simp only [ih hn hs, hrest]
    | some read =>
      have he : known field? ((key, j) :: ms) = key :: known field? ms := by
        rw [known, List.map_cons, List.filter_cons_of_pos (by simp [hk])]
        rfl
      rw [he] at hn hs
      obtain ⟨hkey, hn⟩ := List.nodup_cons.1 hn
      have hseen : seen.contains key = false := by
        simpa using hs key List.mem_cons_self
      simp only [hseen, Bool.false_eq_true, if_false]
      cases read j r with
      | error e => rfl
      | ok r' =>
        refine ih hn fun k hmem hin => ?_
        obtain rfl | hin := List.mem_cons.1 hin
        · exact hkey hmem
        · exact hs k (List.mem_cons_of_mem _ hmem) hin

theorem known_sublist (ms : List (String × Json)) : (known field? ms).Sublist (ms.map Prod.fst) :=
  List.filter_sublist

/-- The member can be read as the field with its key; without such a field it only has to be
readable throughout. -/
def Readable (field? : String → Option (FieldReader ρ)) (m : String × Json) : Prop :=
  match field? m.1 with
  | some read => ∀ r, ∃ r', read m.2 r = .ok r'
  | none => m.2.isSound = true

/-- The members that are no fields. -/
def others (field? : String → Option (FieldReader ρ)) (ms : List (String × Json)) :
    List (String × Json) := ms.filter fun m => (field? m.1).isNone

theorem others_cons_of_some (hk : field? key = some read) :
    others field? ((key, j) :: ms) = others field? ms := List.filter_cons_of_neg (by simp [hk])

theorem others_cons_of_none (hk : field? key = none) :
    others field? ((key, j) :: ms) = (key, j) :: others field? ms :=
  List.filter_cons_of_pos (by simp [hk])

theorem mem_others {m : String × Json} : m ∈ others field? ms ↔ m ∈ ms ∧ field? m.1 = none := by
  simp [others]

theorem lookup_others (hk : field? key = none) : (others field? ms).lookup key = ms.lookup key :=
  Json.lookup_filter (p := fun key => (field? key).isNone) (by simp [hk])

theorem nodup_others (hn : (ms.map Prod.fst).Nodup) :
    ((others field? ms).map Prod.fst).Nodup := hn.sublist (List.filter_sublist.map _)

/-- What is found after a member that is a field. -/
theorem fill_cons_of_some {found : ρ × List (String × Json)} (hk : field? key = some read) :
    fill field? r ((key, j) :: ms) = .ok found ↔
      ∃ r₁, read j r = .ok r₁ ∧ fill field? r₁ ms = .ok found := by
  rw [fill]
  simp only [hk]
  cases read j r <;> simp

/-- What is found after a member that is no field. -/
theorem fill_cons_of_none (hk : field? key = none) :
    fill field? r ((key, j) :: ms) = .ok (r', os) ↔
      j.isSound ∧ ∃ os', fill field? r ms = .ok (r', os') ∧ os = (key, j) :: os' := by
  rw [fill]
  simp only [hk]
  cases hs : j.isSound with
  | false => simp
  | true =>
    cases hf : fill field? r ms with
    | error e => simp
    | ok found =>
      obtain ⟨r₁, os₁⟩ := found
      simp only [Bool.not_true, Bool.false_eq_true, if_false, true_and, Except.ok.injEq,
        Prod.mk.injEq]
      constructor
      · rintro ⟨rfl, rfl⟩
        exact ⟨os₁, ⟨rfl, rfl⟩, rfl⟩
      · rintro ⟨os', ⟨rfl, rfl⟩, rfl⟩
        exact ⟨rfl, rfl⟩

theorem exists_fill (h : ∀ m ∈ ms, Readable field? m) (r : ρ) :
    ∃ r', fill field? r ms = .ok (r', others field? ms) := by
  induction ms generalizing r with
  | nil => exact ⟨r, rfl⟩
  | cons m ms ih =>
    obtain ⟨key, j⟩ := m
    obtain ⟨hm, hms⟩ := List.forall_mem_cons.1 h
    rw [Readable] at hm
    cases hk : field? key with
    | some read =>
      simp only [hk] at hm
      obtain ⟨r₁, hr₁⟩ := hm r
      obtain ⟨r', hr'⟩ := ih hms r₁
      rw [others_cons_of_some hk]
      exact ⟨r', (fill_cons_of_some hk).2 ⟨r₁, hr₁, hr'⟩⟩
    | none =>
      simp only [hk] at hm
      obtain ⟨r', hr'⟩ := ih hms r
      rw [others_cons_of_none hk]
      exact ⟨r', (fill_cons_of_none hk).2 ⟨hm, _, hr', rfl⟩⟩

/-- The members that are no fields are left over. -/
theorem others_of_fill (h : fill field? r ms = .ok (r', os)) : os = others field? ms := by
  induction ms generalizing r os with
  | nil =>
    cases h
    rfl
  | cons m ms ih =>
    obtain ⟨key, j⟩ := m
    cases hk : field? key with
    | some read =>
      obtain ⟨r₁, -, hms⟩ := (fill_cons_of_some hk).1 h
      rw [others_cons_of_some hk, ih hms]
    | none =>
      obtain ⟨-, os', hms, rfl⟩ := (fill_cons_of_none hk).1 h
      rw [others_cons_of_none hk, ih hms]

/-- What only one field changes is as the member with the key of the field leaves it, and as before
if there is none. -/
theorem get_of_fill (hkey : field? key = some read) (hn : (ms.map Prod.fst).Nodup)
    (hkeep : ∀ key' read', field? key' = some read' → key' ≠ key →
      ∀ j r r', read' j r = .ok r' → g r' = g r)
    (h : fill field? r ms = .ok (r', os)) :
    (ms.lookup key = none ∧ g r' = g r) ∨
      ∃ j r₁ r₂, ms.lookup key = some j ∧ read j r₁ = .ok r₂ ∧ g r' = g r₂ := by
  induction ms generalizing r os with
  | nil =>
    cases h
    exact .inl ⟨rfl, rfl⟩
  | cons m ms ih =>
    obtain ⟨key', j⟩ := m
    obtain ⟨hfresh, hrest⟩ := List.nodup_cons.1 hn
    by_cases he : key = key'
    · subst he
      obtain ⟨r₁, hr₁, hms⟩ := (fill_cons_of_some hkey).1 h
      right
      refine ⟨j, r, r₁, List.lookup_cons_self, hr₁, ?_⟩
      obtain ⟨-, hg⟩ | ⟨j', _, _, hj', -⟩ := ih hrest hms
      · exact hg
      · exact (hfresh (List.mem_map.2 ⟨_, Json.mem_of_lookup hj', rfl⟩)).elim
    · have hlookup : ((key', j) :: ms).lookup key = ms.lookup key := by
        rw [List.lookup_cons, beq_eq_false_iff_ne.2 he]
      rw [hlookup]
      cases hk : field? key' with
      | some read' =>
        obtain ⟨r₁, hr₁, hms⟩ := (fill_cons_of_some hk).1 h
        rw [← hkeep key' read' hk (Ne.symm he) j r r₁ hr₁]
        exact ih hrest hms
      | none =>
        obtain ⟨-, os', hms, -⟩ := (fill_cons_of_none hk).1 h
        exact ih hrest hms

/-- Members that are read are readable throughout, also those that are left over. -/
theorem sound_of_members {found : ρ × List (String × Json)}
    (hf : ∀ k read j r r', field? k = some read → read j r = .ok r' → j.isSound)
    (h : members field? seen r ms = .ok found) : Json.soundMembers ms := by
  induction ms generalizing seen r found with
  | nil => rfl
  | cons m ms ih =>
    obtain ⟨key, j⟩ := m
    rw [members] at h
    cases hk : field? key with
    | none =>
      rw [hk] at h
      cases hs : j.isSound with
      | false => simp [hs] at h
      | true =>
        simp only [hs, Bool.not_true, Bool.false_eq_true, if_false] at h
        split at h
        · rename_i found' hfound
          exact Bool.and_eq_true_iff.2 ⟨hs, ih hfound⟩
        · exact nomatch h
    | some read =>
      rw [hk] at h
      simp only at h
      split at h
      · exact nomatch h
      · split at h
        · rename_i r' hr'
          exact Bool.and_eq_true_iff.2 ⟨hf key read j r r' hk hr', ih h⟩
        · exact nomatch h

theorem members_of_nodup (hn : (ms.map Prod.fst).Nodup) :
    members field? [] r ms = fill field? r ms :=
  members_eq_fill (hn.sublist (known_sublist ms)) fun _ _ => List.not_mem_nil

end FieldReader

/-! ## Records that are told by tables -/

namespace JsonField

variable {ρ : Type} {unit : UnitForm} {T : List (JsonField ρ)} {F G : JsonField ρ}
  {field? : String → Option (FieldReader ρ)} {r r' : ρ} {ms ms' inner os : List (String × Json)}
  {key : String} {j : Json} {ok : Float → Prop} {f : Json → Json}

/-- The field is as the member with its key has it. It is not set if there is no such member, or if
the member is null. -/
def Reads (unit : UnitForm) (ms : List (String × Json)) (r : ρ) (F : JsonField ρ) : Prop :=
  ((ms.lookup F.name).getD .null).nullable? (F.kind.read unit) = some (F.get r)

/-- The member with the key of the field is null or of the kind of the field. -/
def Fits (unit : UnitForm) (ms : List (String × Json)) (F : JsonField ρ) : Prop :=
  ∀ j, ms.lookup F.name = some j → j = .null ∨ F.kind.Holds unit j

theorem reads_congr (h : ms.lookup F.name = ms'.lookup F.name) :
    F.Reads unit ms r ↔ F.Reads unit ms' r := by rw [Reads, Reads, h]

theorem fits_congr (h : ms.lookup F.name = ms'.lookup F.name) :
    F.Fits unit ms ↔ F.Fits unit ms' := by rw [Fits, Fits, h]

/-- Only one value of a field is told by the members. -/
theorem Reads.unique (h : F.Reads unit ms r) (h' : F.Reads unit ms r') : F.get r = F.get r' :=
  Option.some.inj (h.symm.trans h')

theorem exists_nullable? (h : j = .null ∨ F.kind.Holds unit j) :
    ∃ v, j.nullable? (F.kind.read unit) = some v := by
  by_cases hj : j = .null
  · exact ⟨none, by rw [hj, Json.nullable?]⟩
  · have hsome := FieldKind.isSome_read_iff.2 (h.resolve_left hj)
    obtain ⟨v, hv⟩ := Option.isSome_iff_exists.1 hsome
    refine ⟨some v, ?_⟩
    cases j with
    | null => exact (hj rfl).elim
    | _ => exact congrArg (Option.map some) hv

/-- Members fit their fields if they can be read. -/
theorem fits_of_isSome (h : ∀ F ∈ T,
    (((ms.lookup F.name).getD .null).nullable? (F.kind.read unit)).isSome) :
    ∀ F ∈ T, F.Fits unit ms := by
  intro F hF j hj
  have hsome := h F hF
  rw [hj, Option.getD_some] at hsome
  cases j with
  | null => exact .inl rfl
  | _ => exact .inr (FieldKind.isSome_read_iff.1 (by simpa [Json.nullable?] using hsome))

theorem reader_eq_ok : F.reader unit j r = .ok r' ↔
    ∃ v, j.nullable? (F.kind.read unit) = some v ∧ r' = F.set r v := by
  rw [reader, FieldReader.optional]
  cases j.nullable? (F.kind.read unit) <;> simp [eq_comm]

theorem isSound_of_reader (h : F.reader unit j r = .ok r') : j.isSound := by
  obtain ⟨v, hv, -⟩ := reader_eq_ok.1 h
  exact Json.isSound_of_nullable? hv fun _ => FieldKind.isSound_of_read

/-- The readers of a table's keys are those of its fields, and the readers of other keys leave its
fields as they are. -/
structure Tabled (unit : UnitForm) (T : List (JsonField ρ))
    (field? : String → Option (FieldReader ρ)) : Prop where
  row : ∀ F ∈ T, field? F.name = some (F.reader unit)
  apart : T.Pairwise Apart
  keeps : ∀ key read, field? key = some read → key ∉ T.map name →
    ∀ F ∈ T, ∀ j r r', read j r = .ok r' → F.get r' = F.get r

theorem Tabled.not_mem (h : Tabled unit T field?) {key : String} (hkey : field? key = none) :
    key ∉ T.map name := by
  intro hmem
  obtain ⟨F, hF, rfl⟩ := List.mem_map.1 hmem
  exact nomatch (h.row F hF).symm.trans hkey

theorem keeps_of_apart (hT : T.Pairwise Apart) (hF : F ∈ T) (hG : G ∈ T)
    (hname : G.name ≠ F.name) : G.Keeps F.get := by
  have hne : F ≠ G := by
    rintro rfl
    exact hname rfl
  exact (hT.forall hF hG hne).2.2

theorem Tabled.reads_of_fill (h : Tabled unit T field?) (hF : F ∈ T)
    (hn : (ms.map Prod.fst).Nodup) (hr : F.get r = none)
    (hfill : FieldReader.fill field? r ms = .ok (r', os)) : F.Reads unit ms r' := by
  have hkeep : ∀ key read, field? key = some read → key ≠ F.name →
      ∀ j r r', read j r = .ok r' → F.get r' = F.get r := by
    intro key read hk hne j r r' hread
    by_cases hkey : key ∈ T.map name
    · obtain ⟨G, hG, rfl⟩ := List.mem_map.1 hkey
      obtain rfl := Option.some.inj ((h.row G hG).symm.trans hk)
      obtain ⟨v, -, rfl⟩ := reader_eq_ok.1 hread
      exact keeps_of_apart h.apart hF hG hne r v
    · exact h.keeps key read hk hkey F hF j r r' hread
  rw [Reads]
  obtain ⟨hnone, hg⟩ | ⟨j, r₁, r₂, hj, hread, hg⟩ :=
    FieldReader.get_of_fill (h.row F hF) hn hkeep hfill
  · rw [hnone, hg, hr]
    rfl
  · obtain ⟨v, hv, rfl⟩ := reader_eq_ok.1 hread
    rw [hj, hg, F.get_set]
    exact hv

theorem Tabled.exists_fill (h : Tabled unit T field?) (hn : (ms.map Prod.fst).Nodup)
    (hfits : ∀ F ∈ T, F.Fits unit ms)
    (hothers : ∀ m ∈ ms, m.1 ∉ T.map name → FieldReader.Readable field? m) (r : ρ) :
    ∃ r', FieldReader.fill field? r ms = .ok (r', FieldReader.others field? ms) := by
  refine FieldReader.exists_fill (fun m hm => ?_) r
  by_cases hkey : m.1 ∈ T.map name
  · obtain ⟨F, hF, hname⟩ := List.mem_map.1 hkey
    rw [FieldReader.Readable, ← hname, h.row F hF]
    intro r
    obtain ⟨v, hv⟩ := exists_nullable? (hfits F hF m.2 (hname ▸ Json.lookup_of_mem hn hm))
    exact ⟨F.set r v, reader_eq_ok.2 ⟨v, hv, rfl⟩⟩
  · exact hothers m hm hkey

/-! ### Written members -/

theorem keys_members (T : List (JsonField ρ)) (r : ρ) :
    ((members T r).map Prod.fst).Sublist (T.map name) := by
  induction T with
  | nil => exact List.nil_sublist _
  | cons F T ih =>
    rw [members, List.flatMap_cons, List.map_append, List.map_cons]
    exact (Json.keys_member? ..).append ih

theorem plain_members (hp : ∀ F ∈ T, ∀ v ∈ F.get r, F.kind.Proper ok v) :
    ∀ m ∈ members T r, Json.Plain ok m.2 := by
  intro m hm
  obtain ⟨F, hF, hm⟩ := List.mem_flatMap.1 hm
  cases hv : F.get r with
  | none =>
    rw [hv] at hm
    exact nomatch hm
  | some v =>
    rw [hv] at hm
    obtain rfl := List.mem_singleton.1 hm
    exact FieldKind.plain_write (hp F hF v hv)

theorem lookup_members (hT : T.Pairwise Apart) (hF : F ∈ T) (r : ρ) :
    (members T r).lookup F.name = (F.get r).map F.kind.write := by
  induction T with
  | nil => exact (List.not_mem_nil hF).elim
  | cons G T ih =>
    obtain ⟨hG, hT⟩ := List.pairwise_cons.1 hT
    rw [members, List.flatMap_cons, List.lookup_append, Json.lookup_member?]
    obtain rfl | hF := List.mem_cons.1 hF
    · have hnone : (T.flatMap fun G => Json.member? G.name (G.get r) G.kind.write).lookup F.name =
          none := by
        apply Json.lookup_of_not_mem
        intro hmem
        obtain ⟨G, hGT, hname⟩ := List.mem_map.1 ((keys_members T r).subset hmem)
        exact (hG G hGT).1 hname.symm
      rw [if_pos rfl, hnone, Option.or_none]
    · rw [if_neg (hG F hF).1.symm, Option.none_or]
      exact ih hT hF

theorem lookup_written (hT : T.Pairwise Apart) (hF : F ∈ T) (r : ρ)
    (hinner : F.name ∉ inner.map Prod.fst) :
    (members T r ++ inner).lookup F.name = (F.get r).map F.kind.write := by
  rw [List.lookup_append, lookup_members hT hF, Json.lookup_of_not_mem hinner, Option.or_none]

theorem lookup_inner (h : key ∉ T.map name) (r : ρ) :
    (members T r ++ inner).lookup key = inner.lookup key := by
  have hnone : (members T r).lookup key = none :=
    Json.lookup_of_not_mem fun hmem => h ((keys_members T r).subset hmem)
  rw [List.lookup_append, hnone, Option.none_or]

/-- A field is told by the member that was written for it. -/
theorem reads_written (hf : Json.Arranges ok f) (hp : ∀ v ∈ F.get r, F.kind.Proper ok v)
    (h : ms.lookup F.name = ((F.get r).map F.kind.write).map f) :
    F.Reads unit ms r ∧ F.Fits unit ms := by
  rw [Reads, Fits, h]
  cases hv : F.get r with
  | none => exact ⟨rfl, nofun⟩
  | some v =>
    have hread : F.kind.read unit (F.kind.write v) = some v := FieldKind.read_write (hp v hv)
    rw [Option.map_some, Option.map_some, FieldKind.arranged_write hf (hp v hv)]
    refine ⟨Json.nullable?_eq (FieldKind.write_ne_null v) hread, fun j hj => ?_⟩
    rw [← Option.some.inj hj]
    exact .inr (FieldKind.isSome_read_iff.1 (by rw [hread]; rfl))

end JsonField

end Scheduling
