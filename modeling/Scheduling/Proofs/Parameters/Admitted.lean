import Mathlib.Data.List.Forall2
import Scheduling.Proofs.Parameters.Record

/-!
# Keys of parameters

An object whose values are of the right kinds holds parameters if every key is that of a field of its
level or has an underscore in front, and then the record is what its members say
(`Parameters.exists_ofMembers`, `Parameters.reads_of_ofMembers`). There is one such record only, so
that written parameters are read back from their members in any order (`Parameters.read_written`).
-/

namespace Scheduling

/-- The key has an underscore in front. -/
def Underscored (key : String) : Prop := key.toList.head? = some '_'

instance : DecidablePred Underscored := fun _ => inferInstanceAs (Decidable (_ = _))

namespace Json

variable {ok : Float → Prop} {f : Json → Json} {members ms : List (String × Json)}

/-- Every key of an object is there once, and the values are readable throughout. -/
structure WellFormed (ms : List (String × Json)) : Prop where
  distinct : (ms.map Prod.fst).Nodup
  sound : ∀ m ∈ ms, m.2.isSound

theorem wellFormed_others {ρ : Type} {field? : String → Option (FieldReader ρ)}
    (h : WellFormed ms) : WellFormed (FieldReader.others field? ms) :=
  ⟨FieldReader.nodup_others h.distinct, fun m hm => h.sound m (FieldReader.mem_others.1 hm).1⟩

/-- The object has the members in some order, and what they hold changed by `f`. -/
structure Rearranged (f : Json → Json) (members ms : List (String × Json)) : Prop where
  distinct : (ms.map Prod.fst).Nodup
  lookup : ∀ key, ms.lookup key = (members.lookup key).map f

theorem Rearranged.exists_mem (h : Rearranged f members ms) {m : String × Json} (hm : m ∈ ms) :
    ∃ j, (m.1, j) ∈ members ∧ f j = m.2 := by
  have hlookup : (members.lookup m.1).map f = some m.2 :=
    (h.lookup m.1).symm.trans (lookup_of_mem h.distinct hm)
  obtain ⟨j, hj, hf⟩ := Option.map_eq_some_iff.1 hlookup
  exact ⟨j, mem_of_lookup hj, hf⟩

theorem Rearranged.wellFormed (h : Rearranged f members ms) (hf : Arranges ok f)
    (hs : ∀ m ∈ members, m.2.isSound) : WellFormed ms := by
  refine ⟨h.distinct, fun m hm => ?_⟩
  obtain ⟨j, hj, hfj⟩ := h.exists_mem hm
  rw [← hfj]
  exact hf.sound j (hs (m.1, j) hj)

theorem Rearranged.forall_keys (h : Rearranged f members ms) {p : String → Prop}
    (hp : ∀ m ∈ members, p m.1) : ∀ m ∈ ms, p m.1 := by
  intro m hm
  obtain ⟨j, hj, -⟩ := h.exists_mem hm
  exact hp (m.1, j) hj

theorem exists_rearranged (hf : Arranges ok f) (hn : (members.map Prod.fst).Nodup) :
    ∃ ms, f (.obj members) = .obj ms ∧ Rearranged f members ms := by
  obtain ⟨ms, hms, hdistinct, hlookup⟩ := hf.obj members hn
  exact ⟨ms, hms, hdistinct, hlookup⟩

end Json

/-! ### Workers -/

namespace WorkerParameters

open FieldReader JsonField

variable {unit : UnitForm} {ms ms' os : List (String × Json)} {w w' : WorkerParameters}
  {key : String} {ok : Float → Prop} {f : Json → Json}

/-- The keys that records of workers have. -/
def Admits (key : String) : Prop := key ∈ worker.map name ∨ Underscored key

instance : DecidablePred Admits := fun _ => inferInstanceAs (Decidable (_ ∨ _))

/-- The values of fields are null or of the right kinds. -/
def Fits (unit : UnitForm) (ms : List (String × Json)) : Prop := ∀ F ∈ worker, F.Fits unit ms

/-- The record is what the members say. -/
structure Reads (unit : UnitForm) (ms : List (String × Json)) (w : WorkerParameters) : Prop where
  fields : ∀ F ∈ worker, F.Reads unit ms w
  /-- Members with an underscore in front are kept as they are, with sorted keys inside. -/
  internal : ∀ key, w.internal.get? key =
    if Underscored key then (ms.lookup key).map Json.canonical else none
  ascending : w.internal.Ascending

theorem name_not_underscored {F : JsonField WorkerParameters} (hF : F ∈ worker) :
    ¬ Underscored F.name := by
  have hall : ∀ F ∈ worker, ¬ Underscored F.name := by simp [worker, Underscored]
  exact hall F hF

theorem Fits.congr (h : Fits unit ms) (heq : ∀ key, Admits key → ms.lookup key = ms'.lookup key) :
    Fits unit ms' := fun F hF =>
  (fits_congr (heq F.name (.inl (List.mem_map_of_mem hF)))).1 (h F hF)

theorem Reads.congr (h : Reads unit ms w)
    (heq : ∀ key, Admits key → ms.lookup key = ms'.lookup key) : Reads unit ms' w := by
  refine ⟨fun F hF => ?_, fun key => ?_, h.ascending⟩
  · exact (reads_congr (heq F.name (.inl (List.mem_map_of_mem hF)))).1 (h.fields F hF)
  · rw [h.internal]
    split
    · rename_i hkey
      rw [heq key (.inr hkey)]
    · rfl

/-- Only one record is what the members say. -/
theorem Reads.unique (h : Reads unit ms w) (h' : Reads unit ms w') : w = w' := by
  have hfields : ∀ F ∈ worker, F.get w = F.get w' := fun F hF =>
    (h.fields F hF).unique (h'.fields F hF)
  have hinternal : w.internal = w'.internal := by
    apply h.ascending.ext h'.ascending
    intro key
    rw [h.internal, h'.internal]
  cases w
  cases w'
  simp_all [worker]

theorem tabled (unit : UnitForm) : Tabled unit worker (field? unit) where
  row := worker_row unit
  apart := worker_apart
  keeps key read hk hkey := by
    rw [worker_field?_eq_none hkey] at hk
    exact nomatch hk

/-- A fold has a result if every step has one. -/
theorem isSome_foldl {α β : Type} {step : Option α → β → Option α} (hstep : ∀ o k, (step o k).isSome)
    (k : β) (ks : List β) (o : Option α) : ((k :: ks).foldl step o).isSome := by
  induction ks generalizing k o with
  | nil => exact hstep o k
  | cons k' ks ih => exact ih k' (step o k)

theorem unknownKey?_eq_none_iff : unknownKey? ms = none ↔ ∀ m ∈ ms, Underscored m.1 := by
  constructor
  · intro h m hm
    by_contra hne
    rw [unknownKey?] at h
    cases hkeys : (ms.map Prod.fst).filter fun k => k.toList.head? ≠ some '_' with
    | nil =>
      have hnone := List.filter_eq_nil_iff.1 hkeys m.1 (List.mem_map_of_mem hm)
      exact hnone (decide_eq_true hne)
    | cons k keys =>
      rw [hkeys] at h
      have hsome := congrArg Option.isSome h
      refine absurd ((isSome_foldl ?_ k keys none).symm.trans hsome) (by decide)
      intro o k
      cases o with
      | none => rfl
      | some l =>
        dsimp only
        split <;> rfl
  · intro h
    have hkeys : ((ms.map Prod.fst).filter fun k => k.toList.head? ≠ some '_') = [] := by
      rw [List.filter_eq_nil_iff]
      intro k hk
      obtain ⟨m, hm, rfl⟩ := List.mem_map.1 hk
      simpa [Underscored] using h m hm
    rw [unknownKey?, hkeys]
    rfl

theorem tunables_eq_foldl (ms : List (String × Json)) : tunables ms =
    (ms.map fun m => (m.1, m.2.canonical)).foldl (fun m e => m.insert e.1 e.2) .empty := by
  rw [tunables, List.foldl_map]

theorem get?_tunables (hn : (ms.map Prod.fst).Nodup) (key : String) :
    (tunables ms).get? key = (ms.lookup key).map Json.canonical := by
  have hkeys : ((ms.map fun m => (m.1, m.2.canonical)).map Prod.fst).Nodup := by
    rw [List.map_map]
    exact hn
  rw [tunables_eq_foldl, SortedMap.get?_foldl_insert hkeys, SortedMap.get?_mapped,
    SortedMap.get?_empty, Option.or_none, Json.lookup_eq_get?]

theorem ascending_tunables (ms : List (String × Json)) : (tunables ms).Ascending := by
  rw [tunables_eq_foldl]
  exact SortedMap.ascending_empty.insert_all _

theorem ofMembers_eq_ok (hn : (ms.map Prod.fst).Nodup) : ofMembers unit ms = .ok w ↔
    ∃ r os, fill (field? unit) .empty ms = .ok (r, os) ∧ (∀ m ∈ os, Underscored m.1) ∧
      w = { r with internal := tunables os } := by
  rw [ofMembers, members_of_nodup hn, Except.bind_eq_ok_iff, Prod.exists]
  refine exists_congr fun r => exists_congr fun os => and_congr_right fun _ => ?_
  simp only [← unknownKey?_eq_none_iff]
  cases unknownKey? os <;> simp [pure, Except.pure, eq_comm]

/-- A record is read if its keys are admitted. -/
theorem exists_ofMembers (h : Json.WellFormed ms) (hfits : Fits unit ms)
    (ha : ∀ m ∈ ms, Admits m.1) : ∃ w, ofMembers unit ms = .ok w := by
  have hothers : ∀ m ∈ ms, m.1 ∉ worker.map name → Readable (field? unit) m := by
    intro m hm hkey
    rw [Readable, worker_field?_eq_none hkey]
    exact h.sound m hm
  obtain ⟨r, hr⟩ := (tabled unit).exists_fill h.distinct hfits hothers .empty
  refine ⟨_, (ofMembers_eq_ok h.distinct).2 ⟨r, _, hr, fun m hm => ?_, rfl⟩⟩
  obtain ⟨hms, hnone⟩ := mem_others.1 hm
  exact (ha m hms).resolve_left ((tabled unit).not_mem hnone)

/-- The keys of a record that is read are admitted. -/
theorem admits_of_ofMembers (hn : (ms.map Prod.fst).Nodup) (h : ofMembers unit ms = .ok w) :
    ∀ m ∈ ms, Admits m.1 := by
  obtain ⟨r, os, hfill, hos, -⟩ := (ofMembers_eq_ok hn).1 h
  intro m hm
  by_cases hkey : m.1 ∈ worker.map name
  · exact .inl hkey
  · refine .inr (hos m ?_)
    rw [others_of_fill hfill]
    exact mem_others.2 ⟨hm, worker_field?_eq_none hkey⟩

theorem reads_of_ofMembers (hn : (ms.map Prod.fst).Nodup) (h : ofMembers unit ms = .ok w) :
    Reads unit ms w := by
  obtain ⟨r, os, hfill, hos, rfl⟩ := (ofMembers_eq_ok hn).1 h
  have hothers := others_of_fill hfill
  refine ⟨fun F hF => ?_, fun key => ?_, ascending_tunables os⟩
  · have hempty : ∀ F ∈ worker, F.get .empty = none := by simp [worker, empty]
    have hread := (tabled unit).reads_of_fill hF hn (hempty F hF) hfill
    have hget : ∀ F ∈ worker, F.get { r with internal := tunables os } = F.get r := by
      simp [worker]
    rwa [JsonField.Reads, hget F hF]
  · rw [get?_tunables (by rw [hothers]; exact nodup_others hn)]
    split
    · rename_i hkey
      rw [hothers, lookup_others (field?_underscore hkey)]
    · rename_i hkey
      have hnot : key ∉ os.map Prod.fst := by
        intro hmem
        obtain ⟨m, hm, rfl⟩ := List.mem_map.1 hmem
        exact hkey (hos m hm)
      rw [Json.lookup_of_not_mem hnot]
      rfl

/-! #### Written records -/

theorem admits_members (h : w.Proper ok) : ∀ m ∈ w.members, Admits m.1 := by
  rw [members_worker]
  intro m hm
  obtain hm | hm := List.mem_append.1 hm
  · exact .inl ((keys_members worker w).subset (List.mem_map_of_mem hm))
  · exact .inr (h.underscore m hm)

theorem sound_members (h : w.Proper ok) : ∀ m ∈ w.members, m.2.isSound := fun m hm =>
  (plain_members h m hm).isSound

theorem nodup_members (h : w.Proper ok) : (w.members.map Prod.fst).Nodup := by
  rw [members_worker, List.map_append]
  have hnames : (worker.map name).Nodup := by decide
  refine (hnames.sublist (keys_members worker w)).append h.ascending.nodup ?_
  intro key hkey hinternal
  obtain ⟨F, hF, rfl⟩ := List.mem_map.1 ((keys_members worker w).subset hkey)
  obtain ⟨e, he, hname⟩ := List.mem_map.1 hinternal
  exact name_not_underscored hF (hname ▸ h.underscore e he)

/-- A record is what its members say, whatever their order. -/
theorem reads_written (unit : UnitForm) (h : w.Proper ok) (hf : Json.Arranges ok f)
    (hcanonical : ∀ j, j.canonical = j → f j = j)
    (heq : ∀ key, Admits key → ms.lookup key = (w.members.lookup key).map f) :
    Fits unit ms ∧ Reads unit ms w := by
  have hfield : ∀ F ∈ worker, F.Reads unit ms w ∧ F.Fits unit ms := by
    intro F hF
    apply JsonField.reads_written hf (proper_fields h F hF)
    have hinner : F.name ∉ w.internal.entries.map Prod.fst := by
      intro hmem
      obtain ⟨e, he, hname⟩ := List.mem_map.1 hmem
      exact name_not_underscored hF (hname ▸ h.underscore e he)
    rw [heq F.name (.inl (List.mem_map_of_mem hF)), members_worker,
      lookup_written worker_apart hF w hinner]
  refine ⟨fun F hF => (hfield F hF).2, fun F hF => (hfield F hF).1, fun key => ?_, h.ascending⟩
  have hget : w.internal.get? key = w.internal.entries.lookup key :=
    (Json.lookup_eq_get? _ key).symm
  rw [hget]
  split
  · rename_i hkey
    rw [heq key (.inr hkey), members_worker,
      lookup_inner ((tabled unit).not_mem (field?_underscore hkey))]
    cases hv : w.internal.entries.lookup key with
    | none => rfl
    | some j =>
      have hj : j.canonical = j := h.canonical _ (Json.mem_of_lookup hv)
      rw [Option.map_some, Option.map_some, hcanonical j hj, hj]
  · rename_i hkey
    apply Json.lookup_of_not_mem
    intro hmem
    obtain ⟨e, he, rfl⟩ := List.mem_map.1 hmem
    exact hkey (h.underscore e he)

end WorkerParameters

/-! ### Solves -/

namespace Parameters

open FieldReader JsonField

variable {unit : UnitForm} {ms ms' os : List (String × Json)} {p p' r : Parameters}
  {key : String} {ok : Float → Prop} {f : Json → Json}

/-- The members of the records in the list of workers. -/
def workerEntries (ms : List (String × Json)) : List (List (String × Json)) :=
  match ms.lookup "workers" with
  | some (.arr items) => items.map fun
    | .obj entry => entry
    | _ => []
  | _ => []

/-- The keys that parameters have on their own level. -/
def Admits (key : String) : Prop :=
  key ∈ solve.map name ∨ key = "workers" ∨ WorkerParameters.Admits key

instance : DecidablePred Admits := fun _ => inferInstanceAs (Decidable (_ ∨ _))

/-- All keys are admitted, also those in the records of workers. -/
def Admitted (ms : List (String × Json)) : Prop :=
  (∀ m ∈ ms, Admits m.1) ∧ ∀ entry ∈ workerEntries ms, ∀ m ∈ entry, WorkerParameters.Admits m.1

instance : DecidablePred Admitted := fun _ => inferInstanceAs (Decidable (_ ∧ _))

/-- The values of fields are null or of the right kinds, and the workers are a list of records. -/
structure Fits (unit : UnitForm) (ms : List (String × Json)) : Prop where
  fields : ∀ F ∈ solve, F.Fits unit ms
  search : WorkerParameters.Fits .null ms
  workers : ∀ j, ms.lookup "workers" = some j → j = .arr ((workerEntries ms).map .obj)
  entries : ∀ entry ∈ workerEntries ms,
    Json.WellFormed entry ∧ WorkerParameters.Fits unit entry

/-- The parameters are what the members say. -/
structure Reads (unit : UnitForm) (ms : List (String × Json)) (p : Parameters) : Prop where
  fields : ∀ F ∈ solve, F.Reads unit ms p
  search : WorkerParameters.Reads .null ms p.search
  workers : List.Forall₂ (WorkerParameters.Reads unit) (workerEntries ms) p.workers

theorem workerEntries_eq {entries : List (List (String × Json))}
    (h : ms.lookup "workers" = some (.arr (entries.map .obj))) : workerEntries ms = entries := by
  have hentries : (fun | .obj entry => entry | _ => []) ∘ Json.obj =
      (id : List (String × Json) → _) := rfl
  rw [workerEntries, h]
  simp only [List.map_map, hentries, List.map_id]

theorem workerEntries_eq_nil (h : ms.lookup "workers" = none) : workerEntries ms = [] := by
  rw [workerEntries, h]

theorem workerEntries_congr (h : ms.lookup "workers" = ms'.lookup "workers") :
    workerEntries ms = workerEntries ms' := by rw [workerEntries, workerEntries, h]

theorem Fits.congr (h : Fits unit ms) (heq : ∀ key, Admits key → ms.lookup key = ms'.lookup key) :
    Fits unit ms' := by
  have hworkers := heq "workers" (.inr (.inl rfl))
  have hentries := workerEntries_congr hworkers
  refine ⟨fun F hF => ?_, h.search.congr fun key hkey => heq key (.inr (.inr hkey)), ?_, ?_⟩
  · exact (fits_congr (heq F.name (.inl (List.mem_map_of_mem hF)))).1 (h.fields F hF)
  · rw [← hworkers, ← hentries]
    exact h.workers
  · rw [← hentries]
    exact h.entries

theorem Reads.congr (h : Reads unit ms p)
    (heq : ∀ key, Admits key → ms.lookup key = ms'.lookup key) : Reads unit ms' p := by
  refine ⟨fun F hF => ?_, h.search.congr fun key hkey => heq key (.inr (.inr hkey)), ?_⟩
  · exact (reads_congr (heq F.name (.inl (List.mem_map_of_mem hF)))).1 (h.fields F hF)
  · rw [← workerEntries_congr (heq "workers" (.inr (.inl rfl)))]
    exact h.workers

/-- Only one record of parameters is what the members say. -/
theorem Reads.unique (h : Reads unit ms p) (h' : Reads unit ms p') : p = p' := by
  have hfields : ∀ F ∈ solve, F.get p = F.get p' := fun F hF =>
    (h.fields F hF).unique (h'.fields F hF)
  have hsearch : p.search = p'.search := h.search.unique h'.search
  have hunique : Relator.RightUnique (WorkerParameters.Reads unit) := fun _ _ _ hw hw' =>
    hw.unique hw'
  have hworkers : p.workers = p'.workers := hunique.forall₂ h.workers h'.workers
  cases p
  cases p'
  simp_all [solve]

/-- A record of parameters whose only change is in the workers. -/
theorem get_workers {F : JsonField Parameters} (hF : F ∈ solve) (p : Parameters)
    (ws : List WorkerParameters) : F.get { p with workers := ws } = F.get p := by
  have hall : ∀ F ∈ solve, F.get { p with workers := ws } = F.get p := by simp [solve]
  exact hall F hF

theorem get_search {F : JsonField Parameters} (hF : F ∈ solve) (p : Parameters)
    (w : WorkerParameters) : F.get { p with search := w } = F.get p := by
  have hall : ∀ F ∈ solve, F.get { p with search := w } = F.get p := by simp [solve]
  exact hall F hF

theorem mapM_ofJson_eq_ok {entries : List (List (String × Json))} {ws : List WorkerParameters} :
    (entries.map Json.obj).mapM (WorkerParameters.ofJson unit) = .ok ws ↔
      List.Forall₂ (fun entry w => WorkerParameters.ofMembers unit entry = .ok w) entries ws := by
  induction entries generalizing ws with
  | nil =>
    rw [List.forall₂_nil_left_iff]
    simp [pure, Except.pure, eq_comm]
  | cons entry entries ih =>
    rw [List.forall₂_cons_left_iff, List.map_cons, List.mapM_cons]
    simp only [Except.bind_eq_ok_iff, WorkerParameters.ofJson, ih, exists_and_left, pure,
      Except.pure, Except.ok.injEq, @eq_comm _ ws]

theorem tabled (unit : UnitForm) : Tabled unit solve (field? unit) where
  row := solve_row unit
  apart := solve_apart
  keeps key read hk hkey F hF j r r' hread := by
    by_cases hw : key = "workers"
    · subst hw
      obtain rfl := Option.some.inj hk
      obtain ⟨items, ws, -, -, rfl⟩ := readWorkers_eq_ok.1 hread
      exact get_workers hF r ws
    · rw [solve_field?_eq_none hkey hw] at hk
      exact nomatch hk

theorem not_mem_of_field?_eq_none (h : field? unit key = none) :
    key ∉ solve.map name ∧ key ≠ "workers" := by
  refine ⟨(tabled unit).not_mem h, ?_⟩
  rintro rfl
  exact nomatch h

/-- The keys of workers are no fields of parameters. -/
theorem field?_of_admits (unit : UnitForm) (h : WorkerParameters.Admits key) :
    field? unit key = none := by
  have hall : ∀ F ∈ JsonField.worker, field? unit F.name = none := by
    repeat refine List.forall_mem_cons.2 ⟨rfl, ?_⟩
    exact nofun
  obtain hkey | hkey := h
  · obtain ⟨F, hF, rfl⟩ := List.mem_map.1 hkey
    exact hall F hF
  · exact field?_underscore hkey

theorem ofMembers_eq_ok (hn : (ms.map Prod.fst).Nodup) : ofMembers unit ms = .ok p ↔
    ∃ r os w, fill (field? unit) .empty ms = .ok (r, os) ∧
      WorkerParameters.ofMembers .null os = .ok w ∧ p = { r with search := w } := by
  rw [ofMembers, members_of_nodup hn, Except.bind_eq_ok_iff, Prod.exists]
  simp only [Except.bind_pure_eq_ok_iff, exists_and_left]

/-- The records of workers are read one by one. -/
theorem workers_of_fill (hn : (ms.map Prod.fst).Nodup) (hfits : Fits unit ms)
    (hfill : fill (field? unit) .empty ms = .ok (r, os)) :
    (∀ entry ∈ workerEntries ms, ∀ m ∈ entry, WorkerParameters.Admits m.1) ∧
      List.Forall₂ (WorkerParameters.Reads unit) (workerEntries ms) r.workers := by
  have hkeep : ∀ key read, field? unit key = some read → key ≠ "workers" →
      ∀ j q q', read j q = .ok q' → q'.workers = q.workers := by
    intro key read hk hne j q q' hread
    have hkeeps : ∀ F ∈ solve, F.Keeps Parameters.workers := by simp [solve, Keeps]
    by_cases hkey : key ∈ solve.map name
    · obtain ⟨F, hF, rfl⟩ := List.mem_map.1 hkey
      obtain rfl := Option.some.inj ((solve_row unit F hF).symm.trans hk)
      obtain ⟨v, -, rfl⟩ := reader_eq_ok.1 hread
      exact hkeeps F hF q v
    · rw [solve_field?_eq_none hkey hne] at hk
      cases hk
  have hread : List.Forall₂ (fun entry w => WorkerParameters.ofMembers unit entry = .ok w)
      (workerEntries ms) r.workers := by
    obtain ⟨hnone, hws⟩ | ⟨j, q, q', hj, hread, hws⟩ := get_of_fill rfl hn hkeep hfill
    · rw [workerEntries_eq_nil hnone, hws]
      exact .nil
    · obtain ⟨items, ws, rfl, hitems, rfl⟩ := readWorkers_eq_ok.1 hread
      rw [Json.arr.inj (hfits.workers _ hj)] at hitems
      rw [hws]
      exact mapM_ofJson_eq_ok.1 hitems
  have hboth := (List.forall₂_and_left _ _).2 ⟨hfits.entries, hread⟩
  refine (List.forall₂_and_left _ _).1 (hboth.imp ?_)
  rintro entry w ⟨⟨hentry, -⟩, hw⟩
  exact ⟨WorkerParameters.admits_of_ofMembers hentry.distinct hw,
    WorkerParameters.reads_of_ofMembers hentry.distinct hw⟩

/-- Parameters are read if all keys are admitted. -/
theorem exists_ofMembers (h : Json.WellFormed ms) (hfits : Fits unit ms) (ha : Admitted ms) :
    ∃ p, ofMembers unit ms = .ok p := by
  have hentries : ∃ ws, List.Forall₂
      (fun entry w => WorkerParameters.ofMembers unit entry = .ok w) (workerEntries ms) ws := by
    have hall : ∀ entry ∈ workerEntries ms, ∃ w, WorkerParameters.ofMembers unit entry = .ok w :=
      fun entry hentry => WorkerParameters.exists_ofMembers (hfits.entries entry hentry).1
        (hfits.entries entry hentry).2 (ha.2 entry hentry)
    generalize workerEntries ms = entries at hall
    induction entries with
    | nil => exact ⟨[], .nil⟩
    | cons entry entries ih =>
      obtain ⟨⟨w, hw⟩, hrest⟩ := List.forall_mem_cons.1 hall
      obtain ⟨ws, hws⟩ := ih hrest
      exact ⟨w :: ws, .cons hw hws⟩
  have hothers : ∀ m ∈ ms, m.1 ∉ solve.map name → Readable (field? unit) m := by
    intro m hm hkey
    rw [Readable]
    by_cases hw : m.1 = "workers"
    · obtain ⟨ws, hws⟩ := hentries
      have hj : m.2 = .arr ((workerEntries ms).map .obj) :=
        hfits.workers m.2 (hw ▸ Json.lookup_of_mem h.distinct hm)
      rw [hw]
      intro q
      exact ⟨_, readWorkers_eq_ok.2 ⟨_, ws, hj, mapM_ofJson_eq_ok.2 hws, rfl⟩⟩
    · rw [solve_field?_eq_none hkey hw]
      exact h.sound m hm
  obtain ⟨r, hr⟩ := (tabled unit).exists_fill h.distinct hfits.fields hothers .empty
  have hlookup (key : String) (hkey : WorkerParameters.Admits key) :
      ms.lookup key = (others (field? unit) ms).lookup key :=
    (lookup_others (field?_of_admits unit hkey)).symm
  obtain ⟨w, hw⟩ := WorkerParameters.exists_ofMembers (Json.wellFormed_others h)
    (hfits.search.congr hlookup) fun m hm => by
      obtain ⟨hms, hnone⟩ := mem_others.1 hm
      obtain ⟨hsolve, hworkers⟩ := not_mem_of_field?_eq_none hnone
      exact ((ha.1 m hms).resolve_left hsolve).resolve_left hworkers
  exact ⟨_, (ofMembers_eq_ok h.distinct).2 ⟨r, _, w, hr, hw, rfl⟩⟩

/-- All keys of parameters that are read are admitted. -/
theorem admitted_of_ofMembers (hn : (ms.map Prod.fst).Nodup) (hfits : Fits unit ms)
    (h : ofMembers unit ms = .ok p) : Admitted ms := by
  obtain ⟨r, os, w, hfill, hw, -⟩ := (ofMembers_eq_ok hn).1 h
  obtain rfl := others_of_fill hfill
  constructor
  · intro m hm
    by_cases hkey : m.1 ∈ solve.map name
    · exact .inl hkey
    · by_cases hworkers : m.1 = "workers"
      · exact .inr (.inl hworkers)
      · refine .inr (.inr (WorkerParameters.admits_of_ofMembers (nodup_others hn) hw m ?_))
        exact mem_others.2 ⟨hm, solve_field?_eq_none hkey hworkers⟩
  · exact (workers_of_fill hn hfits hfill).1

theorem reads_of_ofMembers (hn : (ms.map Prod.fst).Nodup) (hfits : Fits unit ms)
    (h : ofMembers unit ms = .ok p) : Reads unit ms p := by
  obtain ⟨r, os, w, hfill, hw, rfl⟩ := (ofMembers_eq_ok hn).1 h
  obtain rfl := others_of_fill hfill
  refine ⟨fun F hF => ?_, ?_, ?_⟩
  · have hempty : ∀ F ∈ solve, F.get .empty = none := by simp [solve, empty]
    have hread := (tabled unit).reads_of_fill hF hn (hempty F hF) hfill
    rwa [JsonField.Reads, get_search hF]
  · exact (WorkerParameters.reads_of_ofMembers (nodup_others hn) hw).congr fun key hkey =>
      lookup_others (field?_of_admits unit hkey)
  · exact (workers_of_fill hn hfits hfill).2

/-! #### Written parameters -/

/-- The keys of the three levels are apart. -/
theorem not_admits_workers : ¬ WorkerParameters.Admits "workers" := by
  intro h
  exact nomatch (field?_of_admits .null h)

theorem admits_members (h : p.Proper ok) : ∀ m ∈ p.members, Admits m.1 := by
  rw [members_solve]
  intro m hm
  simp only [List.mem_append] at hm
  obtain hm | hm | hm := hm
  · exact .inl ((keys_members solve p).subset (List.mem_map_of_mem hm))
  · exact .inr (.inr (WorkerParameters.admits_members h.search m hm))
  · exact .inr (.inl (key_workersMember hm))

theorem sound_members (h : p.Proper ok) : ∀ m ∈ p.members, m.2.isSound := fun m hm =>
  (plain_members h m hm).isSound

/-- The fields have other keys than the defaults of workers and their list. -/
theorem not_mem_rest (h : p.Proper ok) (hkey : key ∈ solve.map name) :
    key ∉ (p.search.members ++ p.workersMember).map Prod.fst := by
  intro hmem
  obtain ⟨m, hm, rfl⟩ := List.mem_map.1 hmem
  obtain hm | hm := List.mem_append.1 hm
  · have hnone := field?_of_admits .null (WorkerParameters.admits_members h.search m hm)
    exact (not_mem_of_field?_eq_none hnone).1 hkey
  · rw [key_workersMember hm] at hkey
    exact absurd hkey (by decide)

theorem not_mem_search (h : p.Proper ok) : "workers" ∉ p.search.members.map Prod.fst := by
  intro hmem
  obtain ⟨m, hm, hname⟩ := List.mem_map.1 hmem
  exact not_admits_workers (hname ▸ WorkerParameters.admits_members h.search m hm)

theorem nodup_members (h : p.Proper ok) : (p.members.map Prod.fst).Nodup := by
  rw [members_solve, List.map_append, List.map_append]
  have hnames : (solve.map name).Nodup := by decide
  have hworkers : (p.workersMember.map Prod.fst).Nodup :=
    (List.nodup_singleton "workers").sublist p.keys_workersMember
  refine (hnames.sublist (keys_members solve p)).append
    ((WorkerParameters.nodup_members h.search).append hworkers ?_) ?_
  · intro key hsearch hkey
    obtain ⟨m, hm, rfl⟩ := List.mem_map.1 hkey
    rw [key_workersMember hm] at hsearch
    exact not_mem_search h hsearch
  · intro key hkey hrest
    rw [← List.map_append] at hrest
    exact not_mem_rest h ((keys_members solve p).subset hkey) hrest

/-- The list of workers keeps its records, whatever the order of their members. -/
theorem exists_entries (unit : UnitForm) (hf : Json.Arranges ok f)
    (hcanonical : ∀ j, j.canonical = j → f j = j) {ws : List WorkerParameters} (h : ∀ w ∈ ws, w.Proper ok) :
    ∃ entries : List (List (String × Json)),
      (ws.map WorkerParameters.toJson).map f = entries.map .obj ∧
      (∀ entry ∈ entries, (Json.WellFormed entry ∧ WorkerParameters.Fits unit entry) ∧
        ∀ m ∈ entry, WorkerParameters.Admits m.1) ∧
      List.Forall₂ (WorkerParameters.Reads unit) entries ws := by
  induction ws with
  | nil => exact ⟨[], rfl, nofun, .nil⟩
  | cons w ws ih =>
    obtain ⟨hw, hws⟩ := List.forall_mem_cons.1 h
    obtain ⟨entries, heq, hentries, hreads⟩ := ih hws
    obtain ⟨entry, hentry, hre⟩ :=
      Json.exists_rearranged hf (WorkerParameters.nodup_members hw)
    obtain ⟨hfits, hread⟩ := WorkerParameters.reads_written unit hw hf hcanonical
      fun key _ => hre.lookup key
    refine ⟨entry :: entries, ?_, List.forall_mem_cons.2 ⟨⟨⟨?_, hfits⟩, ?_⟩, hentries⟩,
      .cons hread hreads⟩
    · rw [List.map_cons, List.map_cons, List.map_cons, heq, ← hentry]
      rfl
    · exact hre.wellFormed hf (WorkerParameters.sound_members hw)
    · exact hre.forall_keys (WorkerParameters.admits_members hw)

/-- Parameters are what their members say, whatever their order. -/
theorem reads_written (unit : UnitForm) (h : p.Proper ok) (hf : Json.Arranges ok f)
    (hcanonical : ∀ j, j.canonical = j → f j = j)
    (heq : ∀ key, Admits key → ms.lookup key = (p.members.lookup key).map f) :
    Fits unit ms ∧ (∀ entry ∈ workerEntries ms, ∀ m ∈ entry, WorkerParameters.Admits m.1) ∧
      Reads unit ms p := by
  have hfield : ∀ F ∈ solve, F.Reads unit ms p ∧ F.Fits unit ms := by
    intro F hF
    apply JsonField.reads_written hf (proper_fields h F hF)
    rw [heq F.name (.inl (List.mem_map_of_mem hF)), members_solve,
      lookup_written solve_apart hF p (not_mem_rest h (List.mem_map_of_mem hF))]
  have hsearch : ∀ key, WorkerParameters.Admits key →
      ms.lookup key = (p.search.members.lookup key).map f := by
    intro key hkey
    have hnone := not_mem_of_field?_eq_none (field?_of_admits .null hkey)
    have hworkers : p.workersMember.lookup key = none := by
      apply Json.lookup_of_not_mem
      intro hmem
      obtain ⟨m, hm, rfl⟩ := List.mem_map.1 hmem
      exact hnone.2 (key_workersMember hm)
    rw [heq key (.inr (.inr hkey)), members_solve, lookup_inner hnone.1, List.lookup_append,
      hworkers, Option.or_none]
  obtain ⟨hsearchFits, hsearchReads⟩ :=
    WorkerParameters.reads_written .null h.search hf hcanonical hsearch
  obtain ⟨entries, hentries, hfits, hreads⟩ :=
    exists_entries unit hf hcanonical h.workers
  have hworkers : ms.lookup "workers" = (p.workersMember.lookup "workers").map f := by
    rw [heq "workers" (.inr (.inl rfl)), members_solve, lookup_inner (by decide),
      List.lookup_append, Json.lookup_of_not_mem (not_mem_search h), Option.none_or]
  have hall : (∀ j, ms.lookup "workers" = some j → j = .arr ((workerEntries ms).map .obj)) ∧
      workerEntries ms = entries := by
    rw [workersMember] at hworkers
    split at hworkers
    · rename_i hnil
      rw [List.isEmpty_iff.1 hnil] at hreads
      rw [hworkers, workerEntries_eq_nil hworkers, List.forall₂_nil_right_iff.1 hreads]
      exact ⟨fun j hj => (Option.some_ne_none j hj.symm).elim, rfl⟩
    · rw [List.lookup_cons_self, Option.map_some, hf.arr, hentries] at hworkers
      rw [hworkers, workerEntries_eq hworkers]
      exact ⟨fun j hj => (Option.some.inj hj).symm, rfl⟩
  obtain ⟨hlist, rfl⟩ := hall
  exact ⟨⟨fun F hF => (hfield F hF).2, hsearchFits, hlist, fun entry he => (hfits entry he).1⟩,
    fun entry he => (hfits entry he).2, fun F hF => (hfield F hF).1, hsearchReads, hreads⟩

/-- Parameters are read back from their members in any order. -/
theorem read_written (h : p.Proper ok) (hf : Json.Arranges ok f)
    (hcanonical : ∀ j, j.canonical = j → f j = j) : ofJson unit (f p.toJson) = .ok p := by
  obtain ⟨ms, hms, hre⟩ := Json.exists_rearranged hf (nodup_members h)
  obtain ⟨hfits, hentries, hreads⟩ := reads_written unit h hf hcanonical fun key _ =>
    hre.lookup key
  have hadmitted : Admitted ms := ⟨hre.forall_keys (admits_members h), hentries⟩
  obtain ⟨q, hq⟩ := exists_ofMembers (hre.wellFormed hf (sound_members h)) hfits hadmitted
  obtain rfl := hreads.unique (reads_of_ofMembers hre.distinct hfits hq)
  rw [toJson, hms]
  exact hq

theorem ofJson?_toJson (h : p.Proper ok) (unit : UnitForm) : ofJson? unit p.toJson = some p := by
  have hread : ofJson unit (id p.toJson) = .ok p :=
    read_written (f := id) h (Json.arranges_id ok) fun _ _ => rfl
  rw [ofJson?, show ofJson unit p.toJson = .ok p from hread]
  rfl

end Parameters

/-! ### Benchmarks -/

namespace BenchmarkParameters

open FieldReader JsonField

variable {ms os : List (String × Json)} {b b' r : BenchmarkParameters} {key : String}
  {ok : Float → Prop} {f : Json → Json}

/-- The keys that parameters of benchmarks have on their own level. -/
def Admits (key : String) : Prop := key ∈ benchmark.map name ∨ Parameters.Admits key

/-- All keys are admitted, also those in the records of workers. -/
def Admitted (ms : List (String × Json)) : Prop :=
  (∀ m ∈ ms, Admits m.1) ∧
    ∀ entry ∈ Parameters.workerEntries ms, ∀ m ∈ entry, WorkerParameters.Admits m.1

/-- The values of fields are null or of the right kinds, and the workers are a list of records. -/
structure Fits (ms : List (String × Json)) : Prop where
  fields : ∀ F ∈ benchmark, F.Fits .null ms
  parameters : Parameters.Fits .null ms

/-- The parameters are what the members say. -/
structure Reads (ms : List (String × Json)) (b : BenchmarkParameters) : Prop where
  fields : ∀ F ∈ benchmark, F.Reads .null ms b
  parameters : Parameters.Reads .null ms b.parameters

/-- Numbers have the bits of their fields, and what runs are solved with is proper. -/
structure Proper (ok : Float → Prop) (b : BenchmarkParameters) : Prop where
  nbParallelRuns : ∀ n ∈ b.nbParallelRuns, (n : Int) ≤ halfWordMax
  nbSeeds : ∀ n ∈ b.nbSeeds, (n : Int) ≤ halfWordMax
  parameters : b.parameters.Proper ok

theorem Reads.unique (h : Reads ms b) (h' : Reads ms b') : b = b' := by
  have hfields : ∀ F ∈ benchmark, F.get b = F.get b' := fun F hF =>
    (h.fields F hF).unique (h'.fields F hF)
  have hparameters : b.parameters = b'.parameters := h.parameters.unique h'.parameters
  cases b
  cases b'
  simp_all [benchmark]

theorem get_parameters {F : JsonField BenchmarkParameters} (hF : F ∈ benchmark)
    (b : BenchmarkParameters) (p : Parameters) : F.get { b with parameters := p } = F.get b := by
  have hall : ∀ F ∈ benchmark, F.get { b with parameters := p } = F.get b := by simp [benchmark]
  exact hall F hF

theorem tabled : Tabled .null benchmark field? where
  row := benchmark_row
  apart := benchmark_apart
  keeps key read hk hkey := by
    rw [benchmark_field?_eq_none hkey] at hk
    exact nomatch hk

/-- The keys of solves and workers are no fields of benchmarks. -/
theorem field?_of_admits (h : Parameters.Admits key) : field? key = none := by
  have hsolve : ∀ F ∈ solve, field? F.name = none := by
    repeat refine List.forall_mem_cons.2 ⟨rfl, ?_⟩
    exact nofun
  have hworker : ∀ F ∈ worker, field? F.name = none := by
    repeat refine List.forall_mem_cons.2 ⟨rfl, ?_⟩
    exact nofun
  obtain hkey | rfl | hkey | hkey := h
  · obtain ⟨F, hF, rfl⟩ := List.mem_map.1 hkey
    exact hsolve F hF
  · rfl
  · obtain ⟨F, hF, rfl⟩ := List.mem_map.1 hkey
    exact hworker F hF
  · apply benchmark_field?_eq_none
    have hall : ∀ F ∈ benchmark, ¬ Underscored F.name := by simp [benchmark, Underscored]
    intro hmem
    obtain ⟨F, hF, rfl⟩ := List.mem_map.1 hmem
    exact hall F hF hkey

theorem lookup_others_of_admits (ms : List (String × Json)) (h : Parameters.Admits key) :
    (others field? ms).lookup key = ms.lookup key := lookup_others (field?_of_admits h)

theorem workerEntries_others (ms : List (String × Json)) :
    Parameters.workerEntries (others field? ms) = Parameters.workerEntries ms :=
  Parameters.workerEntries_congr (lookup_others_of_admits ms (.inr (.inl rfl)))

theorem ofJson_eq_ok (hn : (ms.map Prod.fst).Nodup) : ofJson (.obj ms) = .ok b ↔
    ∃ r os p, fill field? .empty ms = .ok (r, os) ∧ Parameters.ofMembers .null os = .ok p ∧
      b = { r with parameters := p } := by
  rw [ofJson, members_of_nodup hn, Except.bind_eq_ok_iff, Prod.exists]
  simp only [Except.bind_pure_eq_ok_iff, exists_and_left]

theorem exists_ofJson (h : Json.WellFormed ms) (hfits : Fits ms) (ha : Admitted ms) :
    ∃ b, ofJson (.obj ms) = .ok b := by
  have hothers : ∀ m ∈ ms, m.1 ∉ benchmark.map name → Readable field? m := by
    intro m hm hkey
    rw [Readable, benchmark_field?_eq_none hkey]
    exact h.sound m hm
  obtain ⟨r, hr⟩ := tabled.exists_fill h.distinct hfits.fields hothers .empty
  have hrest : Parameters.Fits .null (others field? ms) :=
    hfits.parameters.congr fun key hkey => (lookup_others_of_admits ms hkey).symm
  have hadmitted : Parameters.Admitted (others field? ms) := by
    refine ⟨fun m hm => ?_, ?_⟩
    · obtain ⟨hms, hnone⟩ := mem_others.1 hm
      exact (ha.1 m hms).resolve_left (tabled.not_mem hnone)
    · rw [workerEntries_others]
      exact ha.2
  obtain ⟨p, hp⟩ := Parameters.exists_ofMembers (Json.wellFormed_others h) hrest hadmitted
  exact ⟨_, (ofJson_eq_ok h.distinct).2 ⟨r, _, p, hr, hp, rfl⟩⟩

theorem told_of_ofJson (hn : (ms.map Prod.fst).Nodup) (hfits : Fits ms)
    (h : ofJson (.obj ms) = .ok b) : Admitted ms ∧ Reads ms b := by
  obtain ⟨r, os, p, hfill, hp, rfl⟩ := (ofJson_eq_ok hn).1 h
  obtain rfl := others_of_fill hfill
  have hrest : Parameters.Fits .null (others field? ms) :=
    hfits.parameters.congr fun key hkey => (lookup_others_of_admits ms hkey).symm
  obtain ⟨hkeys, hentries⟩ := Parameters.admitted_of_ofMembers (nodup_others hn) hrest hp
  rw [workerEntries_others] at hentries
  refine ⟨⟨fun m hm => ?_, hentries⟩, fun F hF => ?_, ?_⟩
  · by_cases hkey : m.1 ∈ benchmark.map name
    · exact .inl hkey
    · exact .inr (hkeys m (mem_others.2 ⟨hm, benchmark_field?_eq_none hkey⟩))
  · have hempty : ∀ F ∈ benchmark, F.get .empty = none := by simp [benchmark, empty]
    have hread := tabled.reads_of_fill hF hn (hempty F hF) hfill
    rwa [JsonField.Reads, get_parameters hF]
  · exact (Parameters.reads_of_ofMembers (nodup_others hn) hrest hp).congr fun key hkey =>
      lookup_others_of_admits ms hkey

theorem members_benchmark (b : BenchmarkParameters) :
    b.members = JsonField.members benchmark b ++ b.parameters.members := by
  simp [members, JsonField.members, benchmark, FieldKind.write]

theorem proper_fields (h : b.Proper ok) : ∀ F ∈ benchmark, ∀ v ∈ F.get b, F.kind.Proper ok v := by
  refine List.forall_mem_cons.2 ⟨h.nbParallelRuns, List.forall_mem_cons.2 ⟨h.nbSeeds, ?_⟩⟩
  -- The other fields hold texts.
  repeat refine List.forall_mem_cons.2 ⟨fun _ _ => trivial, ?_⟩
  exact nofun

theorem not_mem_parameters (h : b.Proper ok) (hkey : key ∈ benchmark.map name) :
    key ∉ b.parameters.members.map Prod.fst := by
  intro hmem
  obtain ⟨m, hm, rfl⟩ := List.mem_map.1 hmem
  have hnone := field?_of_admits (Parameters.admits_members h.parameters m hm)
  exact tabled.not_mem hnone hkey

/-- Parameters of benchmarks are read back from their members in any order. -/
theorem read_written (h : b.Proper ok) (hf : Json.Arranges ok f)
    (hcanonical : ∀ j, j.canonical = j → f j = j) : ofJson (f b.toJson) = .ok b := by
  have hnodup : (b.members.map Prod.fst).Nodup := by
    have hnames : (benchmark.map name).Nodup := by decide
    rw [members_benchmark, List.map_append]
    refine (hnames.sublist (keys_members benchmark b)).append
      (Parameters.nodup_members h.parameters) fun key hkey => ?_
    exact not_mem_parameters h ((keys_members benchmark b).subset hkey)
  obtain ⟨ms, hms, hre⟩ := Json.exists_rearranged hf hnodup
  have hparameters : ∀ key, Parameters.Admits key →
      ms.lookup key = (b.parameters.members.lookup key).map f := by
    intro key hkey
    have hnot := tabled.not_mem (field?_of_admits hkey)
    rw [hre.lookup, members_benchmark, lookup_inner hnot]
  obtain ⟨hfits, hentries, hreads⟩ :=
    Parameters.reads_written .null h.parameters hf hcanonical hparameters
  have hfield : ∀ F ∈ benchmark, F.Reads .null ms b ∧ F.Fits .null ms := by
    intro F hF
    apply JsonField.reads_written hf (proper_fields h F hF)
    rw [hre.lookup, members_benchmark,
      lookup_written benchmark_apart hF b (not_mem_parameters h (List.mem_map_of_mem hF))]
  have hkeys : ∀ m ∈ b.members, Admits m.1 := by
    rw [members_benchmark]
    intro m hm
    obtain hm | hm := List.mem_append.1 hm
    · exact .inl ((keys_members benchmark b).subset (List.mem_map_of_mem hm))
    · exact .inr (Parameters.admits_members h.parameters m hm)
  have hsound : ∀ m ∈ b.members, m.2.isSound := by
    rw [members_benchmark]
    intro m hm
    obtain hm | hm := List.mem_append.1 hm
    · exact (JsonField.plain_members (proper_fields h) m hm).isSound
    · exact Parameters.sound_members h.parameters m hm
  have hall : Fits ms := ⟨fun F hF => (hfield F hF).2, hfits⟩
  obtain ⟨c, hc⟩ := exists_ofJson (hre.wellFormed hf hsound) hall ⟨hre.forall_keys hkeys, hentries⟩
  have hb : Reads ms b := ⟨fun F hF => (hfield F hF).1, hreads⟩
  obtain rfl := hb.unique (told_of_ofJson hre.distinct hall hc).2
  rw [toJson, hms]
  exact hc

end BenchmarkParameters

namespace Parameters

open JsonField

/-- Parameters are read back from what was written for them, with the members as they were written or
sorted by key. An object with values of the right kinds holds parameters exactly if every key, on its
level, is that of a field or has an underscore in front, and then the parameters are what the members
say; what has an underscore in front is kept on the level where it was written. Records of workers
admit no field of solves and benchmarks, and parameters of solves no field of benchmarks. -/
theorem read_iff_admitted (unit : UnitForm) :
    (∀ p : Parameters, p.Proper (fun x => x.isFinite = true) →
      ofJson unit p.toJson = .ok p ∧ ofJson unit p.toJson.canonical = .ok p) ∧
    (∀ b : BenchmarkParameters, b.Proper (fun x => x.isFinite = true) →
      BenchmarkParameters.ofJson b.toJson = .ok b ∧
        BenchmarkParameters.ofJson b.toJson.canonical = .ok b) ∧
    (∀ ms, Json.WellFormed ms → Fits unit ms →
      ((∃ p, ofJson unit (.obj ms) = .ok p) ↔ Admitted ms) ∧
        ∀ p, ofJson unit (.obj ms) = .ok p → Reads unit ms p) ∧
    (∀ ms, Json.WellFormed ms → BenchmarkParameters.Fits ms →
      ((∃ b, BenchmarkParameters.ofJson (.obj ms) = .ok b) ↔ BenchmarkParameters.Admitted ms) ∧
        ∀ b, BenchmarkParameters.ofJson (.obj ms) = .ok b → BenchmarkParameters.Reads ms b) ∧
    (∀ F ∈ solve, ¬ WorkerParameters.Admits F.name) ∧ ¬ WorkerParameters.Admits "workers" ∧
    ∀ F ∈ benchmark, ¬ Admits F.name ∧ ¬ WorkerParameters.Admits F.name := by
  refine ⟨fun p hp => ?_, fun b hb => ?_, fun ms hms hfits => ?_, fun ms hms hfits => ?_, ?_,
    not_admits_workers, fun F hF => ?_⟩
  · have hid : ofJson unit (id p.toJson) = .ok p :=
      read_written (f := id) hp (Json.arranges_id _) fun _ _ => rfl
    exact ⟨hid, read_written hp Json.arranges_canonical fun _ h => h⟩
  · have hid : BenchmarkParameters.ofJson (id b.toJson) = .ok b :=
      BenchmarkParameters.read_written (f := id) hb (Json.arranges_id _) fun _ _ => rfl
    exact ⟨hid, BenchmarkParameters.read_written hb Json.arranges_canonical fun _ h => h⟩
  · refine ⟨⟨?_, exists_ofMembers hms hfits⟩, fun p hp => reads_of_ofMembers hms.distinct hfits hp⟩
    rintro ⟨p, hp⟩
    exact admitted_of_ofMembers hms.distinct hfits hp
  · refine ⟨⟨?_, BenchmarkParameters.exists_ofJson hms hfits⟩, fun b hb =>
      (BenchmarkParameters.told_of_ofJson hms.distinct hfits hb).2⟩
    rintro ⟨b, hb⟩
    exact (BenchmarkParameters.told_of_ofJson hms.distinct hfits hb).1
  · intro F hF h
    exact nomatch (solve_row .null F hF).symm.trans (field?_of_admits .null h)
  · have hnot : ¬ Admits F.name := fun h =>
      nomatch (benchmark_row F hF).symm.trans (BenchmarkParameters.field?_of_admits h)
    exact ⟨hnot, fun h => hnot (.inr (.inr h))⟩

/-- An object with a tunable for all workers, and one for the first worker. -/
def tunedMembers : List (String × Json) :=
  [("_tabu", .int 3), ("nbWorkers", .int 2),
    ("workers", .arr [.obj [("_log", .bool true), ("randomSeed", .int 1)]])]

/-- An object in which the number of workers stands in the record of one of them. -/
def misplacedMembers : List (String × Json) := [("workers", .arr [.obj [("nbWorkers", .int 2)]])]

theorem read_iff_admitted_tuned :
    (∃ p, ofJson .null (.obj tunedMembers) = .ok p ∧ p.nbWorkers = some 2 ∧
      p.search.internal.get? "_tabu" = some (.int 3) ∧ p.search.internal.get? "_log" = none) ∧
    ¬ ∃ p, ofJson .null (.obj misplacedMembers) = .ok p := by
  obtain ⟨-, -, hread, -⟩ := read_iff_admitted .null
  have htuned : Fits .null tunedMembers :=
    ⟨fits_of_isSome (by decide), fits_of_isSome (by decide), fun _ hj => (Option.some.inj hj).symm,
      List.forall_mem_singleton.2 ⟨⟨by decide, by decide⟩, fits_of_isSome (by decide)⟩⟩
  have hmisplaced : Fits .null misplacedMembers :=
    ⟨fits_of_isSome (by decide), fits_of_isSome (by decide), fun _ hj => (Option.some.inj hj).symm,
      List.forall_mem_singleton.2 ⟨⟨by decide, by decide⟩, fits_of_isSome (by decide)⟩⟩
  constructor
  · obtain ⟨hiff, hreads⟩ := hread tunedMembers ⟨by decide, by decide⟩ htuned
    obtain ⟨p, hp⟩ := hiff.2 (by decide)
    have hsays := hreads p hp
    have hworkers : solve[3].Reads .null tunedMembers p := hsays.fields _ (List.getElem_mem _)
    exact ⟨p, hp, (Option.some.inj hworkers).symm, hsays.search.internal "_tabu",
      hsays.search.internal "_log"⟩
  · rw [(hread misplacedMembers ⟨by decide, by decide⟩ hmisplaced).1]
    decide

end Parameters

end Scheduling
