import Scheduling.Proofs.Json.Shape
import Scheduling.Proofs.SortedMap

/-!
# Order of members

The fields of a record are read from an object whatever the order of its members. A function that
keeps a value apart from this order arranges it (`Json.Arranges`); one that does nothing does, and
so does sorting the members of every object by key (`arranges_canonical`).
-/

namespace Scheduling

variable {ok : Float → Prop} {f : Json → Json} {members : List (String × Json)} {j : Json}
  {known needed : List String} {key : String}

namespace Json

/-- The value is an object with the members in some order, and what they hold changed by `f`. -/
def Arranged (f : Json → Json) (members : List (String × Json)) (j : Json) : Prop :=
  ∃ members', j = .obj members' ∧ (members'.map Prod.fst).Nodup ∧
    ∀ key, members'.lookup key = (members.lookup key).map f

/-- The function keeps a value as it is, apart from the order of members. -/
structure Arranges (ok : Float → Prop) (f : Json → Json) : Prop where
  null : f .null = .null
  bool : ∀ b, f (.bool b) = .bool b
  int : ∀ v, f (.int v) = .int v
  str : ∀ s, f (.str s) = .str s
  float : ∀ x, ok x → f (.float x) = .float x
  arr : ∀ items, f (.arr items) = .arr (items.map f)
  obj : ∀ members, (members.map Prod.fst).Nodup → Arranged f members (f (.obj members))
  sound : ∀ j, j.isSound → (f j).isSound

theorem arranges_id (ok : Float → Prop) : Arranges ok id := by
  refine ⟨rfl, fun _ => rfl, fun _ => rfl, fun _ => rfl, fun _ _ => rfl, fun items => ?_,
    fun members hn => ⟨members, rfl, hn, fun key => ?_⟩, fun _ h => h⟩
  · rw [List.map_id]
    rfl
  · rw [Option.map_id]
    rfl

/-! ### Sorted members -/

theorem putMember_eq_put (key : String) (j : Json) (members : List (String × Json)) :
    putMember key j members = SortedMap.put key j members := by
  induction members with
  | nil => rfl
  | cons m rest ih =>
    obtain ⟨k, v⟩ := m
    rw [putMember, SortedMap.put, ih]
    simp only [compare, String.compare, compareOfLessAndEq]
    by_cases hlt : key < k
    · simp only [if_pos hlt]
    · by_cases heq : key = k
      · simp only [if_neg hlt, if_pos heq]
      · simp only [if_neg hlt, if_neg heq]

theorem lookup_eq_get? (members : List (String × Json)) (key : String) :
    members.lookup key = (⟨members⟩ : SortedMap String Json).get? key := by
  induction members with
  | nil => rfl
  | cons m rest ih =>
    obtain ⟨k, v⟩ := m
    rw [SortedMap.get?_cons, ← ih]
    by_cases h : key = k
    · simp [h]
    · simp [List.lookup_cons, beq_eq_false_iff_ne.2 h, h]

theorem canonicalItems_eq_map (items : List Json) : canonicalItems items = items.map canonical := by
  induction items with
  | nil => rfl
  | cons j rest ih => rw [canonicalItems, ih, List.map_cons]

theorem canonicalMembers_eq_map (members : List (String × Json)) :
    canonicalMembers members = members.map fun m => (m.1, canonical m.2) := by
  induction members with
  | nil => rfl
  | cons m rest ih => rw [canonicalMembers, ih, List.map_cons]

/-- The members with sorted keys. -/
def sortedMembers (members : List (String × Json)) : List (String × Json) :=
  members.foldl (fun ms m => putMember m.1 m.2 ms) []

theorem sortedMembers_eq (members : List (String × Json)) :
    (⟨sortedMembers members⟩ : SortedMap String Json) =
      members.foldl (fun m e => m.insert e.1 e.2) .empty := by
  have hfold (acc : List (String × Json)) :
      (⟨members.foldl (fun ms m => putMember m.1 m.2 ms) acc⟩ : SortedMap String Json) =
        members.foldl (fun m e => m.insert e.1 e.2) ⟨acc⟩ := by
    induction members generalizing acc with
    | nil => rfl
    | cons m rest ih =>
      rw [List.foldl_cons, List.foldl_cons, ih, putMember_eq_put]
      rfl
  exact hfold []

theorem lookup_sortedMembers (hn : (members.map Prod.fst).Nodup) (key : String) :
    (sortedMembers members).lookup key = members.lookup key := by
  rw [lookup_eq_get?, sortedMembers_eq, SortedMap.get?_foldl_insert hn, SortedMap.get?_empty,
    Option.or_none, ← lookup_eq_get?]

theorem ascending_sortedMembers (members : List (String × Json)) :
    (⟨sortedMembers members⟩ : SortedMap String Json).Ascending := by
  rw [sortedMembers_eq]
  exact SortedMap.ascending_empty.insert_all members

theorem nodup_sortedMembers (members : List (String × Json)) :
    ((sortedMembers members).map Prod.fst).Nodup := (ascending_sortedMembers members).nodup

theorem mem_of_mem_sortedMembers {m : String × Json} (hm : m ∈ sortedMembers members) :
    m ∈ members := by
  have hfold (l acc : List (String × Json))
      (h : m ∈ l.foldl (fun ms m => putMember m.1 m.2 ms) acc) : m ∈ l ∨ m ∈ acc := by
    induction l generalizing acc with
    | nil => exact .inr h
    | cons e rest ih =>
      obtain h | h := ih _ h
      · exact .inl (List.mem_cons_of_mem _ h)
      · replace h : m ∈ putMember e.1 e.2 acc := h
        rw [putMember_eq_put] at h
        obtain rfl | h := SortedMap.mem_put h
        · exact .inl List.mem_cons_self
        · exact .inr h
  exact (hfold members [] hm).resolve_right List.not_mem_nil

theorem soundMembers_iff : soundMembers members ↔ ∀ m ∈ members, m.2.isSound := by
  induction members with
  | nil => simp [soundMembers]
  | cons m rest ih => rw [soundMembers, Bool.and_eq_true, ih, List.forall_mem_cons]

mutual

theorem isSound_canonical (j : Json) (h : j.isSound) : j.canonical.isSound := by
  match j with
  | .arr items => exact soundItems_canonical items h
  | .obj members =>
    refine soundMembers_iff.2 fun m hm => ?_
    exact soundMembers_iff.1 (soundMembers_canonical members h) m (mem_of_mem_sortedMembers hm)
  | .float x =>
    rw [canonical]
    split <;> rfl
  | .null | .bool _ | .int _ | .str _ => rfl
  | .flaw _ => exact h

theorem soundItems_canonical (items : List Json) (h : soundItems items) :
    soundItems (canonicalItems items) := by
  match items with
  | [] => rfl
  | j :: rest =>
    obtain ⟨hj, hrest⟩ := Bool.and_eq_true_iff.1 h
    exact Bool.and_eq_true_iff.2 ⟨isSound_canonical j hj, soundItems_canonical rest hrest⟩

theorem soundMembers_canonical (members : List (String × Json)) (h : soundMembers members) :
    soundMembers (canonicalMembers members) := by
  match members with
  | [] => rfl
  | (_, j) :: rest =>
    obtain ⟨hj, hrest⟩ := Bool.and_eq_true_iff.1 h
    exact Bool.and_eq_true_iff.2 ⟨isSound_canonical j hj, soundMembers_canonical rest hrest⟩

end

/-- Sorting the members of every object by key keeps a value of finite floats. -/
theorem arranges_canonical : Arranges (fun x => x.isFinite = true) canonical where
  null := rfl
  bool _ := rfl
  int _ := rfl
  str _ := rfl
  float x hx := by rw [canonical, if_pos hx]
  arr items := by rw [canonical, canonicalItems_eq_map]
  obj members hn := by
    rw [canonical, canonicalMembers_eq_map]
    refine ⟨sortedMembers (members.map fun m => (m.1, canonical m.2)), rfl,
      nodup_sortedMembers _, fun key => ?_⟩
    rw [lookup_sortedMembers (by rw [List.map_map]; exact hn), lookup_mapped]
  sound := isSound_canonical

/-! ### Fields -/

theorem map_fixed {α : Type} {write : α → Json} (h : ∀ a, f (write a) = write a) (o : Option α) :
    (o.map write).map f = o.map write := by
  cases o with
  | none => rfl
  | some a => exact congrArg some (h a)

theorem lookup_fixed (h : ∀ m ∈ members, f m.2 = m.2) (key : String) :
    (members.lookup key).map f = members.lookup key := by
  have hmap : (members.map fun m => (m.1, f m.2)) = members.map id :=
    List.map_congr_left fun m hm => Prod.ext rfl (h m hm)
  rw [← lookup_mapped, hmap, List.map_id]

theorem lookup_filter {p : String → Bool} (h : p key) :
    (members.filter fun m => p m.1).lookup key = members.lookup key := by
  induction members with
  | nil => rfl
  | cons m rest ih =>
    obtain ⟨k, v⟩ := m
    by_cases hk : p k
    · rw [List.filter_cons_of_pos (by exact hk), List.lookup_cons, List.lookup_cons, ih]
    · have hne : (key == k) = false := beq_eq_false_iff_ne.2 fun he => hk (he ▸ h)
      rw [List.filter_cons_of_neg (by exact hk), ih, List.lookup_cons, hne]

/-- The known members of an arranged object have the values that were written. -/
theorem Arranged.knownMembers? {members' : List (String × Json)}
    (hn : (members'.map Prod.fst).Nodup)
    (hl : ∀ key, members'.lookup key = (members.lookup key).map f) (known : List String) :
    ∃ fs, Json.knownMembers? known members' = some fs ∧
      ∀ key ∈ known, fs.lookup key = (members.lookup key).map f := by
  refine ⟨members'.filter fun m => known.contains m.1, ?_, fun key hk => ?_⟩
  · rw [Json.knownMembers?, if_pos]
    exact hn.sublist (List.filter_sublist.map _)
  · rw [lookup_filter (p := known.contains) (List.contains_iff_mem.2 hk), hl]

theorem Arranged.fields? (h : Arranged f members j) (known needed : List String) :
    ∃ fs, j.fields? known needed = some fs ∧
      ∀ key ∈ known, fs.lookup key = (members.lookup key).map f := by
  obtain ⟨members', rfl, hn, hl⟩ := h
  exact Arranged.knownMembers? hn hl known

/-- The member with a key stands alone among those with the key. -/
theorem filter_key (hn : (members.map Prod.fst).Nodup) (hl : members.lookup key = some j) :
    members.filter (fun m => m.1 == key) = [(key, j)] := by
  induction members with
  | nil => exact nomatch hl
  | cons m rest ih =>
    obtain ⟨k, v⟩ := m
    obtain ⟨hk, hrest⟩ := List.nodup_cons.1 hn
    rw [List.lookup_cons] at hl
    by_cases h : key = k
    · subst h
      rw [beq_self_eq_true] at hl
      obtain rfl : v = j := Option.some.inj hl
      rw [List.filter_cons_of_pos (by simp), List.filter_eq_nil_iff.2]
      intro m hm he
      exact hk (List.mem_map.2 ⟨m, hm, beq_iff_eq.1 he⟩)
    · rw [beq_eq_false_iff_ne.2 h] at hl
      rw [List.filter_cons_of_neg (by simpa using Ne.symm h), ih hrest hl]

/-- The tag is found wherever it stands. -/
theorem Arranged.tagged? {tag name : String} (h : Arranged f ((tag, .str name) :: members) j)
    (hf : Arranges ok f) (hs : j.isSound) (htag : members.lookup tag = none) :
    ∃ j', j.tagged? tag = some (name, j') ∧ Arranged f members j' := by
  obtain ⟨members', rfl, hn, hl⟩ := h
  have hname : members'.lookup tag = some (.str name) := by
    rw [hl, List.lookup_cons_self, Option.map_some, hf.str]
  refine ⟨.obj (members'.filter fun m => m.1 != tag), ?_, _, rfl, ?_, fun key => ?_⟩
  · simp only [Json.tagged?, hs, filter_key hn hname, Bool.not_true, Bool.false_eq_true, if_false]
  · exact hn.sublist (List.filter_sublist.map _)
  · by_cases hk : key = tag
    · subst hk
      rw [htag, Option.map_none, List.lookup_eq_none_iff]
      intro m hm
      have hne : m.1 ≠ key := bne_iff_ne.1 (List.mem_filter.1 hm).2
      exact bne_iff_ne.2 hne.symm
    · rw [lookup_filter (p := (· != tag)) (by simpa using hk), hl, List.lookup_cons,
        beq_eq_false_iff_ne.2 hk]

end Json

end Scheduling
