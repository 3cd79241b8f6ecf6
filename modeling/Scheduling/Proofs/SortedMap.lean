import Mathlib.Data.List.Nodup
import Scheduling.SortedMap

/-!
# Lookups in sorted maps

Insertion sets the value of one key (`get?_insert`) and keeps the keys in ascending order
(`Ascending.insert`). A map is what its entries build in their order (`Ascending.foldl_insert`), and
it is determined by its lookups (`Ascending.ext`). So overlays can be told from the lookups in them
(`get?_overlay`): they are associative, and the empty map changes nothing (`overlay_assoc`,
`empty_overlay`).
-/

namespace Scheduling

namespace SortedMap

open Std

variable {κ α : Type} [Ord κ] {m m' : SortedMap κ α} {k k' : κ} {v : α}
  {l : List (κ × α)}

/-- The keys ascend. -/
def Ascending (m : SortedMap κ α) : Prop := m.entries.Pairwise fun a b => compare a.1 b.1 = .lt

theorem ascending_empty : (empty : SortedMap κ α).Ascending := .nil

theorem get?_empty (k : κ) : (empty : SortedMap κ α).get? k = none := rfl

theorem mem_put {e : κ × α} (he : e ∈ put k v l) : e = (k, v) ∨ e ∈ l := by
  induction l with
  | nil => exact .inl (List.mem_singleton.1 he)
  | cons e₁ l ih =>
    obtain ⟨k₁, v₁⟩ := e₁
    rw [put] at he
    cases hcmp : compare k k₁ <;> simp only [hcmp] at he
    · exact (List.mem_cons.1 he)
    · exact (List.mem_cons.1 he).imp_right (List.mem_cons_of_mem _)
    · obtain rfl | he := List.mem_cons.1 he
      · exact .inr List.mem_cons_self
      · exact (ih he).imp_right (List.mem_cons_of_mem _)

/-! ### Building from entries -/

theorem put_append {l' : List (κ × α)} [OrientedOrd κ] (h : ∀ e ∈ l, compare e.1 k = .lt) :
    put k v (l ++ l') = l ++ put k v l' := by
  induction l with
  | nil => rfl
  | cons e l ih =>
    obtain ⟨he, hl⟩ := List.forall_mem_cons.1 h
    rw [List.cons_append, put, OrientedCmp.gt_of_lt he]
    show e :: put k v (l ++ l') = _
    rw [ih hl, List.cons_append]

/-- A map is built by inserting its entries in their order. -/
theorem Ascending.foldl_insert [OrientedOrd κ] (h : m.Ascending) :
    m.entries.foldl (fun m e => m.insert e.1 e.2) (empty : SortedMap κ α) = m := by
  obtain ⟨l⟩ := m
  have hbuild : ∀ (l l' : List (κ × α)), (l' ++ l).Pairwise (fun a b => compare a.1 b.1 = .lt) →
      l.foldl (fun m e => m.insert e.1 e.2) (⟨l'⟩ : SortedMap κ α) = ⟨l' ++ l⟩ := by
    intro l
    induction l with
    | nil => intro l' _; simp
    | cons e l ih =>
      intro l' hl
      have hlt : ∀ e' ∈ l', compare e'.1 e.1 = .lt := fun e' he' =>
        (List.pairwise_append.1 hl).2.2 e' he' e List.mem_cons_self
      have hput : put e.1 e.2 l' = l' ++ [e] := by
        have happend : put e.1 e.2 (l' ++ []) = l' ++ put e.1 e.2 [] := put_append hlt
        rwa [List.append_nil] at happend
      rw [List.foldl_cons, SortedMap.insert, hput, ih (l' ++ [e]) (by simpa using hl)]
      simp
  exact hbuild l [] h

theorem empty_overlay [OrientedOrd κ] (h : m.Ascending) : (empty : SortedMap κ α).overlay m = m :=
  h.foldl_insert

variable [LawfulEqOrd κ]

theorem ne_of_lt {a b : κ} (h : compare a b = .lt) : a ≠ b := by
  rintro rfl
  simp [ReflCmp.compare_self] at h

theorem Ascending.nodup (h : m.Ascending) : (m.entries.map Prod.fst).Nodup :=
  List.pairwise_map.2 (h.imp ne_of_lt)

/-! ### Insertion -/

section Lookup

variable [DecidableEq κ]

theorem get?_cons (e : κ × α) (l : List (κ × α)) (k : κ) :
    (⟨e :: l⟩ : SortedMap κ α).get? k = if k = e.1 then some e.2 else (⟨l⟩ : SortedMap κ α).get? k := by
  rw [get?, List.find?_cons]
  by_cases h : k = e.1
  · subst h
    simp [ReflCmp.compare_self]
  · have hne : (compare k e.1 == .eq) = false := by
      simpa using fun he => h (LawfulEqOrd.eq_of_compare he)
    rw [hne, if_neg h]
    rfl

theorem get?_put (k k' : κ) (v : α) (l : List (κ × α)) :
    (⟨put k v l⟩ : SortedMap κ α).get? k' =
      if k' = k then some v else (⟨l⟩ : SortedMap κ α).get? k' := by
  induction l with
  | nil => rw [put, get?_cons]
  | cons e l ih =>
    obtain ⟨k₁, v₁⟩ := e
    rw [put]
    cases hcmp : compare k k₁ with
    | lt => rw [get?_cons]
    | eq =>
      obtain rfl := LawfulEqOrd.eq_of_compare hcmp
      simp only [get?_cons]
      split <;> rfl
    | gt =>
      have hne : k ≠ k₁ := by
        rintro rfl
        simp [ReflCmp.compare_self] at hcmp
      simp only [get?_cons, ih]
      by_cases h : k' = k₁
      · subst h
        simp [Ne.symm hne]
      · simp [h]

theorem get?_insert (m : SortedMap κ α) (k k' : κ) (v : α) :
    (m.insert k v).get? k' = if k' = k then some v else m.get? k' := get?_put k k' v m.entries

theorem get?_eq_none (h : ∀ e ∈ l, e.1 ≠ k) : (⟨l⟩ : SortedMap κ α).get? k = none := by
  induction l with
  | nil => rfl
  | cons e l ih =>
    obtain ⟨he, hl⟩ := List.forall_mem_cons.1 h
    rw [get?_cons, if_neg (Ne.symm he), ih hl]

theorem get?_mapped {β : Type} (g : α → β) (l : List (κ × α)) (k : κ) :
    (⟨l.map fun e => (e.1, g e.2)⟩ : SortedMap κ β).get? k = ((⟨l⟩ : SortedMap κ α).get? k).map g := by
  induction l with
  | nil => rfl
  | cons e rest ih =>
    rw [List.map_cons, get?_cons, get?_cons, ih]
    split <;> rfl

theorem mem_of_get? (h : (⟨l⟩ : SortedMap κ α).get? k = some v) : (k, v) ∈ l := by
  induction l with
  | nil => exact nomatch h
  | cons e rest ih =>
    rw [get?_cons] at h
    split at h
    · rename_i hk
      rw [hk, ← Option.some.inj h]
      exact List.mem_cons_self
    · exact List.mem_cons_of_mem _ (ih h)

theorem get?_of_mem (hn : (l.map Prod.fst).Nodup) {e : κ × α} (he : e ∈ l) :
    (⟨l⟩ : SortedMap κ α).get? e.1 = some e.2 := by
  induction l with
  | nil => exact (List.not_mem_nil he).elim
  | cons e' rest ih =>
    obtain ⟨hfresh, hrest⟩ := List.nodup_cons.1 hn
    rw [get?_cons]
    obtain rfl | he := List.mem_cons.1 he
    · rw [if_pos rfl]
    · have hne : e.1 ≠ e'.1 := by
        intro heq
        exact hfresh (heq ▸ List.mem_map_of_mem he)
      rw [if_neg hne, ih hrest he]

/-- After some insertions with different keys, a key has the value inserted for it, and else the
value it had. -/
theorem get?_foldl_insert (hn : (l.map Prod.fst).Nodup) (m : SortedMap κ α) (k : κ) :
    (l.foldl (fun m e => m.insert e.1 e.2) m).get? k =
      ((⟨l⟩ : SortedMap κ α).get? k).or (m.get? k) := by
  induction l generalizing m with
  | nil => rfl
  | cons e rest ih =>
    obtain ⟨hfresh, hrest⟩ := List.nodup_cons.1 hn
    rw [List.foldl_cons, ih hrest, get?_insert, get?_cons]
    by_cases h : k = e.1
    · have hnone : (⟨rest⟩ : SortedMap κ α).get? k = none := by
        apply get?_eq_none
        intro e' he' heq
        exact hfresh (h ▸ heq ▸ List.mem_map_of_mem he')
      simp [h, h ▸ hnone]
    · simp [h]

theorem get?_overlay (h : m'.Ascending) (k : κ) :
    (m.overlay m').get? k = (m'.get? k).or (m.get? k) := get?_foldl_insert h.nodup m k

end Lookup

/-! ### Ascending keys -/

theorem Ascending.insert [TransOrd κ] (h : m.Ascending) (k : κ) (v : α) : (m.insert k v).Ascending := by
  obtain ⟨l⟩ := m
  show (put k v l).Pairwise _
  replace h : l.Pairwise _ := h
  induction l with
  | nil => exact List.pairwise_singleton _ _
  | cons e l ih =>
    obtain ⟨k₁, v₁⟩ := e
    obtain ⟨hlt, hl⟩ := List.pairwise_cons.1 h
    rw [put]
    cases hcmp : compare k k₁ with
    | lt =>
      refine List.pairwise_cons.2 ⟨fun e he => ?_, h⟩
      obtain rfl | he := List.mem_cons.1 he
      · exact hcmp
      · exact TransCmp.lt_trans hcmp (hlt e he)
    | eq =>
      obtain rfl := LawfulEqOrd.eq_of_compare hcmp
      exact List.pairwise_cons.2 ⟨hlt, hl⟩
    | gt =>
      refine List.pairwise_cons.2 ⟨fun e he => ?_, ih hl⟩
      obtain rfl | he := mem_put he
      · exact OrientedCmp.lt_of_gt hcmp
      · exact hlt e he

variable [TransOrd κ]

theorem Ascending.insert_all (h : m.Ascending) (l : List (κ × α)) :
    (l.foldl (fun m e => m.insert e.1 e.2) m).Ascending := by
  induction l generalizing m with
  | nil => exact h
  | cons e rest ih => exact ih (h.insert e.1 e.2)

theorem Ascending.overlay (h : m.Ascending) (m' : SortedMap κ α) : (m.overlay m').Ascending :=
  h.insert_all m'.entries

variable [DecidableEq κ]

/-- Maps with the same lookups have the same entries, and in the same order. -/
theorem Ascending.ext (h : m.Ascending) (h' : m'.Ascending) (hget : ∀ k, m.get? k = m'.get? k) :
    m = m' := by
  obtain ⟨l⟩ := m
  obtain ⟨l'⟩ := m'
  have hmem (e : κ × α) : e ∈ l ↔ e ∈ l' := by
    constructor
    · intro he
      exact mem_of_get? ((hget e.1).symm.trans (get?_of_mem h.nodup he))
    · intro he
      exact mem_of_get? ((hget e.1).trans (get?_of_mem h'.nodup he))
  have hperm : l.Perm l' :=
    (List.perm_ext_iff_of_nodup (List.Nodup.of_map _ h.nodup) (List.Nodup.of_map _ h'.nodup)).2 hmem
  have hanti : ∀ a b : κ × α, a ∈ l → b ∈ l' → compare a.1 b.1 = .lt → compare b.1 a.1 = .lt →
      a = b := by
    intro a b _ _ hab hba
    rw [OrientedCmp.gt_of_lt hab] at hba
    exact nomatch hba
  rw [hperm.eq_of_pairwise hanti h h']

theorem overlay_assoc {m'' : SortedMap κ α} (h : m.Ascending) (h' : m'.Ascending)
    (h'' : m''.Ascending) : (m.overlay m').overlay m'' = m.overlay (m'.overlay m'') := by
  apply ((h.overlay m').overlay m'').ext (h.overlay _)
  intro k
  rw [get?_overlay h'', get?_overlay h', get?_overlay (h'.overlay m''), get?_overlay h'',
    Option.or_assoc]

end SortedMap

end Scheduling
