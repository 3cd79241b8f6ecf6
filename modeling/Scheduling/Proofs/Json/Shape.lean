import Mathlib.Data.List.Basic
import Scheduling.Json.Shape
import Scheduling.Proofs.Json.Nesting

/-!
# Reading the fields of a record

A record that is written as an object has some of its known keys, each once and in their order. Such
an object gives back its members as they are, and each field is read from the one member that was
written for it.
-/

namespace Scheduling

variable {α : Type} {known : List String} {members : List (String × Json)} {fs : JsonFields}
  {key : String} {value : Json → Option α} {write : α → Json} {a : α} {o : Option α} {j : Json}
  {ok : Float → Prop}

namespace Json

/-! ### Members -/

theorem knownMembers?_eq (hk : (members.map Prod.fst).Sublist known) (hn : known.Nodup) :
    knownMembers? known members = some members := by
  have hfilter : members.filter (fun m => known.contains m.1) = members := by
    rw [List.filter_eq_self]
    intro m hm
    exact List.contains_iff_mem.2 (hk.subset (List.mem_map_of_mem hm))
  rw [knownMembers?, hfilter]
  exact if_pos (hk.nodup hn)

theorem keys_member? (key : String) (o : Option α) (write : α → Json) :
    ((member? key o write).map Prod.fst).Sublist [key] := by
  cases o with
  | none => exact List.nil_sublist _
  | some a => exact List.Sublist.refl _

theorem lookup_member? (k key : String) (o : Option α) (write : α → Json) :
    (member? key o write).lookup k = if k = key then o.map write else none := by
  cases o with
  | none => simp [member?]
  | some a =>
    by_cases hk : k = key
    · simp [member?, hk]
    · have hne : (k == key) = false := beq_eq_false_iff_ne.2 hk
      simp [member?, List.lookup_cons, hk, hne]

/-- The lookup in members whose values were changed. -/
theorem lookup_mapped (f : Json → Json) (key : String) :
    (members.map fun m => (m.1, f m.2)).lookup key = (members.lookup key).map f := by
  induction members with
  | nil => rfl
  | cons m rest ih =>
    rw [List.map_cons, List.lookup_cons, List.lookup_cons, ih]
    cases key == m.1 <;> rfl

theorem plainMembers_append {members' : List (String × Json)} (h : PlainMembers ok members)
    (h' : PlainMembers ok members') : PlainMembers ok (members ++ members') :=
  plainMembers_iff.2 fun m hm =>
    (List.mem_append.1 hm).elim (plainMembers_iff.1 h m) (plainMembers_iff.1 h' m)

theorem plainMembers_member? (h : ∀ a ∈ o, Plain ok (write a)) :
    PlainMembers ok (member? key o write) := by
  cases o with
  | none => trivial
  | some a => exact ⟨h a rfl, trivial⟩

/-! ### Values -/

theorem int64?_int {v : Int} (h : Fits v) : int64? (.int v) = some v := if_pos h

theorem nat64?_int {n : Nat} (h : (n : Int) ≤ wordMax) : nat64? (.int n) = some n := by
  rw [nat64?, intWithin?, if_pos ⟨Int.natCast_nonneg n, h⟩]
  rfl

theorem nat32?_int {n : Nat} (h : (n : Int) ≤ halfWordMax) : nat32? (.int n) = some n := by
  rw [nat32?, intWithin?, if_pos ⟨Int.natCast_nonneg n, h⟩]
  rfl

theorem list?_map {as : List α} (h : ∀ a ∈ as, value (write a) = some a) :
    list? value (.arr (as.map write)) = some as := by
  show (as.map write).mapM value = some as
  induction as with
  | nil => rfl
  | cons a as ih =>
    obtain ⟨ha, has⟩ := List.forall_mem_cons.1 h
    rw [List.map_cons, List.mapM_cons, ha, ih has]
    rfl

/-- A value that may be null is read back when it was not written as null. -/
theorem nullable?_eq (hw : write a ≠ .null) (hv : value (write a) = some a) :
    (write a).nullable? value = some (some a) := by
  unfold nullable?
  split
  · rename_i he
    exact (hw he).elim
  · rw [hv]
    rfl

theorem isSound_of_string? {s : String} (h : j.string? = some s) : j.isSound := by
  cases j <;> simp_all [string?, isSound]

theorem isSound_of_bool? {b : Bool} (h : j.bool? = some b) : j.isSound := by
  cases j <;> simp_all [bool?, isSound]

theorem isSound_of_float? {x : Float} (h : j.float? = some x) : j.isSound := by
  cases j <;> simp_all [float?, isSound]

theorem isSound_of_intWithin? {least greatest v : Int} (h : j.intWithin? least greatest = some v) :
    j.isSound := by
  cases j <;> simp_all [intWithin?, isSound]

theorem isSound_of_named? {unit : UnitForm} {ofName? : String → Option α}
    (h : j.named? unit ofName? = some a) : j.isSound := by
  obtain ⟨s, hs, -⟩ := Option.bind_eq_some_iff.1 h
  unfold choice? at hs
  split at hs
  · rfl
  · rename_i name j'
    split at hs
    · rename_i haccepts
      have hj' : j'.isSound := by
        unfold UnitForm.accepts at haccepts
        split at haccepts <;> first | rfl | exact nomatch haccepts
      exact Bool.and_eq_true_iff.2 ⟨hj', rfl⟩
    · exact nomatch hs
  · exact nomatch hs

theorem isSound_of_list? {as : List α} (h : list? value j = some as)
    (hv : ∀ j a, value j = some a → j.isSound) : j.isSound := by
  cases j with
  | arr items =>
    replace h : items.mapM value = some as := h
    show soundItems items
    induction items generalizing as with
    | nil => rfl
    | cons j rest ih =>
      simp only [List.mapM_cons, Option.bind_eq_bind, Option.bind_eq_some_iff] at h
      obtain ⟨a, ha, as', has, -⟩ := h
      exact Bool.and_eq_true_iff.2 ⟨hv j a ha, ih has⟩
  | _ => exact nomatch h

theorem isSound_of_nullable? (h : j.nullable? value = some o)
    (hv : ∀ a, value j = some a → j.isSound) : j.isSound := by
  unfold nullable? at h
  split at h
  · rfl
  · obtain ⟨a, ha, -⟩ := Option.map_eq_some_iff.1 h
    exact hv a ha

theorem plain_of_fits {v : Int} (h : Fits v) : Plain ok (.int v) := by
  obtain ⟨hl, hg⟩ := h
  refine ⟨hl, ?_⟩
  simp only [intMax, wordMax] at *
  omega

theorem plain_of_le_wordMax {n : Nat} (h : (n : Int) ≤ wordMax) : Plain ok (.int n) := by
  refine ⟨?_, h⟩
  simp only [intMin]
  omega

theorem plain_of_le_halfWordMax {n : Nat} (h : (n : Int) ≤ halfWordMax) : Plain ok (.int n) := by
  refine plain_of_le_wordMax ?_
  simp only [halfWordMax, wordMax] at *
  omega

theorem plain_list {as : List α} (h : ∀ a ∈ as, Plain ok (write a)) :
    Plain ok (.arr (as.map write)) := by
  refine plainItems_iff.2 fun j hj => ?_
  obtain ⟨a, ha, rfl⟩ := List.mem_map.1 hj
  exact h a ha

end Json

/-! ### Fields -/

namespace JsonFields

theorem required?_eq (hl : fs.lookup key = some j) (hv : value j = some a) :
    fs.required? key value = some a := by
  rw [required?, hl]
  exact hv

theorem optional?_eq (hl : fs.lookup key = o.map write) (hw : ∀ a ∈ o, write a ≠ .null)
    (hv : ∀ a ∈ o, value (write a) = some a) : fs.optional? key value = some o := by
  rw [optional?, hl]
  cases o with
  | none => rfl
  | some a => exact Json.nullable?_eq (hw a rfl) (hv a rfl)

end JsonFields

end Scheduling
