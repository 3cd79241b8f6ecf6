import Mathlib.Data.List.Basic
import Scheduling.Arith
import Scheduling.Json.Reader

/-!
# Nesting of JSON values

How many levels of arrays and objects a value has, and what is left of it when all that lies deeper
than `depthMax` levels is unreadable (`clip`). A value keeps everything exactly when it has no more
than `depthMax` levels; otherwise there is a flaw in what is left.
-/

namespace Scheduling

namespace Json

/-! ### Levels -/

mutual

/-- How many levels of arrays and objects a value has. -/
def nesting : Json → Nat
  | arr items => nestingOfItems items + 1
  | obj members => nestingOfMembers members + 1
  | _ => 0

/-- How many levels the item with the most levels has. -/
def nestingOfItems : List Json → Nat
  | [] => 0
  | j :: rest => max (nesting j) (nestingOfItems rest)

/-- How many levels the member with the most levels has. -/
def nestingOfMembers : List (String × Json) → Nat
  | [] => 0
  | (_, j) :: rest => max (nesting j) (nestingOfMembers rest)

end

mutual

/-- What can be read of a value that stands `depth` levels deep. -/
def clip (depth : Nat) : Json → Json
  | arr items =>
    if depthMax ≤ depth then flaw .unreadable else arr (clipItems (depth + 1) items)
  | obj members =>
    if depthMax ≤ depth then flaw .unreadable else obj (clipMembers (depth + 1) members)
  | j => j

/-- What can be read of items. -/
def clipItems (depth : Nat) : List Json → List Json
  | [] => []
  | j :: rest => clip depth j :: clipItems depth rest

/-- What can be read of members. -/
def clipMembers (depth : Nat) : List (String × Json) → List (String × Json)
  | [] => []
  | (k, j) :: rest => (k, clip depth j) :: clipMembers depth rest

end

theorem clipItems_eq_map (depth : Nat) (items : List Json) :
    clipItems depth items = items.map (clip depth) := by
  induction items with
  | nil => rfl
  | cons j rest ih => rw [clipItems, ih, List.map_cons]

theorem clipMembers_eq_map (depth : Nat) (members : List (String × Json)) :
    clipMembers depth members = members.map fun m => (m.1, clip depth m.2) := by
  induction members with
  | nil => rfl
  | cons m rest ih => rw [clipMembers, ih, List.map_cons]

mutual

theorem clip_eq (j : Json) (depth : Nat) (h : depth + j.nesting ≤ depthMax) : clip depth j = j := by
  cases j with
  | arr items =>
    rw [nesting] at h
    rw [clip, if_neg (by omega), clipItems_eq items (depth + 1) (by omega)]
  | obj members =>
    rw [nesting] at h
    rw [clip, if_neg (by omega), clipMembers_eq members (depth + 1) (by omega)]
  | _ => rfl

theorem clipItems_eq (items : List Json) (depth : Nat)
    (h : depth + nestingOfItems items ≤ depthMax) : clipItems depth items = items := by
  match items with
  | [] => rfl
  | j :: rest =>
    rw [nestingOfItems] at h
    rw [clipItems, clip_eq j depth (by omega), clipItems_eq rest depth (by omega)]

theorem clipMembers_eq (members : List (String × Json)) (depth : Nat)
    (h : depth + nestingOfMembers members ≤ depthMax) : clipMembers depth members = members := by
  match members with
  | [] => rfl
  | (_, j) :: rest =>
    rw [nestingOfMembers] at h
    rw [clipMembers, clip_eq j depth (by omega), clipMembers_eq rest depth (by omega)]

end

mutual

/-- What is left of a value with too many levels has a flaw. -/
theorem nesting_le_of_isSound_clip (j : Json) (depth : Nat) (hd : depth ≤ depthMax)
    (h : (clip depth j).isSound) : depth + j.nesting ≤ depthMax := by
  cases j with
  | arr items =>
    rw [clip] at h
    split at h
    · simp [isSound] at h
    · have := nesting_le_of_soundItems_clip items (depth + 1) (by omega) h
      rw [nesting]
      omega
  | obj members =>
    rw [clip] at h
    split at h
    · simp [isSound] at h
    · have := nesting_le_of_soundMembers_clip members (depth + 1) (by omega) h
      rw [nesting]
      omega
  | _ => exact hd

theorem nesting_le_of_soundItems_clip (items : List Json) (depth : Nat) (hd : depth ≤ depthMax)
    (h : soundItems (clipItems depth items)) : depth + nestingOfItems items ≤ depthMax := by
  match items with
  | [] => exact hd
  | j :: rest =>
    obtain ⟨hj, hrest⟩ := Bool.and_eq_true_iff.1 h
    have := nesting_le_of_isSound_clip j depth hd hj
    have := nesting_le_of_soundItems_clip rest depth hd hrest
    rw [nestingOfItems]
    omega

theorem nesting_le_of_soundMembers_clip (members : List (String × Json)) (depth : Nat)
    (hd : depth ≤ depthMax) (h : soundMembers (clipMembers depth members)) :
    depth + nestingOfMembers members ≤ depthMax := by
  match members with
  | [] => exact hd
  | (_, j) :: rest =>
    obtain ⟨hj, hrest⟩ := Bool.and_eq_true_iff.1 h
    have := nesting_le_of_isSound_clip j depth hd hj
    have := nesting_le_of_soundMembers_clip rest depth hd hrest
    rw [nestingOfMembers]
    omega

end

/-! ### Values that can be written -/

mutual

/-- Integers of the value have 64 bits, floats are as asked, and there is no flaw. -/
def Plain (ok : Float → Prop) : Json → Prop
  | int v => intMin ≤ v ∧ v ≤ wordMax
  | float x => ok x
  | arr items => PlainItems ok items
  | obj members => PlainMembers ok members
  | flaw _ => False
  | _ => True

/-- All items are plain. -/
def PlainItems (ok : Float → Prop) : List Json → Prop
  | [] => True
  | j :: rest => Plain ok j ∧ PlainItems ok rest

/-- All members are plain. -/
def PlainMembers (ok : Float → Prop) : List (String × Json) → Prop
  | [] => True
  | (_, j) :: rest => Plain ok j ∧ PlainMembers ok rest

end

mutual

/-- The floats in a value. -/
def floats : Json → List Float
  | float x => [x]
  | arr items => floatsOfItems items
  | obj members => floatsOfMembers members
  | _ => []

/-- The floats in items. -/
def floatsOfItems : List Json → List Float
  | [] => []
  | j :: rest => floats j ++ floatsOfItems rest

/-- The floats in members. -/
def floatsOfMembers : List (String × Json) → List Float
  | [] => []
  | (_, j) :: rest => floats j ++ floatsOfMembers rest

end

variable {ok ok' : Float → Prop}

theorem plainItems_iff {items : List Json} : PlainItems ok items ↔ ∀ j ∈ items, Plain ok j := by
  induction items with
  | nil => simp [PlainItems]
  | cons j rest ih => rw [PlainItems, ih, List.forall_mem_cons]

theorem plainMembers_iff {members : List (String × Json)} :
    PlainMembers ok members ↔ ∀ m ∈ members, Plain ok m.2 := by
  induction members with
  | nil => simp [PlainMembers]
  | cons m rest ih => rw [PlainMembers, ih, List.forall_mem_cons]

mutual

theorem Plain.isSound {j : Json} (h : Plain ok j) : j.isSound := by
  cases j with
  | arr items => exact PlainItems.sound h
  | obj members => exact PlainMembers.sound h
  | flaw _ => exact h.elim
  | _ => rfl

theorem PlainItems.sound {items : List Json} (h : PlainItems ok items) : soundItems items := by
  match items with
  | [] => rfl
  | j :: rest => exact Bool.and_eq_true_iff.2 ⟨Plain.isSound h.1, PlainItems.sound h.2⟩

theorem PlainMembers.sound {members : List (String × Json)} (h : PlainMembers ok members) :
    soundMembers members := by
  match members with
  | [] => rfl
  | (_, j) :: rest => exact Bool.and_eq_true_iff.2 ⟨Plain.isSound h.1, PlainMembers.sound h.2⟩

end

mutual

theorem Plain.imp {j : Json} (h : Plain ok j) (himp : ∀ x ∈ j.floats, ok x → ok' x) :
    Plain ok' j := by
  cases j with
  | float x => exact himp x List.mem_cons_self h
  | arr items => exact PlainItems.imp (show PlainItems ok items from h) himp
  | obj members => exact PlainMembers.imp (show PlainMembers ok members from h) himp
  | flaw _ => exact h.elim
  | int v => exact h
  | _ => trivial

theorem PlainItems.imp {items : List Json} (h : PlainItems ok items)
    (himp : ∀ x ∈ floatsOfItems items, ok x → ok' x) : PlainItems ok' items := by
  match items with
  | [] => trivial
  | j :: rest =>
    exact ⟨Plain.imp h.1 fun x hx => himp x (List.mem_append_left _ hx),
      PlainItems.imp h.2 fun x hx => himp x (List.mem_append_right _ hx)⟩

theorem PlainMembers.imp {members : List (String × Json)} (h : PlainMembers ok members)
    (himp : ∀ x ∈ floatsOfMembers members, ok x → ok' x) : PlainMembers ok' members := by
  match members with
  | [] => trivial
  | (_, j) :: rest =>
    exact ⟨Plain.imp h.1 fun x hx => himp x (List.mem_append_left _ hx),
      PlainMembers.imp h.2 fun x hx => himp x (List.mem_append_right _ hx)⟩

end

end Json

end Scheduling
