/-!
# Sorted maps

Finite maps as lists of pairs in ascending order of their keys, so that the order of a traversal is
the order of the keys.
-/

namespace Scheduling

/-- A finite map. -/
structure SortedMap (κ : Type) (α : Type) where
  entries : List (κ × α)
deriving DecidableEq, Repr, Inhabited

namespace SortedMap

variable {κ α : Type} [Ord κ]

/-- The map without entries. -/
def empty : SortedMap κ α := ⟨[]⟩

/-- Puts an entry into entries in ascending order. -/
def put (key : κ) (value : α) : List (κ × α) → List (κ × α)
  | [] => [(key, value)]
  | (k, v) :: rest =>
    match compare key k with
    | .lt => (key, value) :: (k, v) :: rest
    | .eq => (key, value) :: rest
    | .gt => (k, v) :: put key value rest

/-- Sets the value of a key. -/
def insert (m : SortedMap κ α) (key : κ) (value : α) : SortedMap κ α := ⟨put key value m.entries⟩

/-- The value of a key. -/
def get? (m : SortedMap κ α) (key : κ) : Option α :=
  (m.entries.find? fun e => compare key e.1 == .eq).map Prod.snd

/-- Sets the values of another map on top of those of this one. -/
def overlay (m other : SortedMap κ α) : SortedMap κ α :=
  other.entries.foldl (fun m e => m.insert e.1 e.2) m

/-- The number of keys. -/
def size (m : SortedMap κ α) : Nat := m.entries.length

end SortedMap

end Scheduling
