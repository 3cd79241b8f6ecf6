import Scheduling.Json.Basic

/-!
# Tables of TOML

The tables of a document as they grow line by line. A key is defined once, a header opens a table
that was only implied before, and a dotted key extends tables that dotted keys made.
-/

namespace Scheduling

/-- How a table came about. -/
inductive TableOrigin where
  /-- By the header of a table inside it. -/
  | implied
  /-- By a header of its own. -/
  | header
  /-- By a dotted key. -/
  | dotted
deriving DecidableEq, Repr

/-- An entry of a table. -/
inductive TomlEntry where
  | value (j : Json)
  | table (origin : TableOrigin) (entries : List (String × TomlEntry))
  /-- An array of tables, the last one first. -/
  | tables (items : List (List (String × TomlEntry)))

/-- The entries of a table, in the order written. -/
abbrev TomlTable := List (String × TomlEntry)

namespace TomlTable

mutual

/-- The JSON value of an entry. -/
def entryToJson : TomlEntry → Json
  | .value j => j
  | .table _ entries => .obj (entriesToJson entries)
  | .tables items => .arr (itemsToJson items).reverse

/-- The JSON values of entries. -/
def entriesToJson : List (String × TomlEntry) → List (String × Json)
  | [] => []
  | (k, e) :: rest => (k, entryToJson e) :: entriesToJson rest

/-- The JSON values of the tables of an array. -/
def itemsToJson : List (List (String × TomlEntry)) → List Json
  | [] => []
  | entries :: rest => .obj (entriesToJson entries) :: itemsToJson rest

end

/-- Replaces the entry of a key, or appends it. -/
def set (t : TomlTable) (key : String) (e : TomlEntry) : TomlTable :=
  if t.any (fun m => m.1 == key) then t.map fun m => if m.1 == key then (key, e) else m
  else t ++ [(key, e)]

/-- Defines a value under a dotted key, where `opened` tells whether the table itself may get one
more key. The key leads through tables that no header defines and into the last table of an array;
only a table that dotted keys made may get the value. -/
def define (v : Json) : (path : List String) → (opened : Bool) → TomlTable → Option TomlTable
  | [], _, _ => none
  | [key], opened, t =>
    if !opened ∨ t.any (fun m => m.1 == key) then none else some (t.set key (.value v))
  | key :: path, _, t =>
    match t.lookup key with
    | none => (define v path true []).map fun sub => t.set key (.table .dotted sub)
    | some (.table .dotted sub) =>
      (define v path true sub).map fun sub => t.set key (.table .dotted sub)
    | some (.table .implied sub) =>
      (define v path false sub).map fun sub => t.set key (.table .implied sub)
    | some (.tables (last :: before)) =>
      (define v path false last).map fun last => t.set key (.tables (last :: before))
    | some _ => none

/-- Changes the table of a header's path; in an array of tables the last one is meant. -/
def within (change : TomlTable → Option TomlTable) : (path : List String) → TomlTable →
    Option TomlTable
  | [], t => change t
  | key :: path, t =>
    match t.lookup key with
    | none => (within change path []).map fun sub => t.set key (.table .implied sub)
    | some (.table origin sub) =>
      (within change path sub).map fun sub => t.set key (.table origin sub)
    | some (.tables (last :: before)) =>
      (within change path last).map fun last => t.set key (.tables (last :: before))
    | some _ => none

/-- Opens the table of a header, which may have been implied before but not defined. -/
def openTable (path : List String) (t : TomlTable) : Option TomlTable := do
  let key ← path.getLast?
  t.within (fun t =>
    match t.lookup key with
    | none => some (t.set key (.table .header []))
    | some (.table .implied sub) => some (t.set key (.table .header sub))
    | some _ => none) path.dropLast

/-- Opens one more table of an array of tables. -/
def openItem (path : List String) (t : TomlTable) : Option TomlTable := do
  let key ← path.getLast?
  t.within (fun t =>
    match t.lookup key with
    | none => some (t.set key (.tables [[]]))
    | some (.tables items) => some (t.set key (.tables ([] :: items)))
    | some _ => none) path.dropLast

end TomlTable

end Scheduling
