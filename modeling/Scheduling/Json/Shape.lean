import Scheduling.Arith
import Scheduling.Json.Basic

/-!
# Shapes of JSON values

Reading typed values out of JSON. A record is an object, whose unknown members are skipped and whose
known members stand at most once, or an array of the fields in order. A choice is a string, or an
object with its name as the only key.
-/

namespace Scheduling

/-- The known fields of a record, in the order read. -/
abbrev JsonFields := List (String × Json)

/-- What may stand beside the name of a choice that is written as an object. -/
inductive UnitForm where
  /-- Null alone. -/
  | null
  /-- Null or an object without members. -/
  | nullOrObject
  /-- An object without members or an array without items. -/
  | hollow
deriving DecidableEq, Repr

/-- Whether a value may stand beside the name of a choice. -/
def UnitForm.accepts : UnitForm → Json → Bool
  | null, .null | nullOrObject, .null | nullOrObject, .obj [] => true
  | hollow, .obj [] | hollow, .arr [] => true
  | _, _ => false

namespace Json

/-- An integer of a range. A float is none, even a whole one. -/
def intWithin? (least greatest : Int) : Json → Option Int
  | int v => if least ≤ v ∧ v ≤ greatest then some v else none
  | _ => none

/-- An integer of 64 bits. -/
def int64? : Json → Option Int := intWithin? intMin intMax

/-- A natural number of 64 bits. -/
def nat64? (j : Json) : Option Nat := (j.intWithin? 0 wordMax).map Int.toNat

/-- A natural number of 32 bits. -/
def nat32? (j : Json) : Option Nat := (j.intWithin? 0 halfWordMax).map Int.toNat

/-- A float; an integer stands for the nearest one. -/
def float? : Json → Option Float
  | int v => some (Float.ofInt v)
  | float x => some x
  | _ => none

/-- A truth value. -/
def bool? : Json → Option Bool
  | bool b => some b
  | _ => none

/-- A string. -/
def string? : Json → Option String
  | str s => some s
  | _ => none

/-- The name of a choice: a string, or the one key of an object. -/
def choice? (unit : UnitForm) : Json → Option String
  | str s => some s
  | obj [(s, j)] => if unit.accepts j then some s else none
  | _ => none

/-- The choice of a JSON value, given how names are read. -/
def named? {α : Type} (unit : UnitForm) (ofName? : String → Option α) (j : Json) : Option α :=
  (j.choice? unit).bind ofName?

/-- An array, item by item. -/
def list? {α : Type} (item : Json → Option α) : Json → Option (List α)
  | arr items => items.mapM item
  | _ => none

/-- A value or null. -/
def nullable? {α : Type} (value : Json → Option α) : Json → Option (Option α)
  | null => some none
  | j => (value j).map some

/-- The members with known keys, unless one of these is repeated. -/
def knownMembers? (known : List String) (members : List (String × Json)) : Option JsonFields :=
  let fields := members.filter fun m => known.contains m.1
  if (fields.map Prod.fst).Nodup then some fields else none

/-- The fields of a record. As an array it has no more items than fields, and stops short only of
fields that are not in `needed`. -/
def fields? (known needed : List String) : Json → Option JsonFields
  | obj members => knownMembers? known members
  | arr items =>
    if items.length ≤ known.length
        ∧ (known.drop items.length).all (fun k => !needed.contains k) then
      some (known.zip items)
    else none
  | _ => none

/-- Takes the tag out of a tagged record: the member with the tag's key, which stands once, or the
first item of an array. All of a tagged record has to be readable. -/
def tagged? (tag : String) (j : Json) : Option (String × Json) :=
  if !j.isSound then none
  else
    match j with
    | obj members =>
      match members.filter (fun m => m.1 == tag) with
      | [(_, str name)] => some (name, obj (members.filter fun m => m.1 != tag))
      | _ => none
    | arr (str name :: items) => some (name, arr items)
    | _ => none

end Json

namespace JsonFields

/-- A field that has to be there. -/
def required? {α : Type} (fs : JsonFields) (key : String) (value : Json → Option α) : Option α :=
  (fs.lookup key).bind value

/-- A field that may be missing or null. -/
def optional? {α : Type} (fs : JsonFields) (key : String) (value : Json → Option α) :
    Option (Option α) :=
  match fs.lookup key with
  | none => some none
  | some j => j.nullable? value

/-- A field that may be missing, but not null. -/
def withDefault? {α : Type} (fs : JsonFields) (key : String) (default : α)
    (value : Json → Option α) : Option α :=
  match fs.lookup key with
  | none => some default
  | some j => value j

end JsonFields

namespace Json

/-- A member that is left out when there is no value. -/
def member? {α : Type} (key : String) (value : Option α) (write : α → Json) :
    List (String × Json) :=
  match value with
  | none => []
  | some v => [(key, write v)]

end Json

end Scheduling
