/-!
# JSON values

A JSON value with its members in the order in which they were written. A number without point and
exponent is an integer, any other number a float; the two stay apart. A text that stops making sense
is read up to that point, and a flaw stands where reading stopped.
-/

namespace Scheduling

/-- What stands where no value could be read. -/
inductive JsonFlaw where
  /-- A well-formed value that has no meaning: a number out of range, a lone surrogate, or nesting
  that is too deep. It does no harm where the value is skipped. -/
  | unreadable
  /-- The text is not JSON from here on. -/
  | broken
deriving DecidableEq, Repr

/-- A JSON value. -/
inductive Json where
  | null
  | bool (b : Bool)
  | int (v : Int)
  | float (x : Float)
  | str (s : String)
  | arr (items : List Json)
  | obj (members : List (String × Json))
  | flaw (f : JsonFlaw)
deriving Repr, Inhabited

namespace Json

mutual

/-- Whether a value is free of flaws at every depth. -/
def isSound : Json → Bool
  | arr items => soundItems items
  | obj members => soundMembers members
  | flaw _ => false
  | _ => true

/-- Whether all items are free of flaws. -/
def soundItems : List Json → Bool
  | [] => true
  | j :: rest => isSound j && soundItems rest

/-- Whether all members are free of flaws. -/
def soundMembers : List (String × Json) → Bool
  | [] => true
  | (_, j) :: rest => isSound j && soundMembers rest

end

/-- Puts a member into members sorted by key; a member with the same key is replaced. -/
def putMember (key : String) (j : Json) : List (String × Json) → List (String × Json)
  | [] => [(key, j)]
  | (k, v) :: rest =>
    if key < k then (key, j) :: (k, v) :: rest
    else if key = k then (key, j) :: rest
    else (k, v) :: putMember key j rest

mutual

/-- The value with the members of every object sorted by key, the last one of each key kept, and
null for floats that are not finite. -/
def canonical : Json → Json
  | arr items => arr (canonicalItems items)
  | obj members => obj ((canonicalMembers members).foldl (fun ms m => putMember m.1 m.2 ms) [])
  | float x => if x.isFinite then float x else null
  | j => j

/-- Items in canonical form. -/
def canonicalItems : List Json → List Json
  | [] => []
  | j :: rest => canonical j :: canonicalItems rest

/-- Members with their values in canonical form, still in the order written. -/
def canonicalMembers : List (String × Json) → List (String × Json)
  | [] => []
  | (k, j) :: rest => (k, canonical j) :: canonicalMembers rest

end

end Json

end Scheduling
