/-!
# Notices

What a part of the library reports while it works: named fields, with a level and the name of the
part. A notice says nothing about how it is shown.
-/

namespace Scheduling

/-- How grave a notice is. -/
inductive Level where
  | error
  | warn
  | info
  | debug
  | trace
deriving DecidableEq, Repr

namespace Level

/-- All levels, the gravest first. -/
def all : List Level := [error, warn, info, debug, trace]

/-- The name of a level. -/
def name : Level → String
  | error => "error"
  | warn => "warn"
  | info => "info"
  | debug => "debug"
  | trace => "trace"

/-- Whether a level is that of a failure. -/
def isFailure : Level → Bool
  | error | warn => true
  | _ => false

end Level

/-- The value of a field. -/
inductive FieldValue where
  | text (t : String)
  | float (x : Float)
  | natural (n : Nat)
  | integer (v : Int)
  | truth (b : Bool)
  /-- A value of some other kind, as it is shown. -/
  | shown (t : String)
deriving Repr

/-- A notice. Of fields of one name the last counts. -/
structure Notice where
  target : String
  level : Level
  fields : List (String × FieldValue)
deriving Repr

namespace FieldValue

/-- A value that may be missing, as it is shown. -/
def maybe {α : Type} (write : α → String) : Option α → FieldValue
  | some a => shown ("Some(" ++ write a ++ ")")
  | none => shown "None"

end FieldValue

end Scheduling
