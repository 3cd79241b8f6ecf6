import Scheduling.Model.Building

/-!
# Variables

What a variable is built from, and the limits of its bounds.
-/

namespace Scheduling

/-- The greatest value of an integer variable; the least is its negation. -/
def intVarMax : Int := 1073741823

/-- The greatest start or end of an interval variable; the least is its negation. -/
def intervalMax : Int := 715827882

/-- The greatest length of an interval variable. -/
def lengthMax : Int := 1431655764

/-- The greatest float. -/
def floatMax : Float := 1.7976931348623157e308

/-- An integer variable to be built. -/
structure IntVarSpec where
  min : Option Int
  max : Option Int
  presence : Option Presence
  name : Option String
deriving DecidableEq, Repr

/-- A truth-valued variable to be built. -/
structure BoolVarSpec where
  presence : Option Presence
  name : Option String
deriving DecidableEq, Repr

/-- A float variable to be built. -/
structure FloatVarSpec where
  min : Option Float
  max : Option Float
  presence : Option Presence
  name : Option String
deriving DecidableEq, Repr

/-- An interval variable to be built. -/
structure IntervalVarSpec where
  bounds : Bounds
  presence : Option Presence
  name : Option String
deriving DecidableEq, Repr

/-- A sequence variable to be built, with a type for each interval if transitions go by type. -/
structure SequenceVarSpec where
  intervals : List NodeId
  types : Option (List Int)
  name : Option String
deriving DecidableEq, Repr

namespace Building

/-- Checks that a bound lies within its limits. -/
def checkLimit (what : String) (least greatest : Int) : Option Int → Building Unit
  | none => pure ()
  | some v =>
    if v < least ∨ greatest < v then
      fail (.outOfRange what (.ofInt v) (.ofInt least) (.ofInt greatest))
    else pure ()

/-- Checks a lower and an upper bound. -/
def checkBounds (what : String) (low high : Option Int) (least greatest : Int) : Building Unit := do
  checkLimit what least greatest low
  checkLimit what least greatest high
  match low, high with
  | some l, some h => if h < l then fail (.invalidBounds what (.ofInt l) (.ofInt h)) else pure ()
  | _, _ => pure ()

/-- Builds an integer variable. -/
def intVar (v : IntVarSpec) : Building NodeId := do
  checkBounds "intVar" v.min v.max (-intVarMax) intVarMax
  let bounds := { Bounds.none with min := v.min.map Float.ofInt, max := v.max.map Float.ofInt }
  add { Node.plain .intVar [] with bounds, presence := v.presence, name := v.name }

/-- Builds a truth-valued variable. -/
def boolVar (v : BoolVarSpec) : Building NodeId :=
  add { Node.plain .boolVar [] with presence := v.presence, name := v.name }

/-- Checks that a bound is finite. -/
def checkFinite (what : String) : Option Float → Building Unit
  | none => pure ()
  | some x => discard (finite what x)

/-- Builds a float variable. -/
def floatVar (v : FloatVarSpec) : Building NodeId := do
  checkFinite "floatVar" v.min
  checkFinite "floatVar" v.max
  match v.min, v.max with
  | some l, some h => if h < l then fail (.invalidBounds "floatVar" l h)
  | _, _ => pure ()
  let bounds := { Bounds.none with min := v.min, max := v.max }
  add { Node.plain .floatVar [] with bounds, presence := v.presence, name := v.name }

/-- Builds an interval variable. -/
def intervalVar (v : IntervalVarSpec) : Building NodeId := do
  let b := v.bounds
  checkBounds "start" b.startMin b.startMax (-intervalMax) intervalMax
  checkBounds "end" b.endMin b.endMax (-intervalMax) intervalMax
  checkBounds "length" b.lengthMin b.lengthMax 0 lengthMax
  add { Node.plain .intervalVar [] with bounds := b, presence := v.presence, name := v.name }

/-- Checks the types of a sequence. -/
def checkTypes (intervals : Nat) : Option (List Int) → Building Unit
  | none => pure ()
  | some types =>
    if types.length ≠ intervals then fail (.sequenceTypeCount intervals types.length)
    else
      match types.find? (· < 0) with
      | some t => fail (.sequenceTypeNegative t)
      | none => pure ()

/-- Builds a sequence variable. -/
def sequenceVar (v : SequenceVarSpec) : Building NodeId := do
  expectAll .interval v.intervals
  checkTypes v.intervals.length v.types
  add { Node.plain .sequenceVar [.list (v.intervals.map Arg.node)] with
    values := v.types.map fun types => [types], name := v.name }

end Building

end Scheduling
