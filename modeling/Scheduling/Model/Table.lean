import Scheduling.Model.Error

/-!
# Tables

The tables that nodes carry: matrices of transition times and points of step functions.
-/

namespace Scheduling

/-- Checks a row of a matrix from a column on. -/
def checkEntries (row : Nat) : (col : Nat) → List Int → Except ModelError Unit
  | _, [] => .ok ()
  | col, v :: rest =>
    if v < 0 then .error (.negativeTransition row col v) else checkEntries row (col + 1) rest

/-- Checks the rows of a matrix from a row on. -/
def checkRows (size : Nat) : (row : Nat) → List (List Int) → Except ModelError Unit
  | _, [] => .ok ()
  | row, values :: rest =>
    if values.length ≠ size then .error (.transitionColumns size row values.length)
    else
      match checkEntries row 0 values with
      | .ok () => checkRows size (row + 1) rest
      | .error e => .error e

/-- Checks that a matrix has as many rows and columns as asked, and no negative entry. -/
def checkTransitions (matrix : List (List Int)) (size : Nat) : Except ModelError Unit :=
  if matrix.length ≠ size then .error (.transitionRows size matrix.length)
  else checkRows size 0 matrix

/-- Checks that points are pairs with increasing first coordinates, all above `previous`. -/
def checkPointsAfter : (previous : Option Int) → List (List Int) → Except ModelError Unit
  | _, [] => .ok ()
  | previous, [x, _] :: rest =>
    match previous with
    | some p => if x ≤ p then .error (.stepFunctionOrder p x) else checkPointsAfter (some x) rest
    | none => checkPointsAfter (some x) rest
  | _, point :: _ => .error (.stepPointShape point)

/-- Checks the points of a step function. -/
def checkStepPoints (points : List (List Int)) : Except ModelError Unit :=
  checkPointsAfter none points

/-- How many rows a matrix over a sequence has: one for each type up to the greatest, or one for
each interval when there are no types. A negative type counts as the word with its bits. -/
def Node.transitionSize (seq : Node) : Nat :=
  match seq.types? with
  | some types =>
    match types.max? with
    | some t => (t.emod (wordMax + 1)).toNat + 1
    | none => 0
  | none => ((seq.args.head?.bind Arg.list?).map List.length).getD 0

end Scheduling
