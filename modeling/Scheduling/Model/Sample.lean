import Scheduling.Model.Call
import Scheduling.Solution

/-!
# Sample models

Small models with solutions. A solution finds the variables by name, so it is one of any model that
has them.
-/

namespace Scheduling

namespace Sample

/-- An interval variable of length 10. -/
def task (presence : Option Presence) (start : Option Int × Option Int) (name : String) : Call :=
  let bounds := { Bounds.none with
    startMin := start.1, startMax := start.2, lengthMin := some 10, lengthMax := some 10 }
  .intervalVar ⟨bounds, presence, some name⟩

/-- Two tasks one after the other; the second should end early. -/
def twoTasks (tag : Nat) : Model :=
  (Model.empty tag (some "two-tasks")).calls [
    task none (none, none) "x",
    task none (none, none) "y",
    .precedence ⟨true, false, false⟩ ⟨tag, 0⟩ ⟨tag, 1⟩ (.const 0),
    .measure .finish ⟨tag, 1⟩,
    .optimize .minimize (.node ⟨tag, 3⟩)]

/-- A task that is done in one of two ways. -/
def alternative (tag : Nat) : Model :=
  (Model.empty tag (some "alternative")).calls [
    task none (none, none) "main",
    task (some .optional) (none, none) "a",
    task (some .optional) (none, none) "b",
    .alternative ⟨tag, 0⟩ [⟨tag, 1⟩, ⟨tag, 2⟩]]

/-- Two tasks that start by 20 and do not overlap. -/
def noOverlap (tag : Nat) : Model :=
  (Model.empty tag (some "no-overlap")).calls [
    task none (some 0, some 20) "a",
    task none (some 0, some 20) "b",
    .noOverlap [⟨tag, 0⟩, ⟨tag, 1⟩] none]

/-- The time that a task takes which starts at some time. -/
def span (start : Int) : SolutionValue := .interval start (start + 10)

/-- The first of two tasks at some time, and the second right after it. -/
def twoTasksSolution (m : Model) (start : Int) : Option Solution := do
  let x ← m.intervalByName? "x"
  let y ← m.intervalByName? "y"
  let s := (Solution.empty.set x (span start)).set y (span (start + 10))
  some { s with objective := .value (Float.ofInt (start + 20)) }

/-- A task at some time, done in the first way or in the second. -/
def alternativeSolution (m : Model) (start : Int) (first : Bool) : Option Solution := do
  let main ← m.intervalByName? "main"
  let a ← m.intervalByName? "a"
  let b ← m.intervalByName? "b"
  let (chosen, other) := if first then (a, b) else (b, a)
  some (((Solution.empty.set main (span start)).set chosen (span start)).set other .absent)

/-- Two tasks, each at its time. -/
def noOverlapSolution (m : Model) (first second : Int) : Option Solution := do
  let a ← m.intervalByName? "a"
  let b ← m.intervalByName? "b"
  some ((Solution.empty.set a (span first)).set b (span second))

end Sample

end Scheduling
