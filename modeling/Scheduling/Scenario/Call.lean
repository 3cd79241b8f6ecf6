import Scheduling.Listing.Statement
import Scheduling.Model.Call
import Scheduling.Scenario.Reader
import Scheduling.Solution
import Scheduling.Text.Blank

/-!
# Calls in scenarios

The calls that build a model, by name, and values for its variables.
-/

namespace Scheduling

namespace Scenario

/-! ## Nodes and values -/

/-- The tag of nodes that belong to no model of an input. -/
def foreignTag : Nat := 1000000000

/-- A node of the model by position, or of another model. -/
def nodeId (m : Model) (j : Json) : Decode NodeId :=
  match given? j "n", given? j "foreign" with
  | some k, _ => do pure (m.idAt (← natural k))
  | none, some k => do pure ⟨foreignTag, ← natural k⟩
  | none, none => .error "expected a node"

/-- Nodes. -/
def nodeList (m : Model) (j : Json) : Decode (List NodeId) := do (← items j).mapM (nodeId m)

/-- The value of a variable. -/
def solutionValue (j : Json) : Decode SolutionValue :=
  match j with
  | .null => .ok .absent
  | .bool b => .ok (.bool b)
  | .int v => .ok (.int v)
  | .arr [.int s, .int e] => .ok (.interval s e)
  | _ => do pure (.float (← boxedFloat j))

/-- The value of the objective; a missing one is undefined. -/
def objectiveValue (j : Option Json) : Decode ObjectiveValue :=
  match j with
  | none | some (.str "undefined") => .ok .undefined
  | some (.str "absent") => .ok .absent
  | some j => do pure (.value (← boxedFloat j))

/-- Sets values of variables in a solution. -/
def setValues (m : Model) (s : Solution) (values : List Json) : Decode Solution :=
  values.foldlM
    (fun s pair => do
      match ← items pair with
      | [node, v] => pure (s.set (← nodeId m node) (← solutionValue v))
      | _ => .error "expected a pair")
    s

/-- The presence of a variable. -/
def presence? (j : Json) : Decode (Option Presence) := do
  match given? j "presence" with
  | some p => pure (some (← need "a presence" (Presence.ofTag? (← text p))))
  | none => pure (if flag j "optional" then some .optional else none)

/-! ## Calls -/

/-- An integer operand. -/
def intOperand (m : Model) (j : Json) : Decode IntOperand :=
  match j with
  | .int v => .ok (.const v)
  | .bool b => .ok (.const (ofTruth b))
  | _ => do pure (.node (← nodeId m j))

/-- A float operand. -/
def floatOperand (m : Model) (j : Json) : Decode FloatOperand :=
  match j with
  | .int v => .ok (.int v)
  | .bool b => .ok (.int (ofTruth b))
  | _ =>
    match given? j "f" with
    | some x => do pure (.float (← floatText x))
    | none => do pure (.node (← nodeId m j))

/-- A truth-valued operand. -/
def boolOperand (m : Model) (j : Json) : Decode BoolOperand :=
  match j with
  | .bool b => .ok (.const b)
  | _ => do pure (.node (← nodeId m j))

/-- A matrix, or none. -/
def matrix? (j : Json) : Decode (Option (List (List Int))) :=
  match j with
  | .null => .ok none
  | _ => do pure (some (← (← items j).mapM fun row => do (← items row).mapM integer))

/-- A pair of integers. -/
def point (j : Json) : Decode (Int × Int) := do
  match ← items j with
  | [x, y] => pure (← integer x, ← integer y)
  | _ => .error "expected a pair"

/-- The bounds of an interval variable: a fixed value, and what overrides it on one side. -/
def intervalBounds (j : Json) : Decode Bounds := do
  let both (key low high : String) : Decode (Option Int × Option Int) := do
    let fixed ← optional j key integer
    let least ← optional j low integer
    let greatest ← optional j high integer
    pure (least <|> fixed, greatest <|> fixed)
  let (startMin, startMax) ← both "start" "start_min" "start_max"
  let (endMin, endMax) ← both "end" "end_min" "end_max"
  let (lengthMin, lengthMax) ← both "length" "length_min" "length_max"
  pure ⟨none, none, startMin, startMax, endMin, endMax, lengthMin, lengthMax⟩

/-- The arithmetic operation of a name. -/
def arithmetic? : String → Option Arithmetic
  | "plus" => some .plus
  | "minus" => some .minus
  | "times" => some .times
  | "div" => some .div
  | "min2" => some .min2
  | "max2" => some .max2
  | _ => none

/-- The aggregate of a name. -/
def aggregate? : String → Option Aggregate
  | "sum" => some .sum
  | "min" => some .min
  | "max" => some .max
  | _ => none

/-- The comparison of a name. -/
def comparison? (name : String) : Option Comparison := Comparison.all.find? fun c => c.tag == name

/-- The measure of a name. -/
def measure? (name : String) : Option Measure := Measure.all.find? fun m => m.tag == name

/-- The precedence of a name. -/
def precedence? (name : String) : Option Precedence :=
  Precedence.all.find? fun p => Listing.precedenceName p == name

/-- The name of an operation on floats, without its mark. -/
def float? (name : String) : Option String :=
  (afterStart? "float_".toList name.toList).map String.ofList

/-- The name of a measure that has a default, without its mark. -/
def beforeOr? (name : String) : Option String :=
  (afterStart? "ro_".toList name.toList.reverse).map fun cs => .ofList cs.reverse

/-- The call of a building step that creates no variable. -/
def positionalCall (m : Model) (name : String) (a : List Json) : Decode Call := do
  let node := nodeId m
  let int := intOperand m
  let float := floatOperand m
  let bool := boolOperand m
  match name, a with
  | "neg", [x] => pure (.intNeg (← int x))
  | "abs", [x] => pure (.intAbs (← int x))
  | "guard", [x, d] => pure (.intGuard (← int x) (← integer d))
  | "float_neg", [x] => pure (.floatNeg (← float x))
  | "float_abs", [x] => pure (.floatAbs (← float x))
  | "float_guard", [x, d] => pure (.floatGuard (← float x) (← boxedFloat d))
  | "presence", [x] => pure (.presence (← node x))
  | "identity", [x, y] => pure (.identity (← float x) (← float y))
  | "in_range", [x, l, g] => pure (.inRange (← float x) (← boxedFloat l) (← boxedFloat g))
  | "and", [x, y] => pure (.connect .and (← bool x) (← bool y))
  | "or", [x, y] => pure (.connect .or (← bool x) (← bool y))
  | "implies", [x, y] => pure (.connect .implies (← bool x) (← bool y))
  | "not", [x] => pure (.not (← bool x))
  | "alternative", [x, ys] => pure (.alternative (← node x) (← nodeList m ys))
  | "span", [x, ys] => pure (.span (← node x) (← nodeList m ys))
  | "no_overlap", xs :: rest =>
    pure (.noOverlap (← nodeList m xs) (← matrix? (rest.head?.getD .null)))
  | "no_overlap_sequence", x :: rest =>
    pure (.noOverlapSequence (← node x) (← matrix? (rest.head?.getD .null)))
  | "pulse", [x, h] => pure (.intervalStep .pulse (← node x) (← int h))
  | "step_at_start", [x, h] => pure (.intervalStep .atStart (← node x) (← int h))
  | "step_at_end", [x, h] => pure (.intervalStep .atEnd (← node x) (← int h))
  | "step_at", [t, h] => pure (.stepAt (← integer t) (← int h))
  | "cumul_plus", [x, y] => pure (.cumulPlus (← node x) (← node y))
  | "cumul_minus", [x, y] => pure (.cumulMinus (← node x) (← node y))
  | "cumul_neg", [x] => pure (.cumulNeg (← node x))
  | "cumul_sum", [xs] => pure (.cumulSum (← nodeList m xs))
  | "cumul_le", [x, b] => pure (.cumulBound .atMost (← node x) (← integer b))
  | "cumul_ge", [x, b] => pure (.cumulBound .atLeast (← node x) (← integer b))
  | "step_function", [ps] => pure (.stepFunction (← (← items ps).mapM point))
  | "step_function_eval", [f, t] => pure (.stepFunctionEval (← node f) (← int t))
  | "step_function_sum", [f, x] => pure (.stepFunctionSum (← node f) (← node x))
  | "forbid_extent", [x, f] => pure (.forbid .extent (← node x) (← node f))
  | "forbid_start", [x, f] => pure (.forbid .start (← node x) (← node f))
  | "forbid_end", [x, f] => pure (.forbid .finish (← node x) (← node f))
  | "int_const", [v] => pure (.intConst (← integer v))
  | "float_const", [x] => pure (.floatConst (← boxedFloat x))
  | "bool_const", [b] => pure (.boolConst (← truth b))
  | "constraint", [x] => pure (.constraint (← bool x))
  | "minimize", [x] => pure (.optimize .minimize (← float x))
  | "maximize", [x] => pure (.optimize .maximize (← float x))
  | "set_node_name", [x, n] => pure (.nameNode (← node x) (← text n))
  | "set_name", [n] => pure (.nameModel (← text n))
  | _, _ =>
    match aggregate? name, (float? name).bind aggregate?, a with
    | some op, _, [xs] => pure (.intAggregate op (← (← items xs).mapM int))
    | _, some op, [xs] => pure (.floatAggregate op (← (← items xs).mapM float))
    | _, _, _ =>
      match arithmetic? name, (float? name).bind arithmetic?, comparison? name, a with
      | some op, _, _, [x, y] => pure (.int op (← int x) (← int y))
      | _, some op, _, [x, y] => pure (.float op (← float x) (← float y))
      | _, _, some c, [x, y] => pure (.compare c (← float x) (← float y))
      | _, _, _, _ =>
        match measure? name, (beforeOr? name).bind measure?, precedence? name, a with
        | some v, _, _, [x] => pure (.measure v (← node x))
        | _, some v, _, [x, d] => pure (.measureOr v (← node x) (← integer d))
        | _, _, some p, x :: y :: rest =>
          pure (.precedence p (← node x) (← node y) (← int (rest.head?.getD (.int 0))))
        | _, _, _, _ => .error ("unknown step " ++ name)

/-- The call of a building step. -/
def buildingCall (m : Model) (name : String) (step : Json) : Decode Call := do
  let called ← optional step "name" text
  match name with
  | "int_var" =>
    pure (.intVar ⟨← optional step "min" integer, ← optional step "max" integer,
      ← presence? step, called⟩)
  | "float_var" =>
    pure (.floatVar ⟨← optional step "min" floatText, ← optional step "max" floatText,
      ← presence? step, called⟩)
  | "bool_var" => pure (.boolVar ⟨← presence? step, called⟩)
  | "interval_var" => pure (.intervalVar ⟨← intervalBounds step, ← presence? step, called⟩)
  | "sequence_var" =>
    pure (.sequenceVar ⟨← nodeList m (← field step "of"),
      ← optional step "types" (fun j => do (← items j).mapM integer), called⟩)
  | _ => positionalCall m name (← listField step "a")

end Scenario

end Scheduling
