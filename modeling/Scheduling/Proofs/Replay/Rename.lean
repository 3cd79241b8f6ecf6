import Mathlib.Logic.Function.Basic
import Scheduling.Proofs.Record.Covers

/-!
# Calls with other names for nodes

The nodes that a call names, and the call with other names for them (`Call.rename`). This is what a
client does that repeats its calls on another model: it names its nodes as that model does.
-/

namespace Scheduling

section Operands

variable {f g : NodeId → NodeId}

namespace IntOperand

/-- The node of an operand, if it is one. -/
def nodes : IntOperand → List NodeId
  | const _ => []
  | node id => [id]

/-- The operand with another name for its node. -/
def rename (f : NodeId → NodeId) : IntOperand → IntOperand
  | const v => const v
  | node id => node (f id)

theorem rename_eq_iff {a : IntOperand} :
    a.rename f = a.rename g ↔ ∀ id ∈ a.nodes, f id = g id := by
  cases a <;> simp [rename, nodes]

theorem rename_rename (a : IntOperand) : (a.rename f).rename g = a.rename (g ∘ f) := by
  cases a <;> rfl

theorem rename_self (a : IntOperand) : a.rename id = a := by cases a <;> rfl

end IntOperand

namespace FloatOperand

/-- The node of an operand, if it is one. -/
def nodes : FloatOperand → List NodeId
  | node id => [id]
  | _ => []

/-- The operand with another name for its node. -/
def rename (f : NodeId → NodeId) : FloatOperand → FloatOperand
  | node id => node (f id)
  | a => a

theorem rename_eq_iff {a : FloatOperand} :
    a.rename f = a.rename g ↔ ∀ id ∈ a.nodes, f id = g id := by
  cases a <;> simp [rename, nodes]

theorem rename_rename (a : FloatOperand) : (a.rename f).rename g = a.rename (g ∘ f) := by
  cases a <;> rfl

theorem rename_self (a : FloatOperand) : a.rename id = a := by cases a <;> rfl

end FloatOperand

namespace BoolOperand

/-- The node of an operand, if it is one. -/
def nodes : BoolOperand → List NodeId
  | const _ => []
  | node id => [id]

/-- The operand with another name for its node. -/
def rename (f : NodeId → NodeId) : BoolOperand → BoolOperand
  | const b => const b
  | node id => node (f id)

theorem rename_eq_iff {a : BoolOperand} :
    a.rename f = a.rename g ↔ ∀ id ∈ a.nodes, f id = g id := by
  cases a <;> simp [rename, nodes]

theorem rename_rename (a : BoolOperand) : (a.rename f).rename g = a.rename (g ∘ f) := by
  cases a <;> rfl

theorem rename_self (a : BoolOperand) : a.rename id = a := by cases a <;> rfl

end BoolOperand

end Operands

namespace Call

/-- The nodes that a call names. -/
def nodes : Call → List NodeId
  | intVar _ | boolVar _ | floatVar _ | intervalVar _ | intConst _ | floatConst _ | boolConst _
  | stepFunction _ | nameModel _ => []
  | sequenceVar v => v.intervals
  | int _ a b => a.nodes ++ b.nodes
  | intNeg a | intAbs a | intGuard a _ | stepAt _ a => a.nodes
  | intAggregate _ items => items.flatMap IntOperand.nodes
  | float _ a b | identity a b | compare _ a b => a.nodes ++ b.nodes
  | floatNeg a | floatAbs a | floatGuard a _ | inRange a _ _ | optimize _ a => a.nodes
  | floatAggregate _ items => items.flatMap FloatOperand.nodes
  | connect _ a b => a.nodes ++ b.nodes
  | not a | constraint a => a.nodes
  | presence id | measure _ id | measureOr _ id _ | noOverlapSequence id _ | cumulNeg id
  | cumulBound _ id _ | nameNode id _ => [id]
  | precedence _ a b delay => [a, b] ++ delay.nodes
  | alternative main items | span main items => main :: items
  | noOverlap items _ | cumulSum items => items
  | intervalStep _ interval height => interval :: height.nodes
  | cumulPlus a b | cumulMinus a b | stepFunctionSum a b | forbid _ a b => [a, b]
  | stepFunctionEval f time => f :: time.nodes

/-- The call with other names for its nodes. -/
def rename (f : NodeId → NodeId) : Call → Call
  | sequenceVar v => sequenceVar { v with intervals := v.intervals.map f }
  | int op a b => int op (a.rename f) (b.rename f)
  | intNeg a => intNeg (a.rename f)
  | intAbs a => intAbs (a.rename f)
  | intAggregate op items => intAggregate op (items.map (·.rename f))
  | intGuard a default => intGuard (a.rename f) default
  | float op a b => float op (a.rename f) (b.rename f)
  | floatNeg a => floatNeg (a.rename f)
  | floatAbs a => floatAbs (a.rename f)
  | floatAggregate op items => floatAggregate op (items.map (·.rename f))
  | floatGuard a default => floatGuard (a.rename f) default
  | presence id => presence (f id)
  | identity a b => identity (a.rename f) (b.rename f)
  | compare c a b => compare c (a.rename f) (b.rename f)
  | inRange a least greatest => inRange (a.rename f) least greatest
  | connect c a b => connect c (a.rename f) (b.rename f)
  | not a => not (a.rename f)
  | measure m interval => measure m (f interval)
  | measureOr m interval default => measureOr m (f interval) default
  | precedence p a b delay => precedence p (f a) (f b) (delay.rename f)
  | alternative main options => alternative (f main) (options.map f)
  | span main covered => span (f main) (covered.map f)
  | noOverlap intervals transitions => noOverlap (intervals.map f) transitions
  | noOverlapSequence sequence transitions => noOverlapSequence (f sequence) transitions
  | intervalStep s interval height => intervalStep s (f interval) (height.rename f)
  | stepAt time height => stepAt time (height.rename f)
  | cumulPlus a b => cumulPlus (f a) (f b)
  | cumulMinus a b => cumulMinus (f a) (f b)
  | cumulNeg a => cumulNeg (f a)
  | cumulSum items => cumulSum (items.map f)
  | cumulBound b a bound => cumulBound b (f a) bound
  | stepFunctionEval a time => stepFunctionEval (f a) (time.rename f)
  | stepFunctionSum a interval => stepFunctionSum (f a) (f interval)
  | forbid what interval a => forbid what (f interval) (f a)
  | constraint a => constraint (a.rename f)
  | optimize sense a => optimize sense (a.rename f)
  | nameNode id name => nameNode (f id) name
  | c => c

variable {f g : NodeId → NodeId}

theorem rename_congr {c : Call} (h : ∀ id ∈ c.nodes, f id = g id) : c.rename f = c.rename g := by
  cases c
  case intAggregate op items =>
    refine congrArg (intAggregate op) (List.map_congr_left fun a ha => ?_)
    exact IntOperand.rename_eq_iff.2 fun id hid => h id (List.mem_flatMap.2 ⟨a, ha, hid⟩)
  case floatAggregate op items =>
    refine congrArg (floatAggregate op) (List.map_congr_left fun a ha => ?_)
    exact FloatOperand.rename_eq_iff.2 fun id hid => h id (List.mem_flatMap.2 ⟨a, ha, hid⟩)
  all_goals
    simp only [nodes, List.mem_append, List.mem_cons, List.not_mem_nil, or_imp, forall_and,
      forall_eq, false_imp_iff, implies_true, and_true] at h
    simp_all [rename, IntOperand.rename_eq_iff, FloatOperand.rename_eq_iff,
      BoolOperand.rename_eq_iff]

theorem rename_rename (c : Call) : (c.rename f).rename g = c.rename (g ∘ f) := by
  cases c <;>
    simp [rename, Function.comp_def, IntOperand.rename_rename, FloatOperand.rename_rename,
      BoolOperand.rename_rename]

theorem rename_self (c : Call) : c.rename id = c := by
  cases c <;>
    simp [rename, IntOperand.rename_self, FloatOperand.rename_self, BoolOperand.rename_self]

/-- Names that are translated back give the call back. -/
theorem rename_rename_self {c : Call} (h : ∀ id ∈ c.nodes, f (g id) = id) :
    (c.rename g).rename f = c := by
  have hid : c.rename (f ∘ g) = c.rename id := rename_congr h
  rw [rename_rename, hid, rename_self]

end Call

/-- The error with other names for its nodes. -/
def ModelError.rename (f : NodeId → NodeId) : ModelError → ModelError
  | unknownNode id => unknownNode (f id)
  | kindMismatch id expected actual => kindMismatch (f id) expected actual
  | e => e

/-- The outcome of a call with other names for nodes. -/
def renameOutcome (f : NodeId → NodeId) :
    Except ModelError (Option NodeId) → Except ModelError (Option NodeId)
  | .ok r => .ok (r.map f)
  | .error e => .error (e.rename f)

namespace Model

/-- The outcomes of calls, one after the other. -/
def outcomes (m : Model) : List Call → List (Except ModelError (Option NodeId))
  | [] => []
  | c :: cs => (m.call c).1 :: (m.call c).2.outcomes cs

end Model

end Scheduling
