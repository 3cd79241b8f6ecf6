import Scheduling.Listing.Program
import Scheduling.Model.Call

/-!
# Carrying out listings

A listing is carried out statement by statement on a model that starts empty. Each binding gives a
name the handle that its call returns, whose type says where the handle can stand later on. A
statement cannot be carried out when it uses a name that is not bound, when an operand is not of a
type that the call accepts, or when the call fails.
-/

namespace Scheduling

namespace Listing

/-! ## Handles -/

/-- The type of a handle. -/
inductive HandleType where
  | intExpr
  | intVar
  | boolExpr
  | boolVar
  | floatExpr
  | floatVar
  | intervalVar
  | sequenceVar
  | cumulExpr
  | stepFunction
  | constraint
deriving DecidableEq, Repr

namespace HandleType

/-- The type of what the call for an operator returns. -/
def of (op : Operator) : HandleType :=
  match op with
  | .intVar => intVar
  | .boolVar => boolVar
  | .floatVar => floatVar
  | _ =>
    match op.kind with
    | .int => intExpr
    | .bool => boolExpr
    | .float => floatExpr
    | .interval => intervalVar
    | .sequence => sequenceVar
    | .cumul => cumulExpr
    | .stepFunction => stepFunction
    | .constraint => constraint

/-- Whether a handle can stand for a truth value. -/
def isBool : HandleType → Bool
  | boolExpr | boolVar => true
  | _ => false

/-- Whether a handle can stand for an integer; one for a truth value can. -/
def isInt : HandleType → Bool
  | intExpr | intVar => true
  | t => t.isBool

/-- Whether a handle can stand for a number; one for an integer can. -/
def isFloat : HandleType → Bool
  | floatExpr | floatVar => true
  | t => t.isInt

end HandleType

/-- What a name is bound to. -/
structure Handle where
  type : HandleType
  id : NodeId
deriving DecidableEq, Repr

/-- What the names of nodes are bound to. A name is made of the position of the node only. -/
abbrev Scope := Nat → Option Handle

namespace Scope

/-- No name is bound. -/
def empty : Scope := fun _ => none

/-- Binds the name of a node. -/
def bind (scope : Scope) (id : NodeId) (h : Handle) : Scope :=
  fun k => if k = id.index then some h else scope k

end Scope

/-! ## Operands -/

/-- A literal, or a handle. -/
inductive Operand where
  | int (v : Int)
  | float (x : Float)
  | bool (b : Bool)
  | handle (h : Handle)
deriving DecidableEq, Repr

namespace Operand

/-- As an integer operand. A truth value becomes 0 or 1. -/
def int? : Operand → Option IntOperand
  | int v => some (.const v)
  | bool b => some (.const (ofTruth b))
  | handle h => if h.type.isInt then some (.node h.id) else none
  | float _ => none

/-- As a numeric operand. No conversion takes a truth value. -/
def float? : Operand → Option FloatOperand
  | int v => some (.int v)
  | float x => some (.float x)
  | handle h => if h.type.isFloat then some (.node h.id) else none
  | bool _ => none

/-- As a truth-valued operand. -/
def bool? : Operand → Option BoolOperand
  | bool b => some (.const b)
  | handle h => if h.type.isBool then some (.node h.id) else none
  | _ => none

/-- As a handle of a type. -/
def handle? (type : HandleType) : Operand → Option NodeId
  | handle h => if h.type = type then some h.id else none
  | _ => none

/-- As a handle of any type. A literal is none. -/
def node? : Operand → Option NodeId
  | handle h => some h.id
  | _ => none

/-- As an integer literal. -/
def intLiteral? : Operand → Option Int
  | int v => some v
  | _ => none

/-- As a float literal. -/
def floatLiteral? : Operand → Option Float
  | float x => some x
  | _ => none

end Operand

/-- The operand that a value stands for. -/
def Term.operand? (scope : Scope) : Term → Option Operand
  | int v => some (.int v)
  | float x => some (.float x)
  | bool b => some (.bool b)
  | bound id => (scope id.index).map .handle
  | list _ => none

namespace Argument

/-- An argument that is a value, as an operand that is read in some way. The delay of a precedence
that has none is the literal zero. -/
def read? {α : Type} (scope : Scope) (read : Operand → Option α) : Argument → Option α
  | term t => (t.operand? scope).bind read
  | noDelay => read (.int 0)
  | _ => none

/-- The items of an argument, each an operand that is read in some way. -/
def readAll? {α : Type} (scope : Scope) (read : Operand → Option α) (items : List Term) :
    Option (List α) :=
  items.mapM fun t => (t.operand? scope).bind read

end Argument

/-! ## Calls -/

section Calls

variable (scope : Scope)

/-- The call that builds an expression or a constraint from arguments. -/
def call? : Operator → List Argument → Option Call
  | .int op, [a, b] => do
    some (.int op (← a.read? scope Operand.int?) (← b.read? scope Operand.int?))
  | .intNeg, [a] => do some (.intNeg (← a.read? scope Operand.int?))
  | .intAbs, [a] => do some (.intAbs (← a.read? scope Operand.int?))
  | .intAggregate op, [.operands .int items] => do
    some (.intAggregate op (← Argument.readAll? scope Operand.int? items))
  | .intGuard, [a, default] => do
    some (.intGuard (← a.read? scope Operand.int?) (← default.read? scope Operand.intLiteral?))
  | .float op, [a, b] => do
    some (.float op (← a.read? scope Operand.float?) (← b.read? scope Operand.float?))
  | .floatNeg, [a] => do some (.floatNeg (← a.read? scope Operand.float?))
  | .floatAbs, [a] => do some (.floatAbs (← a.read? scope Operand.float?))
  | .floatAggregate op, [.operands .float items] => do
    some (.floatAggregate op (← Argument.readAll? scope Operand.float? items))
  | .floatGuard, [a, default] => do
    some (.floatGuard (← a.read? scope Operand.float?)
      (← default.read? scope Operand.floatLiteral?))
  | .presence, [a] => do some (.presence (← a.read? scope Operand.node?))
  | .identity, [a, b] => do
    some (.identity (← a.read? scope Operand.float?) (← b.read? scope Operand.float?))
  | .compare c, [a, b] => do
    some (.compare c (← a.read? scope Operand.float?) (← b.read? scope Operand.float?))
  | .inRange, [a, least, greatest] => do
    some (.inRange (← a.read? scope Operand.float?) (← least.read? scope Operand.floatLiteral?)
      (← greatest.read? scope Operand.floatLiteral?))
  | .connect c, [a, b] => do
    some (.connect c (← a.read? scope Operand.bool?) (← b.read? scope Operand.bool?))
  | .not, [a] => do some (.not (← a.read? scope Operand.bool?))
  | .measure m, [interval] => do
    some (.measure m (← interval.read? scope (Operand.handle? .intervalVar)))
  | .measureOr m, [interval, default] => do
    some (.measureOr m (← interval.read? scope (Operand.handle? .intervalVar))
      (← default.read? scope Operand.intLiteral?))
  | .precedence p, [a, b, delay] => do
    some (.precedence p (← a.read? scope (Operand.handle? .intervalVar))
      (← b.read? scope (Operand.handle? .intervalVar)) (← delay.read? scope Operand.int?))
  | .alternative, [main, .nodes options] => do
    some (.alternative (← main.read? scope (Operand.handle? .intervalVar))
      (← Argument.readAll? scope (Operand.handle? .intervalVar) options))
  | .span, [main, .nodes covered] => do
    some (.span (← main.read? scope (Operand.handle? .intervalVar))
      (← Argument.readAll? scope (Operand.handle? .intervalVar) covered))
  | .noOverlap, [.nodes intervals, .matrix transitions] => do
    some (.noOverlap (← Argument.readAll? scope (Operand.handle? .intervalVar) intervals)
      transitions)
  | .noOverlap, [sequence, .matrix transitions] => do
    some (.noOverlapSequence (← sequence.read? scope (Operand.handle? .sequenceVar)) transitions)
  | .intervalStep s, [interval, height] => do
    some (.intervalStep s (← interval.read? scope (Operand.handle? .intervalVar))
      (← height.read? scope Operand.int?))
  | .stepAt, [time, height] => do
    some (.stepAt (← time.read? scope Operand.intLiteral?) (← height.read? scope Operand.int?))
  | .cumulPlus, [a, b] => do
    some (.cumulPlus (← a.read? scope (Operand.handle? .cumulExpr))
      (← b.read? scope (Operand.handle? .cumulExpr)))
  | .cumulMinus, [a, b] => do
    some (.cumulMinus (← a.read? scope (Operand.handle? .cumulExpr))
      (← b.read? scope (Operand.handle? .cumulExpr)))
  | .cumulNeg, [a] => do some (.cumulNeg (← a.read? scope (Operand.handle? .cumulExpr)))
  | .cumulSum, [.nodes items] => do
    some (.cumulSum (← Argument.readAll? scope (Operand.handle? .cumulExpr) items))
  | .cumulBound b, [f, bound] => do
    some (.cumulBound b (← f.read? scope (Operand.handle? .cumulExpr))
      (← bound.read? scope Operand.intLiteral?))
  | .stepFunction, [.points ps] => some (.stepFunction ps)
  | .stepFunctionEval, [f, time] => do
    some (.stepFunctionEval (← f.read? scope (Operand.handle? .stepFunction))
      (← time.read? scope Operand.int?))
  | .stepFunctionSum, [f, interval] => do
    some (.stepFunctionSum (← f.read? scope (Operand.handle? .stepFunction))
      (← interval.read? scope (Operand.handle? .intervalVar)))
  | .forbid what, [interval, f] => do
    some (.forbid what (← interval.read? scope (Operand.handle? .intervalVar))
      (← f.read? scope (Operand.handle? .stepFunction)))
  | _, _ => none

/-- The call that builds a variable. A sequence is always present. -/
def VariableHead.call? (presence : Option Presence) (name : Option String) :
    VariableHead → Option Call
  | int min max => some (.intVar ⟨min, max, presence, name⟩)
  | float min max => some (.floatVar ⟨min, max, presence, name⟩)
  | bool => some (.boolVar ⟨presence, name⟩)
  | interval bounds => some (.intervalVar ⟨bounds, presence, name⟩)
  | sequence intervals types =>
    match presence with
    | none => do
      some (.sequenceVar
        ⟨← Argument.readAll? scope (Operand.handle? .intervalVar) intervals, types, name⟩)
    | some _ => none

end Calls

/-- The type of the handle of a variable. -/
def VariableHead.type : VariableHead → HandleType
  | int .. => .intVar
  | float .. => .floatVar
  | bool => .boolVar
  | interval _ => .intervalVar
  | sequence .. => .sequenceVar

/-! ## Statements -/

/-- A model that is built by a listing, and the names that are bound. -/
structure State where
  scope : Scope
  model : Model

namespace State

/-- Carries out a call that returns nothing. -/
def perform (σ : State) (c : Call) : Option State :=
  match σ.model.call c with
  | (.ok _, m) => some { σ with model := m }
  | (.error _, _) => none

/-- Carries out a call and binds a name to what it returns. -/
def define (σ : State) (id : NodeId) (type : HandleType) (c : Call) : Option State :=
  match σ.model.call c with
  | (.ok (some x), m) => some ⟨σ.scope.bind id ⟨type, x⟩, m⟩
  | _ => none

end State

/-- Carries out a statement. -/
def Statement.execute (σ : State) : Statement → Option State
  | declare id head presence name => do
    σ.define id head.type (← head.call? σ.scope presence name)
  | define id operator args => do
    σ.define id (.of operator) (← call? σ.scope operator args)
  | nameNode id name => do
    σ.perform (.nameNode (← σ.scope id.index).id name)
  | constraint t => do
    σ.perform (.constraint (← (t.operand? σ.scope).bind Operand.bool?))
  | optimize sense t => do
    σ.perform (.optimize sense (← (t.operand? σ.scope).bind Operand.float?))

/-- Carries out a program: the model that it builds, unless a statement cannot be carried out. -/
def Program.execute (p : Program) (tag : Nat) : Option Model :=
  (p.statements.foldlM Statement.execute ⟨.empty, .empty tag p.name⟩).map State.model

end Listing

end Scheduling
