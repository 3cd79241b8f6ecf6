import Scheduling.Model.Operator

/-!
# Nodes

The nodes of a model: how they are named, their arguments, and what else they carry. A node is
named by its position in the model and by the model's tag, so a name from another model is told
apart.
-/

namespace Scheduling

/-- The name of a node: a position in the model with a tag. -/
structure NodeId where
  model : Nat
  index : Nat
deriving DecidableEq, Repr

namespace NodeId

/-- Names are ordered by model, then by position. -/
instance : Ord NodeId where
  compare a b := (compare a.model b.model).then (compare a.index b.index)

/-- The full text of a name. -/
def describe (id : NodeId) : String :=
  "NodeId \x7b model: " ++ Nat.repr id.model ++ ", index: " ++ Nat.repr id.index ++ " \x7d"

/-- The short text of a name. -/
def short (id : NodeId) : String := "#" ++ Nat.repr id.index

end NodeId

/-- Whether a variable is part of a solution. -/
inductive Presence where
  | optional
  | present
  | absent
deriving DecidableEq, Repr

namespace Presence

/-- The name of a presence. -/
def tag : Presence → String
  | optional => "optional"
  | present => "present"
  | absent => "absent"

/-- The presence of a name. -/
def ofTag? : String → Option Presence
  | "optional" => some optional
  | "present" => some present
  | "absent" => some absent
  | _ => none

end Presence

/-- The bounds of a variable; one that is not set leaves the default. -/
structure Bounds where
  min : Option Float
  max : Option Float
  startMin : Option Int
  startMax : Option Int
  endMin : Option Int
  endMax : Option Int
  lengthMin : Option Int
  lengthMax : Option Int
deriving DecidableEq, Repr, Inhabited

/-- The integer that a float bound stands for: cut toward zero, and moved into 64 bits. -/
def boundInt (x : Float) : Int := x.toModel.toInt64.toInt

/-- No bound is set. -/
def Bounds.none : Bounds := ⟨.none, .none, .none, .none, .none, .none, .none, .none⟩

/-- An argument of a node: a literal, another node, or a list. -/
inductive Arg where
  | int (v : Int)
  | float (x : Float)
  | bool (b : Bool)
  | node (id : NodeId)
  | list (items : List Arg)
deriving Repr, Inhabited

namespace Arg

mutual

/-- The nodes of an argument, from left to right. -/
def nodes : Arg → List NodeId
  | node id => [id]
  | list items => nodesOf items
  | _ => []

/-- The nodes of several arguments, from left to right. -/
def nodesOf : List Arg → List NodeId
  | [] => []
  | a :: rest => nodes a ++ nodesOf rest

end

/-- The items of a list. -/
def list? : Arg → Option (List Arg)
  | list items => some items
  | _ => none

end Arg

/-- What a node carries beside its arguments. -/
structure Attributes where
  name : Option String
  presence : Option Presence
  bounds : Bounds
  /-- The points of a step function, the matrix of a no-overlap, or the types of a sequence as a
  single row. -/
  values : Option (List (List Int))
deriving DecidableEq, Repr, Inhabited

/-- No attribute is set. -/
def Attributes.none : Attributes := ⟨.none, .none, .none, .none⟩

/-- A node of a model. -/
structure Node extends Attributes where
  operator : Operator
  args : List Arg
  /-- The position among the nodes that records refer to. -/
  ref : Option Nat
  /-- How often the node is used by arguments and by the list of constraints. -/
  uses : Nat
deriving Repr

namespace Node

/-- A node that is not used yet. -/
def fresh (operator : Operator) (args : List Arg) (attributes : Attributes) : Node :=
  { toAttributes := attributes, operator, args, ref := none, uses := 0 }

/-- A node that carries nothing but its arguments, and is not used yet. -/
def plain (operator : Operator) (args : List Arg) : Node := fresh operator args .none

/-- The kind of the node's value. -/
def kind (n : Node) : Kind := n.operator.kind

/-- The nodes among the arguments, from left to right, with repetition. -/
def operands (n : Node) : List NodeId := Arg.nodesOf n.args

/-- The types of a sequence. -/
def types? (n : Node) : Option (List Int) := n.values.bind List.head?

/-- Whether the node is the constant of an integer. -/
def isIntConst (v : Int) (n : Node) : Bool :=
  match n.operator, n.args with
  | .intConst, .int w :: _ => v == w
  | _, _ => false

/-- Whether the node is the constant of a float, which differs from another one by any bit. -/
def isFloatConst (x : Float) (n : Node) : Bool :=
  match n.operator, n.args with
  | .floatConst, .float y :: _ => x.toBits == y.toBits
  | _, _ => false

/-- Whether the node is the constant of a truth value. -/
def isBoolConst (b : Bool) (n : Node) : Bool :=
  match n.operator, n.args with
  | .boolConst, .bool c :: _ => b == c
  | _, _ => false

end Node

end Scheduling
