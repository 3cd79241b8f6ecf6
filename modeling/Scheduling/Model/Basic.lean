import Scheduling.Model.Error

/-!
# Models

A model holds its nodes in the order in which they were built. Nodes name their operands, so a
subexpression can be shared, and a node can only use nodes that stand before it. A node that records
have to refer to has a number: a variable gets it when it is built, any other node when it is used
for the second time, named, or made the objective.
-/

namespace Scheduling

/-- The direction of an objective. -/
inductive Sense where
  | minimize
  | maximize
deriving DecidableEq, Repr

namespace Sense

/-- The name of a direction. -/
def tag : Sense → String
  | minimize => "minimize"
  | maximize => "maximize"

/-- The direction of a name. -/
def ofTag? : String → Option Sense
  | "minimize" => some minimize
  | "maximize" => some maximize
  | _ => none

end Sense

/-- What a model optimizes. -/
structure Objective where
  sense : Sense
  expr : NodeId
deriving DecidableEq, Repr

/-- A scheduling model. -/
structure Model where
  /-- What tells the nodes of this model from those of others. -/
  tag : Nat
  name : Option String
  nodes : Array Node
  /-- The nodes with a number, in the order of their numbers. -/
  refs : Array NodeId
  /-- The constraints, in the order in which they were added. -/
  topLevel : Array NodeId
  objective : Option Objective
deriving Repr

namespace Model

/-- The model without nodes. -/
def empty (tag : Nat) (name : Option String) : Model := ⟨tag, name, #[], #[], #[], none⟩

/-- The name of the node at a position. -/
def idAt (m : Model) (index : Nat) : NodeId := ⟨m.tag, index⟩

/-- The node of a name, if the name is of this model. -/
def node? (m : Model) (id : NodeId) : Option Node :=
  if id.model = m.tag then m.nodes[id.index]? else none

/-- The node of a name. -/
def node (m : Model) (id : NodeId) : Except ModelError Node :=
  match m.node? id with
  | some n => .ok n
  | none => .error (.unknownNode id)

/-- The names of all nodes, in order. -/
def ids (m : Model) : List NodeId := (List.range m.nodes.size).map m.idAt

/-- The number of a node. -/
def ref? (m : Model) (id : NodeId) : Option Nat := (m.node? id).bind (·.ref)

/-- The node with a number. -/
def byRef? (m : Model) (ref : Nat) : Option NodeId := m.refs[ref]?

/-- The variables, in the order built. -/
def variableIds (m : Model) : List NodeId :=
  m.ids.filter fun id => (m.node? id).any fun n => n.operator.isVariable

/-- The first node with a name. -/
def byName? (m : Model) (name : String) : Option NodeId :=
  (m.nodes.findIdx? fun n => n.name == some name).map m.idAt

/-- The first node with a name, if it is an interval variable. -/
def intervalByName? (m : Model) (name : String) : Option NodeId :=
  (m.byName? name).filter fun id => (m.node? id).any fun n => n.operator == .intervalVar

/-! ## Numbering -/

/-- Changes the node at a position. -/
def modify (m : Model) (index : Nat) (f : Node → Node) : Model :=
  { m with nodes := m.nodes.modify index f }

/-- Numbers a node that has no number yet. -/
def materialize (m : Model) (id : NodeId) : Model :=
  match m.nodes[id.index]? with
  | some n =>
    if n.ref.isSome then m
    else
      let numbered := m.modify id.index fun n => { n with ref := some m.refs.size }
      { numbered with refs := m.refs.push id }
  | none => m

/-- Counts one more use of a node; the second one numbers it. -/
def use (m : Model) (id : NodeId) : Model :=
  let used := m.modify id.index fun n => { n with uses := n.uses + 1 }
  if (used.nodes[id.index]?).any (fun n => 2 ≤ n.uses) then used.materialize id else used

/-- Adds a node to the constraints, which is a use of it. -/
def addTopLevel (m : Model) (id : NodeId) : Model :=
  { m with topLevel := m.topLevel.push id }.use id

/-- Appends a node; its arguments are not counted as uses. -/
def push (m : Model) (n : Node) : Model := { m with nodes := m.nodes.push n }

/-! ## Constants -/

/-- The first node that is a given constant. -/
def constant? (m : Model) (is : Node → Bool) : Option NodeId := (m.nodes.findIdx? is).map m.idAt

end Model

end Scheduling
