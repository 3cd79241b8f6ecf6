import Scheduling.Listing.Statement

/-!
# Listings of models

The program that rebuilds a model with the same building calls. Constants stand where they are used,
as literals; every other node is bound, in the order in which the nodes were built.
-/

namespace Scheduling

namespace Listing

/-! ## Values -/

mutual

/-- The value of an argument, given that of a node that is used. -/
def termOf (node : NodeId → Term) : Arg → Term
  | .int v => .int v
  | .float x => .float x
  | .bool b => .bool b
  | .node id => node id
  | .list items => .list (termsOf node items)

/-- The values of arguments. -/
def termsOf (node : NodeId → Term) : List Arg → List Term
  | [] => []
  | a :: rest => termOf node a :: termsOf node rest

end

/-- The value of a use of a node that stands among the first `depth` nodes: the literal of a
constant, and the name of any other node. -/
def useBelow (m : Model) : (depth : Nat) → NodeId → Term
  | 0, id => .bound id
  | depth + 1, id =>
    match m.node? id with
    | some n =>
      if n.operator.isConstant then (n.args.head?.map (termOf (useBelow m depth))).getD (.bound id)
      else .bound id
    | none => .bound id

/-- The value of a use of a node. -/
def use (m : Model) (id : NodeId) : Term := useBelow m m.nodes.size id

/-- The value of an argument of a node. -/
def term (m : Model) (a : Arg) : Term := termOf (use m) a

/-- The value of an argument that has to be a float: an integer or truth value as a float. -/
def floatTerm (m : Model) : Arg → Term
  | .int v => .float (.ofInt v)
  | .bool b => .float (.ofInt (ofTruth b))
  | a => term m a

/-- The values of the list at the head of arguments. -/
def headItems (m : Model) (args : List Arg) : List Term :=
  ((args.head?.bind Arg.list?).getD []).map (term m)

/-- The point of a row; a coordinate that is missing is zero. -/
def point (row : List Int) : Int × Int := (row[0]?.getD 0, row[1]?.getD 0)

/-! ## Statements -/

/-- What a variable starts from. -/
def variableHead (m : Model) (n : Node) : VariableHead :=
  let b := n.bounds
  match n.operator with
  | .intVar => .int (b.min.map boundInt) (b.max.map boundInt)
  | .floatVar => .float b.min b.max
  | .boolVar => .bool
  | .intervalVar => .interval b
  | _ => .sequence (headItems m n.args) n.types?

/-- The arguments of the call that builds an expression or a constraint. -/
def arguments (m : Model) (n : Node) : List Argument :=
  let plain (args : List Arg) : List Argument := args.map fun a => .term (term m a)
  let first := plain (n.args.take 1)
  let rest := n.args.drop 1
  match n.operator with
  | .intAggregate _ => [.operands .int (headItems m n.args)]
  | .floatAggregate _ => [.operands .float (headItems m n.args)]
  | .inRange | .floatGuard => first ++ rest.map fun a => .term (floatTerm m a)
  | .alternative | .span => first ++ [.nodes (headItems m rest)]
  | .noOverlap =>
    match n.args with
    | .list _ :: _ => [.nodes (headItems m n.args), .matrix n.values]
    | _ => first ++ [.matrix n.values]
  | .cumulSum => [.nodes (headItems m n.args)]
  | .stepFunction => [.points ((n.values.getD []).map point)]
  | .precedence _ =>
    -- A precedence without a delay has two arguments, but its call always has three.
    plain n.args ++ if n.args.length = 2 then [.noDelay] else []
  | _ => plain n.args

/-- The statements that build a node. -/
def nodeStatements (m : Model) (id : NodeId) (n : Node) : List Statement :=
  if n.operator.isConstant then []
  else if n.operator.isVariable then [.declare id (variableHead m n) n.presence n.name]
  else .define id n.operator (arguments m n) :: (n.name.map (Statement.nameNode id)).toList

/-- The statement that adds an expression to the constraints; a constraint is there once built. -/
def topLevelStatements (m : Model) (id : NodeId) : List Statement :=
  if (m.node? id).any fun n => n.operator.isConstraint then [] else [.constraint (use m id)]

end Listing

/-- The program that rebuilds the model. -/
def Model.program (m : Model) : Listing.Program where
  name := m.name
  statements :=
    m.ids.flatMap (fun id => ((m.node? id).map (Listing.nodeStatements m id)).getD [])
    ++ m.topLevel.toList.flatMap (Listing.topLevelStatements m)
    ++ (m.objective.map fun o => .optimize o.sense (Listing.use m o.expr)).toList

/-- The text of a program that rebuilds the model. -/
def Model.listing (m : Model) : String := m.program.text

end Scheduling
