import Scheduling.Model.Basic
import Scheduling.Model.Error
import Scheduling.Text.Quoted

/-!
# Statements of listings

A listing is a program that rebuilds a model. Its statements bind nodes to names made of their
positions, and use these names later on. Here are the statements as data, and their texts.
-/

namespace Scheduling

namespace Listing

/-! ## Statements -/

/-- A value: a literal, a node that was bound before, or a list of values. -/
inductive Term where
  | int (v : Int)
  | float (x : Float)
  | bool (b : Bool)
  | bound (id : NodeId)
  | list (items : List Term)
deriving Repr, Inhabited

/-- What operands are turned into, so that nodes of different kinds fit into one list. -/
inductive OperandType where
  | int
  | float
deriving DecidableEq, Repr

/-- An argument of a call. -/
inductive Argument where
  | term (t : Term)
  | operands (type : OperandType) (items : List Term)
  /-- Nodes of one kind. -/
  | nodes (items : List Term)
  | matrix (rows : Option (List (List Int)))
  | points (ps : List (Int × Int))
  /-- The delay of a precedence that has none. -/
  | noDelay
deriving Repr

/-- What a variable starts from. -/
inductive VariableHead where
  | int (min max : Option Int)
  | float (min max : Option Float)
  | bool
  | interval (bounds : Bounds)
  | sequence (intervals : List Term) (types : Option (List Int))
deriving Repr

/-- A statement of a listing. -/
inductive Statement where
  | declare (id : NodeId) (head : VariableHead) (presence : Option Presence) (name : Option String)
  /-- Binds an expression or a constraint. -/
  | define (id : NodeId) (operator : Operator) (args : List Argument)
  | nameNode (id : NodeId) (name : String)
  | constraint (t : Term)
  | optimize (sense : Sense) (t : Term)
deriving Repr

/-- A program that rebuilds a model: the name of the model, and how it is built. -/
structure Program where
  name : Option String
  statements : List Statement
deriving Repr

/-! ## Literals -/

/-- Texts in square brackets. -/
def bracketed (items : List String) : String := "[" ++ ", ".intercalate items ++ "]"

/-- The literal of an integer. -/
def intLiteral (v : Int) : String := intText v ++ "_i64"

/-- The literal of a float. -/
def floatLiteral (x : Float) : String :=
  if x.isNaN then "f64::NAN"
  else if x.isInf then if 0.0 < x then "f64::INFINITY" else "f64::NEG_INFINITY"
  else Layout.literal.write x ++ "_f64"

/-- The literal of a row of integers. -/
def rowLiteral (row : List Int) : String := "vec!" ++ listText row

/-- The literal of a matrix that may be missing. -/
def matrixLiteral : Option (List (List Int)) → String
  | none => "None"
  | some rows => "Some(vec!" ++ bracketed (rows.map rowLiteral) ++ ")"

/-- The literal of a point. -/
def pointLiteral (point : Int × Int) : String :=
  "(" ++ intText point.1 ++ ", " ++ intText point.2 ++ ")"

/-- The name that a node is bound to. -/
def binding (id : NodeId) : String := "n" ++ Nat.repr id.index

/-! ## Texts of values -/

namespace Term

mutual

/-- The text of a value. -/
def text : Term → String
  | int v => intLiteral v
  | float x => floatLiteral x
  | bool b => if b then "true" else "false"
  | bound id => binding id
  | list items => bracketed (texts items)

/-- The texts of values. -/
def texts : List Term → List String
  | [] => []
  | t :: rest => text t :: texts rest

end

end Term

/-- The name of a type of operands. -/
def OperandType.name : OperandType → String
  | int => "IntOperand"
  | float => "FloatOperand"

/-- The text of an argument. -/
def Argument.text : Argument → String
  | term t => t.text
  | operands type [] => "Vec::<" ++ type.name ++ ">::new()"
  | operands type items => bracketed (items.map fun t => type.name ++ "::from(" ++ t.text ++ ")")
  | nodes items => "&" ++ bracketed (Term.texts items)
  | matrix rows => matrixLiteral rows
  | points ps => "&" ++ bracketed (ps.map pointLiteral)
  | noDelay => "0"

/-! ## Names of calls -/

/-- The name of an arithmetic operator in calls. -/
def arithmeticName : Arithmetic → String
  | .plus => "plus"
  | .minus => "minus"
  | .times => "times"
  | .div => "div"
  | .min2 => "min2"
  | .max2 => "max2"

/-- The name of an aggregate in calls. -/
def aggregateName : Aggregate → String
  | .sum => "sum"
  | .min => "min"
  | .max => "max"

/-- The name of a precedence in calls. -/
def precedenceName (p : Precedence) : String :=
  (if p.firstEnd then "end" else "start") ++ (if p.exact then "_at_" else "_before_")
    ++ (if p.secondEnd then "end" else "start")

/-- The name of the call that builds a node. -/
def callName : Operator → String
  | .int op => arithmeticName op
  | .intNeg => "neg"
  | .intAbs => "abs"
  | .intAggregate op => aggregateName op
  | .intGuard => "guard"
  | .float op => "float_" ++ arithmeticName op
  | .floatNeg => "float_neg"
  | .floatAbs => "float_abs"
  | .floatAggregate op => "float_" ++ aggregateName op
  | .floatGuard => "float_guard"
  | .presence => "presence"
  | .identity => "identity"
  | .compare c => c.tag
  | .inRange => "in_range"
  | .connect .and => "and"
  | .connect .or => "or"
  | .connect .implies => "implies"
  | .not => "not"
  | .measure m => m.tag
  | .measureOr m => m.tag ++ "_or"
  | .precedence p => precedenceName p
  | .alternative => "alternative"
  | .span => "span"
  | .noOverlap => "no_overlap"
  | .intervalStep .pulse => "pulse"
  | .intervalStep .atStart => "step_at_start"
  | .intervalStep .atEnd => "step_at_end"
  | .stepAt => "step_at"
  | .cumulPlus => "cumul_plus"
  | .cumulMinus => "cumul_minus"
  | .cumulNeg => "cumul_neg"
  | .cumulSum => "cumul_sum"
  | .cumulBound .atMost => "cumul_le"
  | .cumulBound .atLeast => "cumul_ge"
  | .stepFunction => "step_function"
  | .stepFunctionEval => "step_function_eval"
  | .stepFunctionSum => "step_function_sum"
  | .forbid .extent => "forbid_extent"
  | .forbid .start => "forbid_start"
  | .forbid .finish => "forbid_end"
  | .intVar => "int_var"
  | .boolVar => "bool_var"
  | .floatVar => "float_var"
  | .intervalVar => "interval_var"
  | .sequenceVar => "sequence_var"
  | .intConst => "int_const"
  | .floatConst => "float_const"
  | .boolConst => "bool_const"

/-- The name of a call with some arguments: a no-overlap of a sequence has a call of its own. -/
def callNameFor : Operator → List Argument → String
  | .noOverlap, .nodes _ :: _ => callName .noOverlap
  | .noOverlap, _ => callName .noOverlap ++ "_sequence"
  | operator, _ => callName operator

/-! ## Texts of statements -/

/-- A call that sets one field of a variable, if it has a value. -/
def setter {α : Type} (name : String) (value : Option α) (write : α → String) : String :=
  match value with
  | none => ""
  | some v => "." ++ name ++ "(" ++ write v ++ ")"

/-- The call that sets the presence of a variable. -/
def presenceCall : Option Presence → String
  | none => ""
  | some .optional => ".optional()"
  | some .present => ".presence(Presence::Present)"
  | some .absent => ".presence(Presence::Absent)"

/-- The call that starts a variable and those that set its bounds. -/
def VariableHead.text : VariableHead → String
  | int min max => "m.int_var()" ++ setter "min" min intText ++ setter "max" max intText
  | float min max =>
    "m.float_var()" ++ setter "min" min floatLiteral ++ setter "max" max floatLiteral
  | bool => "m.bool_var()"
  | interval b =>
    "m.interval_var()"
      ++ setter "start_min" b.startMin intText ++ setter "start_max" b.startMax intText
      ++ setter "end_min" b.endMin intText ++ setter "end_max" b.endMax intText
      ++ setter "length_min" b.lengthMin intText ++ setter "length_max" b.lengthMax intText
  | sequence intervals types =>
    "m.sequence_var(" ++ (Argument.nodes intervals).text ++ ")" ++ setter "types" types rowLiteral

/-- A call of the model that may fail. -/
def call (name : String) (args : List String) : String :=
  "m." ++ name ++ "(" ++ ", ".intercalate args ++ ")?"

/-- The line of a statement. -/
def Statement.line : Statement → String
  | declare id head presence name =>
    "    let " ++ binding id ++ " = " ++ head.text ++ presenceCall presence
      ++ setter "name" name quoted ++ ".build()?;"
  | define id operator args =>
    "    let " ++ binding id ++ " = " ++ call (callNameFor operator args) (args.map Argument.text)
      ++ ";"
  | nameNode id name => "    " ++ call "set_node_name" [binding id, quoted name] ++ ";"
  | constraint t => "    " ++ call "constraint" [t.text] ++ ";"
  | optimize sense t => "    " ++ call sense.tag [t.text] ++ ";"

namespace Program

/-- The line that starts a model. -/
def opening (p : Program) : String :=
  match p.name with
  | some name => "    let mut m = Model::with_name(" ++ quoted name ++ ");"
  | none => "    let mut m = Model::new();"

/-- The lines of the program. -/
def lines (p : Program) : List String :=
  ["use chronoforge_core::model::*;", "use chronoforge_core::ModelError;", "",
    "#[allow(unused_variables)]", "pub fn build_model() -> Result<Model, ModelError> \x7b",
    p.opening]
  ++ p.statements.map Statement.line ++ ["    Ok(m)", "\x7d"]

/-- The text of the program. -/
def text (p : Program) : String := String.join (p.lines.map (· ++ "\n"))

end Program

end Listing

end Scheduling
