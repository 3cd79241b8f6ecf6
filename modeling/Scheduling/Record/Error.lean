import Scheduling.Record.Basic
import Scheduling.Text.Quoted

/-!
# Errors of the protocol

Why a message cannot be written or read.
-/

namespace Scheduling

/-- Why a message cannot be written or read. -/
inductive ProtocolError where
  /-- The text is not the JSON value of a message. -/
  | unreadable
  | unknownId (number : Nat)
  | danglingRef (number : Nat)
  | cycle (number : Nat)
  /-- An engine calls its own solution wrong. -/
  | invalidSolution
  /-- A solution has a value for something else than a variable. -/
  | notVariable (id : NodeId)
  /-- A record has something else where a node has to be. -/
  | notReference (found : Arg)
  /-- An engine ends another command than the one that was sent. -/
  | unexpectedEnd (command line : String)
  /-- An engine ends a command without its result. -/
  | missing (what : String)
  | model (e : ModelError)
deriving Repr

namespace Arg

mutual

/-- The full text of an argument. -/
def describe : Arg → String
  | int v => "Int(" ++ intText v ++ ")"
  | float x => "Float(" ++ Layout.literal.write x ++ ")"
  | bool b => "Bool(" ++ (if b then "true" else "false") ++ ")"
  | node id => "Node(" ++ id.describe ++ ")"
  | list items => "List([" ++ describeItems items true ++ "])"

/-- The full texts of arguments, with commas between them. -/
def describeItems : List Arg → (first : Bool) → String
  | [], _ => ""
  | a :: rest, first => (if first then "" else ", ") ++ describe a ++ describeItems rest false

end

end Arg

namespace ProtocolError

/-- The wording of an error. -/
def message : ProtocolError → String
  | unreadable => "malformed JSON message: not a message"
  | unknownId number => "id " ++ Nat.repr number ++ " is not a variable of the model"
  | danglingRef number => "reference " ++ Nat.repr number ++ " does not exist"
  | cycle number => "reference cycle through node " ++ Nat.repr number
  | invalidSolution => "engine reported an invalid solution"
  | notVariable id =>
    "malformed message: node " ++ id.short
      ++ " is not a variable and cannot carry a solution value"
  | notReference found =>
    "malformed message: expected a node reference, found " ++ found.describe
  | unexpectedEnd command line =>
    "malformed message: unexpected terminal event for " ++ command ++ ": " ++ line
  | missing what => "malformed message: engine sent no " ++ what
  | model e => e.message

end ProtocolError

end Scheduling
