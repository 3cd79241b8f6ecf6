import Scheduling.Record.Request

/-!
# Documents

A problem in one JSON text: a model, and the parameters and the warm start that go with it.
-/

namespace Scheduling

/-- A model with the parameters and the warm start that go with it. -/
structure Problem (P : Type) where
  model : Model
  parameters : Option P
  warmStart : Option Solution

namespace Problem

variable {P : Type}

/-- The JSON text of a problem, indented, given the JSON value of its parameters. -/
def document (write : P → Json) (p : Problem P) : Except ProtocolError String := do
  let model ← p.model.record
  let warmStart ← p.model.warmStartRecord p.warmStart
  pure <| Json.pretty <| .obj ([("model", model.toJson)]
    ++ Json.member? "parameters" p.parameters write
    ++ Json.member? "warmStart" warmStart SolutionRecord.toJson)

/-- The records in the JSON value of a document, given how its parameters are read. -/
def records? (read : Json → Option P) (j : Json) :
    Option (ModelRecord × Option P × Option SolutionRecord) := do
  let fs ← j.fields? ["model", "parameters", "warmStart"] ["model"]
  let model ← fs.required? "model" (ModelRecord.ofJson? .null)
  let parameters ← fs.optional? "parameters" read
  let warmStart ← fs.optional? "warmStart" SolutionRecord.ofJson?
  some (model, parameters, warmStart)

/-- The problem of a document. The nodes of its model get a tag. -/
def ofDocument (read : Json → Option P) (tag : Nat) (text : String) :
    Except ProtocolError (Problem P) :=
  match (Json.ofText? text).bind (records? read) with
  | none => .error .unreadable
  | some (model, parameters, warmStart) => do
    let m ← Model.ofRecord tag model
    let warmStart ← m.warmStart warmStart
    pure ⟨m, parameters, warmStart⟩

end Problem

end Scheduling
