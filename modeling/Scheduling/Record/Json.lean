import Scheduling.Json.Shape
import Scheduling.Record.Basic

/-!
# Records as JSON

The JSON value of every record, and the record of a JSON value. Members that have no value are left
out when written and may be missing or null when read.
-/

namespace Scheduling

namespace Json

mutual

/-- How deep arrays and objects are nested in a value. -/
def depth : Json → Nat
  | arr items => depthOfItems items + 1
  | obj members => depthOfMembers members + 1
  | _ => 1

/-- How deep the deepest item is nested. -/
def depthOfItems : List Json → Nat
  | [] => 0
  | j :: rest => max (depth j) (depthOfItems rest)

/-- How deep the deepest member is nested. -/
def depthOfMembers : List (String × Json) → Nat
  | [] => 0
  | (_, j) :: rest => max (depth j) (depthOfMembers rest)

end

/-- A table of integers. -/
def ofTable (rows : List (List Int)) : Json := arr (rows.map fun row => arr (row.map int))

/-- The table of a JSON value. -/
def table? : Json → Option (List (List Int)) := list? (list? int64?)

end Json

namespace Bounds

/-- The keys of bounds. -/
def keys : List String :=
  ["min", "max", "startMin", "startMax", "endMin", "endMax", "lengthMin", "lengthMax"]

/-- The members of bounds. -/
def members (b : Bounds) : List (String × Json) :=
  Json.member? "min" b.min .float ++ Json.member? "max" b.max .float
    ++ Json.member? "startMin" b.startMin .int ++ Json.member? "startMax" b.startMax .int
    ++ Json.member? "endMin" b.endMin .int ++ Json.member? "endMax" b.endMax .int
    ++ Json.member? "lengthMin" b.lengthMin .int ++ Json.member? "lengthMax" b.lengthMax .int

/-- The bounds among the fields of a record. -/
def ofFields? (fs : JsonFields) : Option Bounds := do
  some {
    min := ← fs.optional? "min" Json.float?
    max := ← fs.optional? "max" Json.float?
    startMin := ← fs.optional? "startMin" Json.int64?
    startMax := ← fs.optional? "startMax" Json.int64?
    endMin := ← fs.optional? "endMin" Json.int64?
    endMax := ← fs.optional? "endMax" Json.int64?
    lengthMin := ← fs.optional? "lengthMin" Json.int64?
    lengthMax := ← fs.optional? "lengthMax" Json.int64? }

end Bounds

/-! ## Models -/

namespace NodeRecord

/-- The keys of a node. -/
def keys : List String := ["func", "args", "name", "status"] ++ Bounds.keys ++ ["values"]

end NodeRecord

namespace ArgRecord

mutual

/-- The JSON value of an argument. -/
def toJson : ArgRecord → Json
  | ref number => .obj [("ref", .int number)]
  | inline n => .obj [("arg", nodeToJson n)]
  | bool b => .bool b
  | int v => .int v
  | float x => .float x
  | list items => .arr (listToJson items)

/-- The JSON values of arguments. -/
def listToJson : List ArgRecord → List Json
  | [] => []
  | a :: rest => toJson a :: listToJson rest

/-- The JSON value of a node. -/
def nodeToJson : NodeRecord → Json
  | .mk operator args attributes =>
    .obj ([("func", .str operator.tag)]
      ++ (match listToJson args with
        | [] => []
        | items => [("args", .arr items)])
      ++ Json.member? "name" attributes.name .str
      ++ Json.member? "status" attributes.presence (fun p => .str p.tag)
      ++ attributes.bounds.members
      ++ Json.member? "values" attributes.values Json.ofTable)

end

/-- A node, given how its choices and arguments are read. -/
def nodeWith? (unit : UnitForm) (arg : Json → Option ArgRecord) (j : Json) :
    Option NodeRecord := do
  let fs ← j.fields? NodeRecord.keys ["func"]
  let operator ← fs.required? "func" (Json.named? unit Operator.ofTag?)
  let args ← fs.withDefault? "args" [] (Json.list? arg)
  let name ← fs.optional? "name" Json.string?
  let presence ← fs.optional? "status" (Json.named? unit Presence.ofTag?)
  let bounds ← Bounds.ofFields? fs
  let values ← fs.optional? "values" Json.table?
  some (.mk operator args ⟨name, presence, bounds, values⟩)

/-- The first of two readings that succeeds. -/
def either {α : Type} (a b : Option α) : Option α :=
  match a with
  | some x => some x
  | none => b

/-- An argument nested at most `depth` deep. The forms are tried in turn: a number of a node, a
node, a truth value, an integer, a float, a list. -/
def readTo? : (depth : Nat) → Json → Option ArgRecord
  | 0, _ => none
  | depth + 1, j =>
    match j with
    | .obj members =>
      either
        (do
          let fs ← Json.knownMembers? ["ref"] members
          let number ← fs.required? "ref" Json.nat32?
          some (ref number))
        (do
          let fs ← Json.knownMembers? ["arg"] members
          let n ← fs.required? "arg" (nodeWith? .null (readTo? depth))
          some (inline n))
    | .bool b => some (bool b)
    | .int v => if Fits v then some (int v) else some (float (.ofInt v))
    | .float x => some (float x)
    | .arr items => (items.mapM (readTo? depth)).map list
    | _ => none

/-- The argument of a JSON value. All of it has to be readable. -/
def ofJson? (j : Json) : Option ArgRecord := if j.isSound then readTo? j.depth j else none

end ArgRecord

namespace NodeRecord

/-- The JSON value of a node. -/
def toJson : NodeRecord → Json := ArgRecord.nodeToJson

/-- The node of a JSON value. -/
def ofJson? (unit : UnitForm) : Json → Option NodeRecord :=
  ArgRecord.nodeWith? unit ArgRecord.ofJson?

end NodeRecord

namespace ObjectiveRecord

/-- The JSON value of an objective. -/
def toJson (o : ObjectiveRecord) : Json :=
  .obj [("sense", .str o.sense.tag), ("expr", o.expr.toJson)]

/-- The objective of a JSON value. -/
def ofJson? (unit : UnitForm) (j : Json) : Option ObjectiveRecord := do
  let fs ← j.fields? ["sense", "expr"] ["sense", "expr"]
  let sense ← fs.required? "sense" (Json.named? unit Sense.ofTag?)
  let expr ← fs.required? "expr" ArgRecord.ofJson?
  some ⟨sense, expr⟩

end ObjectiveRecord

namespace ModelRecord

/-- The JSON value of a model. -/
def toJson (m : ModelRecord) : Json :=
  .obj (Json.member? "name" m.name .str
    ++ [("refs", .arr (m.refs.map NodeRecord.toJson)),
      ("model", .arr (ArgRecord.listToJson m.topLevel))]
    ++ Json.member? "objective" m.objective ObjectiveRecord.toJson)

/-- The model of a JSON value. -/
def ofJson? (unit : UnitForm) (j : Json) : Option ModelRecord := do
  let fs ← j.fields? ["name", "refs", "model", "objective"] ["refs", "model"]
  let name ← fs.optional? "name" Json.string?
  let refs ← fs.required? "refs" (Json.list? (NodeRecord.ofJson? unit))
  let topLevel ← fs.required? "model" (Json.list? ArgRecord.ofJson?)
  let objective ← fs.optional? "objective" (ObjectiveRecord.ofJson? unit)
  some ⟨name, refs, topLevel, objective⟩

end ModelRecord

/-! ## Solutions -/

namespace ObjectiveValue

/-- The member of an objective: none when it is undefined, null when it is absent. -/
def members (o : ObjectiveValue) : List (String × Json) :=
  if o.isUndefined then [] else [("objective", o.toJson)]

/-- The objective among the fields of a record. -/
def ofFields? (fs : JsonFields) : Option ObjectiveValue :=
  match fs.lookup "objective" with
  | none => some undefined
  | some .null => some absent
  | some j => j.float?.map value

end ObjectiveValue

namespace SolutionRecord

/-- The JSON value of the value of a variable. -/
def valueToJson (v : Nat × SolutionValue) : Json :=
  .obj [("id", .int v.1), ("value", v.2.toJson)]

/-- The value of a variable. In an object it may be missing, which makes the variable absent. -/
def value? (j : Json) : Option (Nat × SolutionValue) := do
  let fs ← j.fields? ["id", "value"] ["id", "value"]
  let id ← fs.required? "id" Json.nat32?
  let value ← fs.withDefault? "value" SolutionValue.absent SolutionValue.ofJson?
  some (id, value)

/-- The member with the values. -/
def valuesMember (values : List (Nat × SolutionValue)) : String × Json :=
  ("values", .arr (values.map valueToJson))

/-- The JSON value of a solution. -/
def toJson (s : SolutionRecord) : Json := .obj (s.objective.members ++ [valuesMember s.values])

/-- The solution of a JSON value. -/
def ofJson? (j : Json) : Option SolutionRecord := do
  let fs ← j.fields? ["objective", "values"] ["values"]
  let objective ← ObjectiveValue.ofFields? fs
  let values ← fs.required? "values" (Json.list? value?)
  some ⟨objective, values⟩

end SolutionRecord

/-! ## Domains -/

namespace DomainsRecord

/-- The JSON value of the domain of a variable. -/
def domainToJson (d : Nat × Domain) : Json :=
  .obj ([("id", .int d.1)] ++ Json.member? "presence" d.2.presence (fun p => .str p.tag)
    ++ d.2.bounds.members)

/-- The domain of a variable. -/
def domain? (j : Json) : Option (Nat × Domain) :=
  match j with
  | .obj members => do
    let fs ← Json.knownMembers? (["id", "presence"] ++ Bounds.keys) members
    let id ← fs.required? "id" Json.nat32?
    let presence ← fs.optional? "presence" (Json.named? .nullOrObject Presence.ofTag?)
    let bounds ← Bounds.ofFields? fs
    some (id, ⟨presence, bounds⟩)
  | _ => none

/-- The members of domains. -/
def members (d : DomainsRecord) : List (String × Json) :=
  (if d.infeasible then [("infeasible", .bool true)] else [])
    ++ [("duration", .float d.duration), ("domains", .arr (d.domains.map domainToJson))]

/-- The domains of a JSON value. -/
def ofJson? (j : Json) : Option DomainsRecord := do
  let fs ← j.fields? ["infeasible", "duration", "domains"] ["duration"]
  let infeasible ← fs.withDefault? "infeasible" false Json.bool?
  let duration ← fs.required? "duration" Json.float?
  let domains ← fs.withDefault? "domains" [] (Json.list? domain?)
  some ⟨infeasible, duration, domains⟩

end DomainsRecord

/-! ## Events -/

namespace Summary

/-- The keys of a summary. -/
def keys : List String :=
  ["nbSolutions", "lowerBound", "objective", "objectiveSense", "duration", "proof", "nbBranches",
    "nbFails", "nbLNSSteps", "nbRestarts", "memoryUsed", "nbIntVars", "nbIntervalVars",
    "nbConstraints", "nbWorkers", "solver", "cpu"]

/-- The members of a summary. -/
def members (s : Summary) : List (String × Json) :=
  let count (key : String) (n : Option Nat) := Json.member? key n fun n => .int n
  [("nbSolutions", .int s.nbSolutions)]
    ++ Json.member? "lowerBound" s.lowerBound .float
    ++ Json.member? "objective" s.objective .float
    ++ Json.member? "objectiveSense" s.sense (fun d => .str d.tag)
    ++ [("duration", .float s.duration), ("proof", .bool s.proof)]
    ++ count "nbBranches" s.nbBranches ++ count "nbFails" s.nbFails
    ++ count "nbLNSSteps" s.nbLnsSteps ++ count "nbRestarts" s.nbRestarts
    ++ count "memoryUsed" s.memoryUsed ++ count "nbIntVars" s.nbIntVars
    ++ count "nbIntervalVars" s.nbIntervalVars ++ count "nbConstraints" s.nbConstraints
    ++ count "nbWorkers" s.nbWorkers
    ++ Json.member? "solver" s.solver .str ++ Json.member? "cpu" s.cpu .str

/-- The JSON value of a summary. -/
def toJson (s : Summary) : Json := .obj s.members

/-- The summary of a JSON value. -/
def ofJson? (unit : UnitForm) (j : Json) : Option Summary := do
  let fs ← j.fields? keys ["nbSolutions", "duration", "proof"]
  some {
    nbSolutions := ← fs.required? "nbSolutions" Json.nat64?
    lowerBound := ← fs.optional? "lowerBound" Json.float?
    objective := ← fs.optional? "objective" Json.float?
    sense := ← fs.optional? "objectiveSense" (Json.named? unit Sense.ofTag?)
    duration := ← fs.required? "duration" Json.float?
    proof := ← fs.required? "proof" Json.bool?
    nbBranches := ← fs.optional? "nbBranches" Json.nat64?
    nbFails := ← fs.optional? "nbFails" Json.nat64?
    nbLnsSteps := ← fs.optional? "nbLNSSteps" Json.nat64?
    nbRestarts := ← fs.optional? "nbRestarts" Json.nat64?
    memoryUsed := ← fs.optional? "memoryUsed" Json.nat64?
    nbIntVars := ← fs.optional? "nbIntVars" Json.nat64?
    nbIntervalVars := ← fs.optional? "nbIntervalVars" Json.nat64?
    nbConstraints := ← fs.optional? "nbConstraints" Json.nat64?
    nbWorkers := ← fs.optional? "nbWorkers" Json.nat32?
    solver := ← fs.optional? "solver" Json.string?
    cpu := ← fs.optional? "cpu" Json.string? }

end Summary

namespace EventRecord

/-- A tagged record. -/
def tagged (tag : String) (members : List (String × Json)) : Json :=
  .obj (("msg", .str tag) :: members)

/-- The JSON value of an event. -/
def toJson : EventRecord → Json
  | log line => tagged "log" [("data", .str line)]
  | trace line => tagged "trace" [("data", .str line)]
  | warning line => tagged "warning" [("data", .str line)]
  | error line => tagged "error" [("data", .str line)]
  | solution found =>
    tagged "solution" ([("solveTime", .float found.solveTime)] ++ found.solution.objective.members
      ++ Json.member? "valid" found.valid .bool
      ++ [SolutionRecord.valuesMember found.solution.values])
  | lowerBound solveTime value =>
    tagged "lowerBound" [("solveTime", .float solveTime), ("value", .float value)]
  | summary s => tagged "summary" s.members
  | domains d => tagged "domains" d.members
  | text content => tagged "text" [("data", .str content)]

/-- The text of an event that is nothing but a text. -/
def data? (j : Json) : Option String := do
  let fs ← j.fields? ["data"] ["data"]
  fs.required? "data" Json.string?

/-- The event of a JSON value. -/
def ofJson? (j : Json) : Option EventRecord := do
  let (tag, j) ← j.tagged? "msg"
  match tag with
  | "log" => (data? j).map log
  | "trace" => (data? j).map trace
  | "warning" => (data? j).map warning
  | "error" => (data? j).map error
  | "text" => (data? j).map text
  | "solution" => do
    let fs ← j.fields? ["solveTime", "objective", "valid", "values"] ["solveTime", "values"]
    let solveTime ← fs.required? "solveTime" Json.float?
    let objective ← ObjectiveValue.ofFields? fs
    let valid ← fs.optional? "valid" Json.bool?
    let values ← fs.required? "values" (Json.list? SolutionRecord.value?)
    some (solution ⟨solveTime, valid, ⟨objective, values⟩⟩)
  | "lowerBound" => do
    let fs ← j.fields? ["solveTime", "value"] ["solveTime", "value"]
    let solveTime ← fs.required? "solveTime" Json.float?
    let value ← fs.required? "value" Json.float?
    some (lowerBound solveTime value)
  | "summary" => (Summary.ofJson? .nullOrObject j).map summary
  | "domains" => (DomainsRecord.ofJson? j).map domains
  | _ => none

end EventRecord

/-! ## Commands -/

namespace Command

/-- The JSON value of a command, given the one of its parameters. -/
def toJson {P : Type} (write : P → Json) : Command P → Json
  | solve model parameters warmStart =>
    EventRecord.tagged "solve" ([("model", model.toJson), ("parameters", write parameters)]
      ++ Json.member? "warmStart" warmStart SolutionRecord.toJson)
  | propagate model parameters =>
    EventRecord.tagged "propagate" [("model", model.toJson), ("parameters", write parameters)]
  | toText model parameters warmStart =>
    EventRecord.tagged "toText" ([("model", model.toJson), ("parameters", write parameters)]
      ++ Json.member? "warmStart" warmStart SolutionRecord.toJson)
  | stop reason => EventRecord.tagged "stop" [("reason", .str reason)]
  | solution s => EventRecord.tagged "solution" [("solution", s.toJson)]

/-- The command of a JSON value, given how its parameters are read. -/
def ofJson? {P : Type} (read : Json → Option P) (j : Json) : Option (Command P) := do
  let (tag, j) ← j.tagged? "msg"
  match tag with
  | "solve" => do
    let fs ← j.fields? ["model", "parameters", "warmStart"] ["model", "parameters"]
    let model ← fs.required? "model" (ModelRecord.ofJson? .nullOrObject)
    let parameters ← fs.required? "parameters" read
    let warmStart ← fs.optional? "warmStart" SolutionRecord.ofJson?
    some (solve model parameters warmStart)
  | "propagate" => do
    let fs ← j.fields? ["model", "parameters"] ["model", "parameters"]
    let model ← fs.required? "model" (ModelRecord.ofJson? .nullOrObject)
    let parameters ← fs.required? "parameters" read
    some (propagate model parameters)
  | "toText" => do
    let fs ← j.fields? ["model", "parameters", "warmStart"] ["model", "parameters"]
    let model ← fs.required? "model" (ModelRecord.ofJson? .nullOrObject)
    let parameters ← fs.required? "parameters" read
    let warmStart ← fs.optional? "warmStart" SolutionRecord.ofJson?
    some (toText model parameters warmStart)
  | "stop" => do
    let fs ← j.fields? ["reason"] ["reason"]
    let reason ← fs.required? "reason" Json.string?
    some (stop reason)
  | "solution" => do
    let fs ← j.fields? ["solution"] ["solution"]
    let s ← fs.required? "solution" SolutionRecord.ofJson?
    some (solution s)
  | _ => none

end Command

end Scheduling
