import Scheduling.Domains
import Scheduling.Model.Basic
import Scheduling.Solution

/-!
# Records

The data that goes between a client and an engine. A record of a model lists the nodes that have a
number; every other node stands inside the one place that uses it.
-/

namespace Scheduling

mutual

/-- An argument in a record: a literal, a list, the number of a node, or a node itself. -/
inductive ArgRecord where
  | ref (number : Nat)
  | inline (n : NodeRecord)
  | bool (b : Bool)
  | int (v : Int)
  | float (x : Float)
  | list (items : List ArgRecord)

/-- A node in a record. -/
inductive NodeRecord where
  | mk (operator : Operator) (args : List ArgRecord) (attributes : Attributes)

end

namespace NodeRecord

/-- What the node computes. -/
def operator : NodeRecord → Operator
  | mk operator _ _ => operator

/-- The arguments of the node. -/
def args : NodeRecord → List ArgRecord
  | mk _ args _ => args

/-- What the node carries beside its arguments. -/
def attributes : NodeRecord → Attributes
  | mk _ _ attributes => attributes

end NodeRecord

/-- An objective in a record. -/
structure ObjectiveRecord where
  sense : Sense
  expr : ArgRecord

/-- A model as a record. -/
structure ModelRecord where
  name : Option String
  /-- The nodes with a number, in the order of their numbers. -/
  refs : List NodeRecord
  /-- The constraints. -/
  topLevel : List ArgRecord
  objective : Option ObjectiveRecord

/-- A solution as a record: values of variables by number. -/
structure SolutionRecord where
  objective : ObjectiveValue
  values : List (Nat × SolutionValue)
deriving DecidableEq, Repr

/-- Domains as a record: whether there are none because nothing is feasible, and otherwise the
domains of variables by number. -/
structure DomainsRecord where
  infeasible : Bool
  duration : Float
  domains : List (Nat × Domain)
deriving DecidableEq, Repr

/-- The final statistics of a solve. -/
structure Summary where
  nbSolutions : Nat
  lowerBound : Option Float
  objective : Option Float
  sense : Option Sense
  duration : Float
  proof : Bool
  nbBranches : Option Nat
  nbFails : Option Nat
  nbLnsSteps : Option Nat
  nbRestarts : Option Nat
  memoryUsed : Option Nat
  nbIntVars : Option Nat
  nbIntervalVars : Option Nat
  nbConstraints : Option Nat
  nbWorkers : Option Nat
  solver : Option String
  cpu : Option String
deriving DecidableEq, Repr, Inhabited

namespace Summary

/-- A summary that gives no optional figure. -/
def plain (nbSolutions : Nat) (duration : Float) (proof : Bool) : Summary :=
  ⟨nbSolutions, none, none, none, duration, proof, none, none, none, none, none, none, none, none,
    none, none, none⟩

end Summary

/-- A solution found by an engine, as a record. -/
structure FoundRecord where
  solveTime : Float
  /-- Whether the engine checked the solution, and what it found. -/
  valid : Option Bool
  solution : SolutionRecord
deriving DecidableEq, Repr

/-- A line from an engine to a client. -/
inductive EventRecord where
  | log (text : String)
  | trace (text : String)
  | warning (text : String)
  | error (text : String)
  | solution (found : FoundRecord)
  | lowerBound (solveTime value : Float)
  | summary (s : Summary)
  | domains (d : DomainsRecord)
  | text (text : String)
deriving DecidableEq, Repr

/-- A line from a client to an engine, with parameters of some type. -/
inductive Command (P : Type) where
  | solve (model : ModelRecord) (parameters : P) (warmStart : Option SolutionRecord)
  | propagate (model : ModelRecord) (parameters : P)
  | toText (model : ModelRecord) (parameters : P) (warmStart : Option SolutionRecord)
  | stop (reason : String)
  | solution (s : SolutionRecord)

end Scheduling
