import Scheduling.Eval.Error
import Scheduling.Model.Basic

/-!
# Queries

An evaluation that looks at one node and asks for the values of others. A query says nothing about
how the values are found: it can be answered from scratch, or from values that were found before.
-/

namespace Scheduling

/-- The value of a node under a solution. -/
inductive Value where
  | absent
  | bool (b : Bool)
  | int (v : Int)
  | float (x : Float)
  | interval (start finish : Int)
deriving DecidableEq, Repr

namespace Value

/-- Whether there is no value. -/
def isAbsent : Value → Bool
  | absent => true
  | _ => false

/-- The value as an integer; a truth value is 0 or 1. -/
def int? : Value → Option Int
  | bool b => some (ofTruth b)
  | int v => some v
  | _ => none

/-- The value as a float. -/
def float? : Value → Option Float
  | bool b => some (Float.ofInt (ofTruth b))
  | int v => some (Float.ofInt v)
  | float x => some x
  | _ => none

/-- The value as a truth value; an integer is true unless it is zero. -/
def bool? : Value → Option Bool
  | bool b => some b
  | int v => some (v ≠ 0)
  | _ => none

/-- The start and the end of an interval. -/
def interval? : Value → Option (Int × Int)
  | interval start finish => some (start, finish)
  | _ => none

/-- An integer, absent when there is none. -/
def ofInt? : Option Int → Value
  | some v => int v
  | none => absent

/-- A float, absent when there is none. -/
def ofFloat? : Option Float → Value
  | some x => float x
  | none => absent

/-- A truth value, absent when there is none. -/
def ofBool? : Option Bool → Value
  | some b => bool b
  | none => absent

end Value

/-- An evaluation that asks for the values of nodes. -/
inductive Query (α : Type) where
  | answer (a : α)
  | fail (e : EvalError)
  | ask (id : NodeId) (next : Value → Query α)

namespace Query

/-- Goes on with the answer of a query. -/
def bind {α β : Type} : Query α → (α → Query β) → Query β
  | answer a, f => f a
  | fail e, _ => fail e
  | ask id next, f => ask id fun v => bind (next v) f

instance : Monad Query where
  pure := answer
  bind := bind

/-- The value of a node. -/
def value (id : NodeId) : Query Value := ask id answer

/-- An integer that has to fit in 64 bits. -/
def fitting (v : Int) : Query Int := if Fits v then answer v else fail .overflow

/-- Answers a query, given the value of each node. -/
def resolve {α : Type} (value : NodeId → Except EvalError Value) : Query α → Except EvalError α
  | answer a => .ok a
  | fail e => .error e
  | ask id next =>
    match value id with
    | .ok v => resolve value (next v)
    | .error e => .error e

/-- The values that were found before, by position. -/
abbrev Memory := Array (Option Value)

/-- An evaluation that remembers values. A failed one keeps what it found before it failed. -/
abbrev Remembering (α : Type) := Memory → Except EvalError α × Memory

/-- Answers a query, given a way to find the value of each node that remembers values. -/
def resolveWith {α : Type} (value : NodeId → Remembering Value) : Query α → Remembering α
  | answer a, memory => (.ok a, memory)
  | fail e, memory => (.error e, memory)
  | ask id next, memory =>
    match value id memory with
    | (.ok v, memory) => resolveWith value (next v) memory
    | (.error e, memory) => (.error e, memory)

end Query

end Scheduling
