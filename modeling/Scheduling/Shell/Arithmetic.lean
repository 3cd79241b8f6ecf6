import Scheduling.Arith
import Scheduling.Shell.Reader
import Scheduling.Text.Blank

/-!
# Arithmetic of a shell

The value of an integer expression with variables. Integers have 64 bits, and results beyond them
are carried out modulo these.
-/

namespace Scheduling

namespace Shell

/-- The variables of a script. -/
abbrev Bindings := List (Octets × Octets)

/-- Sets a variable. -/
def Bindings.put (b : Bindings) (name value : Octets) : Bindings :=
  (name, value) :: b.filter (·.1 ≠ name)

namespace Arithmetic

/-- The integer of 64 bits that agrees with an integer modulo these. -/
def wrapped (v : Int) : Int := Int.bmod v (wordMax.toNat + 1)

/-- The value of digits in a base, if they all belong to it. -/
def inBase? (base : Nat) (cs : Octets) : Option Int := do
  let digit (c : Char) : Option Nat :=
    let n :=
      if c.isDigit then c.toNat - 48
      else if c.isAlpha then c.toLower.toNat - 87
      else base
    if n < base then some n else none
  if cs.isEmpty then none
  else
    let ds ← cs.mapM digit
    some (ds.foldl (fun n d => base * n + d) 0 : Nat)

/-- The value of a number: decimal, octal after a zero, or hexadecimal. -/
def number? : Octets → Option Int
  | '0' :: 'x' :: digits | '0' :: 'X' :: digits => inBase? 16 digits
  | '0' :: d :: digits => inBase? 8 (d :: digits)
  | digits => inBase? 10 digits

/-- How a part of an expression is evaluated. -/
structure Mode where
  /-- Whether its value is needed; otherwise it changes nothing and cannot go wrong. -/
  counts : Bool
  /-- Whether variables have to be set. -/
  strict : Bool

/-- The mode of a part that is only needed under a condition. -/
def Mode.onlyIf (m : Mode) (condition : Bool) : Mode := { m with counts := m.counts && condition }

/-- The value of a variable; one that is not set is zero, and so is one that is not needed. -/
def valueOf? (m : Mode) (b : Bindings) (name : Octets) : Option Int :=
  match m.counts, b.lookup name with
  | false, _ => some 0
  | true, none => if m.strict then none else some 0
  | true, some t =>
    match trimBlanks t with
    | [] => some 0
    | '-' :: cs => (number? cs).map (- ·)
    | '+' :: cs => number? cs
    | cs => number? cs

/-- The operators with two sides, by how tightly they bind; longer ones first. -/
def operators : List (List String) :=
  [["||"], ["&&"], ["|"], ["^"], ["&"], ["==", "!="], ["<=", ">=", "<", ">"], ["<<", ">>"],
    ["+", "-"], ["*", "/", "%"]]

/-- The result of an operator; there is none for a zero divisor, unless it is not needed. -/
def apply (m : Mode) (operator : String) (a b : Int) : Option Int :=
  match operator with
  | "||" => some (ofTruth (a ≠ 0 ∨ b ≠ 0))
  | "&&" => some (ofTruth (a ≠ 0 ∧ b ≠ 0))
  | "|" => some (wrapped ((a.toInt64 ||| b.toInt64).toInt))
  | "^" => some (wrapped ((a.toInt64 ^^^ b.toInt64).toInt))
  | "&" => some (wrapped ((a.toInt64 &&& b.toInt64).toInt))
  | "==" => some (ofTruth (a = b))
  | "!=" => some (ofTruth (a ≠ b))
  | "<=" => some (ofTruth (a ≤ b))
  | ">=" => some (ofTruth (b ≤ a))
  | "<" => some (ofTruth (a < b))
  | ">" => some (ofTruth (b < a))
  | "<<" => some (a.toInt64 <<< b.toInt64).toInt
  | ">>" => some (a.toInt64 >>> b.toInt64).toInt
  | "+" => some (wrapped (a + b))
  | "-" => some (wrapped (a - b))
  | "*" => some (wrapped (a * b))
  | "/" => if b = 0 then (if m.counts then none else some 0) else some (wrapped (a.tdiv b))
  | "%" => if b = 0 then (if m.counts then none else some 0) else some (a.tmod b)
  | _ => none

/-- Skips blanks. -/
def skip (cs : Octets) : Octets := cs.dropWhile Char.isWhitespace

/-- The operator of a list that comes next. An operator of one mark is not meant where a longer one
stands, or an assignment. -/
def operatorAt? (names : List String) (cs : Octets) : Option (String × Octets) :=
  names.findSome? fun name =>
    let w := name.toList
    let rest := cs.drop w.length
    let longer : Bool := match rest with
      | d :: _ => w.length = 1 && (d == '=' && !(["<", ">"].contains name)
          || (some d == w.head? && ["|", "&", "<", ">"].contains name))
      | [] => false
    if cs.take w.length = w ∧ !longer then some (name, rest) else none

/-- An assignment at the start of a text: the variable, the operator before the equals sign, and the
text after it. -/
def assignmentAt? (cs : Octets) : Option (Octets × Option String × Octets) :=
  let name := nameAt cs
  if name.isEmpty then none
  else
    match skip (cs.drop name.length) with
    | '=' :: rest => if rest.head? = some '=' then none else some (name, none, rest)
    | rest =>
      let names := ["<<", ">>", "+", "-", "*", "/", "%", "&", "^", "|"]
      names.findSome? fun operator =>
        let w := operator.toList
        if rest.take w.length = w ∧ (rest.drop w.length).head? = some '=' then
          some (name, some operator, rest.drop (w.length + 1))
        else none

mutual

/-- Evaluates an assignment or a choice. -/
def whole : (fuel : Nat) → Mode → Bindings → Octets → Option (Int × Bindings × Octets)
  | 0, _, _, _ => none
  | fuel + 1, m, b, cs =>
    let cs := skip cs
    match assignmentAt? cs with
    | some (name, operator, rest) => do
      let (v, b, rest) ← whole fuel m b rest
      let v ← match operator with
        | none => some v
        | some operator => apply m operator (← valueOf? m b name) v
      some (v, if m.counts then b.put name (intText v).toList else b, rest)
    | none => choice fuel m b cs

/-- Evaluates a choice between two values. -/
def choice : (fuel : Nat) → Mode → Bindings → Octets →
    Option (Int × Bindings × Octets)
  | 0, _, _, _ => none
  | fuel + 1, m, b, cs => do
    let (v, b, rest) ← level fuel m operators b cs
    match skip rest with
    | '?' :: rest => do
      let (yes, b, rest) ← whole fuel (m.onlyIf (v ≠ 0)) b rest
      match skip rest with
      | ':' :: rest => do
        let (no, b, rest) ← choice fuel (m.onlyIf (v = 0)) b rest
        some (if v ≠ 0 then yes else no, b, rest)
      | _ => none
    | rest => some (v, b, rest)

/-- Evaluates operators that bind at least as tightly as the first of some. -/
def level : (fuel : Nat) → Mode → List (List String) → Bindings → Octets →
    Option (Int × Bindings × Octets)
  | 0, _, _, _, _ => none
  | fuel + 1, m, [], b, cs => single fuel m b cs
  | fuel + 1, m, names :: tighter, b, cs => do
    let (v, b, rest) ← level fuel m tighter b cs
    more fuel m names tighter v b rest

/-- Goes on with operators of one kind after a value. -/
def more : (fuel : Nat) → Mode → List String → List (List String) → Int → Bindings →
    Octets → Option (Int × Bindings × Octets)
  | 0, _, _, _, _, _, _ => none
  | fuel + 1, m, names, tighter, v, b, cs =>
    match operatorAt? names (skip cs) with
    | none => some (v, b, cs)
    | some (operator, rest) => do
      let needed := !(operator = "||" && v ≠ 0) && !(operator = "&&" && v = 0)
      let (w, b, rest) ← level fuel (m.onlyIf needed) tighter b rest
      more fuel m names tighter (← apply m operator v w) b rest

/-- Evaluates a number, a variable, a sign or brackets. -/
def single : (fuel : Nat) → Mode → Bindings → Octets →
    Option (Int × Bindings × Octets)
  | 0, _, _, _ => none
  | fuel + 1, m, b, cs =>
    match skip cs with
    | '-' :: rest => do
      let (v, b, rest) ← single fuel m b rest
      some (wrapped (-v), b, rest)
    | '+' :: rest => single fuel m b rest
    | '!' :: rest => do
      let (v, b, rest) ← single fuel m b rest
      some (ofTruth (v = 0), b, rest)
    | '~' :: rest => do
      let (v, b, rest) ← single fuel m b rest
      some (-v - 1, b, rest)
    | '(' :: rest => do
      let (v, b, rest) ← whole fuel m b rest
      match skip rest with
      | ')' :: rest => some (v, b, rest)
      | _ => none
    | cs =>
      let name := nameAt cs
      if name.isEmpty then
        let digits := cs.takeWhile Char.isAlphanum
        (number? digits).map fun v => (wrapped v, b, cs.drop digits.length)
      else (valueOf? m b name).map fun v => (v, b, cs.drop name.length)

end

/-- The value of an expression, and the variables after it. -/
def value? (strict : Bool) (b : Bindings) (cs : Octets) : Option (Int × Bindings) := do
  let (v, b, rest) ← whole (16 * cs.length + 16) ⟨true, strict⟩ b cs
  if (skip rest).isEmpty then some (v, b) else none

end Arithmetic

end Shell

end Scheduling
