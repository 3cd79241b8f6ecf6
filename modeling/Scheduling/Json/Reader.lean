import Scheduling.Json.Number

/-!
# Reading JSON

A text is read as far as it is JSON. `Json.read` gives the value and whether the whole text was
read; the value of a text that breaks off holds a flaw at the place. Values nested deeper than
`depthMax` levels are unreadable.
-/

namespace Scheduling

namespace Json

/-- How many levels of arrays and objects a readable value has at most. -/
def depthMax : Nat := 127

/-- Skips blanks. -/
def skipBlanks (cs : List Char) : List Char :=
  cs.dropWhile fun c => c = ' ' || c = '\n' || c = '\t' || c = '\r'

/-- The value of a hexadecimal digit. -/
def hexValue (c : Char) : Option Nat :=
  if c.isDigit then some (digitValue c)
  else if 'a' ≤ c ∧ c ≤ 'f' then some (c.toNat - 'a'.toNat + 10)
  else if 'A' ≤ c ∧ c ≤ 'F' then some (c.toNat - 'A'.toNat + 10)
  else none

/-- Four hexadecimal digits. -/
def hexQuad : List Char → Option (Nat × List Char)
  | a :: b :: c :: d :: rest => do
    let a ← hexValue a
    let b ← hexValue b
    let c ← hexValue c
    let d ← hexValue d
    some (4096 * a + 256 * b + 16 * c + d, rest)
  | _ => none

/-- The character of an escape of one letter. -/
def escapedChar : Char → Option Char
  | '"' => some '"'
  | '\\' => some '\\'
  | '/' => some '/'
  | 'b' => some (Char.ofNat 8)
  | 'f' => some (Char.ofNat 12)
  | 'n' => some '\n'
  | 'r' => some '\r'
  | 't' => some '\t'
  | _ => none

/-- A string after its opening quote: UTF-16 units where they were escaped, characters elsewhere. -/
inductive StringPart where
  | char (c : Char)
  | unit (n : Nat)
deriving DecidableEq, Repr

/-- Reads string parts up to the closing quote. -/
def stringParts : Nat → List Char → Option (List StringPart × List Char)
  | 0, _ => none
  | fuel + 1, cs =>
    match cs with
    | [] => none
    | '"' :: rest => some ([], rest)
    | '\\' :: 'u' :: rest => do
      let (n, rest) ← hexQuad rest
      let (parts, rest) ← stringParts fuel rest
      some (.unit n :: parts, rest)
    | '\\' :: e :: rest => do
      let c ← escapedChar e
      let (parts, rest) ← stringParts fuel rest
      some (.char c :: parts, rest)
    | c :: rest =>
      if c.toNat < 32 ∨ c = '\\' then none
      else (stringParts fuel rest).map fun (parts, rest) => (.char c :: parts, rest)

/-- The characters of string parts; a surrogate has to be followed by its other half. -/
def joinParts : List StringPart → Option (List Char)
  | [] => some []
  | .char c :: rest => (joinParts rest).map (c :: ·)
  | .unit n :: .unit m :: rest =>
    if 0xD800 ≤ n ∧ n < 0xDC00 then
      if 0xDC00 ≤ m ∧ m < 0xE000 then
        (joinParts rest).map (Char.ofNat (0x10000 + (n - 0xD800) * 1024 + (m - 0xDC00)) :: ·)
      else none
    else if 0xDC00 ≤ n ∧ n < 0xE000 then none
    else (joinParts (.unit m :: rest)).map (Char.ofNat n :: ·)
  | .unit n :: rest =>
    if 0xD800 ≤ n ∧ n < 0xE000 then none else (joinParts rest).map (Char.ofNat n :: ·)

/-- The parts of a number, and the text after it. -/
def numberText (cs : List Char) : Option (NumberText × List Char) := do
  let (negative, cs) : Bool × List Char :=
    match cs with
    | '-' :: rest => (true, rest)
    | _ => (false, cs)
  let (whole, cs) ← match spanDigits cs with
    | ([], _) => none
    | ('0' :: _ :: _, _) => none
    | (digits, rest) => some (digits, rest)
  let (fraction, cs) ← match cs with
    | '.' :: rest =>
      match spanDigits rest with
      | ([], _) => none
      | (digits, rest) => some (some digits, rest)
    | _ => some (none, cs)
  let power (negative : Bool) (rest : List Char) : Option (Option (Bool × List Char) × List Char) :=
    match spanDigits rest with
    | ([], _) => none
    | (digits, rest) => some (some (negative, digits), rest)
  let (exponent, cs) ← match cs with
    | c :: rest =>
      if c = 'e' ∨ c = 'E' then
        match rest with
        | '-' :: rest => power true rest
        | '+' :: rest => power false rest
        | _ => power false rest
      else some (none, c :: rest)
    | [] => some (none, [])
  some (⟨negative, whole, fraction, exponent⟩, cs)

/-- What was read, and the text after it unless reading broke off. -/
abbrev Reading (α : Type) := α × Option (List Char)

/-- The flaw of a value that breaks off. -/
def brokenHere : Reading Json := (.flaw .broken, none)

mutual

/-- Reads a value at a depth of nesting. -/
def readValue : (fuel depth : Nat) → List Char → Reading Json
  | 0, _, _ => brokenHere
  | fuel + 1, depth, cs =>
    match skipBlanks cs with
    | 'n' :: 'u' :: 'l' :: 'l' :: rest => (.null, some rest)
    | 't' :: 'r' :: 'u' :: 'e' :: rest => (.bool true, some rest)
    | 'f' :: 'a' :: 'l' :: 's' :: 'e' :: rest => (.bool false, some rest)
    | '"' :: rest =>
      match stringParts (rest.length + 1) rest with
      | none => brokenHere
      | some (parts, rest) =>
        match joinParts parts with
        | some s => (.str (String.ofList s), some rest)
        | none => (.flaw .unreadable, some rest)
    | '[' :: rest =>
      let (items, rest) :=
        match skipBlanks rest with
        | ']' :: rest => ([], some rest)
        | rest => readItems fuel (depth + 1) rest
      if rest.isSome ∧ depthMax ≤ depth then (.flaw .unreadable, rest) else (.arr items, rest)
    | '\x7b' :: rest =>
      let (members, rest) :=
        match skipBlanks rest with
        | '\x7d' :: rest => (some [], some rest)
        | rest => readMembers fuel (depth + 1) rest
      match members with
      | some members =>
        if rest.isSome ∧ depthMax ≤ depth then (.flaw .unreadable, rest) else (.obj members, rest)
      | none => (.flaw .unreadable, rest)
    | cs =>
      match numberText cs with
      | none => brokenHere
      | some (n, rest) => ((n.value?).getD (.flaw .unreadable), some rest)

/-- Reads the items of an array, up to its end. -/
def readItems : (fuel depth : Nat) → List Char → Reading (List Json)
  | 0, _, _ => ([.flaw .broken], none)
  | fuel + 1, depth, cs =>
    match readValue fuel depth cs with
    | (j, none) => ([j], none)
    | (j, some rest) =>
      match skipBlanks rest with
      | ',' :: rest =>
        let (items, rest) := readItems fuel depth rest
        (j :: items, rest)
      | ']' :: rest => ([j], some rest)
      | _ => ([j, .flaw .broken], none)

/-- Reads the members of an object, up to its end; there are none when a key is unreadable. -/
def readMembers : (fuel depth : Nat) → List Char → Reading (Option (List (String × Json)))
  | 0, _, _ => (some [("", .flaw .broken)], none)
  | fuel + 1, depth, cs =>
    match skipBlanks cs with
    | '"' :: rest =>
      match stringParts (rest.length + 1) rest with
      | none => (some [("", .flaw .broken)], none)
      | some (parts, rest) =>
        let key := (joinParts parts).map String.ofList
        let add (j : Json) (members : Option (List (String × Json))) :=
          match key, members with
          | some key, some members => some ((key, j) :: members)
          | _, _ => none
        match skipBlanks rest with
        | ':' :: rest =>
          match readValue fuel depth rest with
          | (j, none) => (add j (some []), none)
          | (j, some rest) =>
            match skipBlanks rest with
            | ',' :: rest =>
              let (members, rest) := readMembers fuel depth rest
              (add j members, rest)
            | '\x7d' :: rest => (add j (some []), some rest)
            | _ => (add j (some [("", .flaw .broken)]), none)
        | _ => (add (.flaw .broken) (some []), none)
    | _ => (some [("", .flaw .broken)], none)

end

/-- The value of a text, and whether the text ends after it. -/
def read (text : String) : Json × Bool :=
  match readValue (2 * text.length + 2) 0 text.toList with
  | (j, some rest) => (j, (skipBlanks rest).isEmpty)
  | (j, none) => (j, false)

/-- The value of a text that is JSON to its end. Parts of it may be unreadable. -/
def ofText? (text : String) : Option Json :=
  match read text with
  | (j, true) => some j
  | (_, false) => none

end Json

end Scheduling
