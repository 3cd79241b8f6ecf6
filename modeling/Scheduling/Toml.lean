import Scheduling.Arith
import Scheduling.Toml.DateTime
import Scheduling.Toml.Table

/-!
# Reading TOML

A TOML document as a JSON value: tables are objects, with their members in the order written.
`readToml?` has no value for a text that breaks the rules of the format, among them that a key is
defined once and that arrays and tables are nested less than `nestingLimit` deep.
-/

namespace Scheduling

namespace Toml

/-- How many levels of arrays and tables a value has less than, and parts a key. -/
def nestingLimit : Nat := 80

/-! ## Blanks -/

/-- Skips spaces and tabs. -/
def skipSpaces (cs : List Char) : List Char := cs.dropWhile fun c => c = ' ' || c = '\t'

/-- Whether a character may stand in a comment. -/
def isCommentChar (c : Char) : Bool := c = '\t' || (32 ≤ c.toNat && c.toNat ≠ 127)

/-- Skips a comment, if there is one. -/
def skipComment (cs : List Char) : List Char :=
  match cs with
  | '#' :: rest => rest.dropWhile isCommentChar
  | _ => cs

/-- The text after the end of a line, which may have a comment. -/
def endLine (cs : List Char) : Option (List Char) :=
  match skipComment (skipSpaces cs) with
  | [] => some []
  | '\n' :: rest | '\r' :: '\n' :: rest => some rest
  | _ => none

/-- Skips blanks, comments and ends of lines, at most `fuel` of them. -/
def skipLines : Nat → List Char → List Char
  | 0, cs => cs
  | fuel + 1, cs =>
    match skipComment (skipSpaces cs) with
    | '\n' :: rest | '\r' :: '\n' :: rest => skipLines fuel rest
    | cs => cs

/-! ## Strings -/

/-- A code point in hexadecimal. -/
def codePoint? (digits : List Char) : Option Char :=
  let value (c : Char) : Option Nat :=
    if c.isDigit then some (digitValue c)
    else if 'a' ≤ c.toLower ∧ c.toLower ≤ 'f' then some (c.toLower.toNat - 'a'.toNat + 10)
    else none
  match digits.mapM value with
  | none => none
  | some ds =>
    let n := ds.foldl (fun n d => 16 * n + d) 0
    if n.isValidChar then some (Char.ofNat n) else none

/-- The character of an escape, and the text after it. -/
def escaped? : List Char → Option (Char × List Char)
  | 'b' :: rest => some (Char.ofNat 8, rest)
  | 't' :: rest => some ('\t', rest)
  | 'n' :: rest => some ('\n', rest)
  | 'f' :: rest => some (Char.ofNat 12, rest)
  | 'r' :: rest => some ('\r', rest)
  | '"' :: rest => some ('"', rest)
  | '\\' :: rest => some ('\\', rest)
  | 'u' :: rest =>
    if rest.length < 4 then none else (codePoint? (rest.take 4)).map fun c => (c, rest.drop 4)
  | 'U' :: rest =>
    if rest.length < 8 then none else (codePoint? (rest.take 8)).map fun c => (c, rest.drop 8)
  | _ => none

/-- The rest of a string in double quotes. -/
def basicString : Nat → List Char → Option (List Char × List Char)
  | 0, _ => none
  | fuel + 1, cs =>
    match cs with
    | '"' :: rest => some ([], rest)
    | '\\' :: rest => do
      let (c, rest) ← escaped? rest
      let (s, rest) ← basicString fuel rest
      some (c :: s, rest)
    | c :: rest =>
      if isCommentChar c then (basicString fuel rest).map fun (s, rest) => (c :: s, rest) else none
    | [] => none

/-- The rest of a string in single quotes. -/
def literalString (cs : List Char) : Option (List Char × List Char) :=
  let p (c : Char) : Bool := c ≠ '\'' && isCommentChar c
  match cs.dropWhile p with
  | '\'' :: rest => some (cs.takeWhile p, rest)
  | _ => none

/-- The rest of a string of several lines, after three quotes `q`; escapes mean something only when
`escapes` is set. A backslash at the end of a line joins it to the next text. -/
def longString (q : Char) (escapes : Bool) : Nat → List Char → Option (List Char × List Char)
  | 0, _ => none
  | fuel + 1, cs =>
    let add (c : Char) (rest : List Char) : Option (List Char × List Char) :=
      (longString q escapes fuel rest).map fun (s, rest) => (c :: s, rest)
    match cs with
    | [] => none
    | c :: rest =>
      if c = q then
        let run := cs.takeWhile (· = q)
        if 6 ≤ run.length then none
        else if 3 ≤ run.length then
          some (List.replicate (run.length - 3) q, cs.drop run.length)
        else add c rest
      else if c = '\\' ∧ escapes then
        match skipSpaces rest with
        | '\n' :: _ | '\r' :: '\n' :: _ =>
          longString q escapes fuel
            (rest.dropWhile fun c => c = ' ' || c = '\t' || c = '\n' || c = '\r')
        | _ => do
          let (c, rest) ← escaped? rest
          add c rest
      else if c = '\n' ∨ isCommentChar c then add c rest
      else
        match c, rest with
        | '\r', '\n' :: rest => add '\n' rest
        | _, _ => none

/-- The text without a line end at its start. -/
def dropFirstLine (cs : List Char) : List Char :=
  match cs with
  | '\n' :: rest | '\r' :: '\n' :: rest => rest
  | _ => cs

/-! ## Keys -/

/-- Whether a character may stand in a key without quotes. -/
def isKeyChar (c : Char) : Bool := c.isAlphanum || c = '_' || c = '-'

/-- One part of a key. -/
def keyPart (cs : List Char) : Option (String × List Char) :=
  match cs with
  | '"' :: rest => (basicString (rest.length + 1) rest).map fun (s, rest) => (.ofList s, rest)
  | '\'' :: rest => (literalString rest).map fun (s, rest) => (.ofList s, rest)
  | _ =>
    match cs.takeWhile isKeyChar with
    | [] => none
    | part => some (.ofList part, cs.dropWhile isKeyChar)

/-- A key of at most `parts` parts with points between them. -/
def keyOf : (parts : Nat) → List Char → Option (List String × List Char)
  | 0, _ => none
  | parts + 1, cs => do
    let (part, rest) ← keyPart (skipSpaces cs)
    match skipSpaces rest with
    | '.' :: rest => do
      let (others, rest) ← keyOf parts rest
      some (part :: others, rest)
    | rest => some ([part], rest)

/-- A key, and the text after it. -/
def key (cs : List Char) : Option (List String × List Char) := keyOf (nestingLimit - 1) cs

/-! ## Numbers -/

/-- Takes out underscores, each of which has to stand between two digits. -/
def withoutUnderscores (digit : Char → Bool) : List Char → Option (List Char)
  | [] => some []
  | [c] => if c = '_' then none else some [c]
  | c :: '_' :: d :: rest =>
    if c ≠ '_' ∧ digit c ∧ digit d then (withoutUnderscores digit (d :: rest)).map (c :: ·)
    else none
  | c :: rest => if c = '_' then none else (withoutUnderscores digit rest).map (c :: ·)

/-- A run of digits of a base. -/
def digitsOfBase (base : Nat) (cs : List Char) : Option Nat := do
  let value (c : Char) : Option Nat :=
    let n := if c.isDigit then digitValue c
      else if 'a' ≤ c.toLower ∧ c.toLower ≤ 'f' then c.toLower.toNat - 'a'.toNat + 10 else base
    if n < base then some n else none
  let cs ← withoutUnderscores (fun c => (value c).isSome) cs
  if cs.isEmpty then none
  else
    let ds ← cs.mapM value
    some (ds.foldl (fun n d => base * n + d) 0)

/-- An integer that fits in 64 bits. -/
def integer (negative : Bool) (cs : List Char) : Option Json := do
  let n ← digitsOfBase 10 cs
  if 1 < cs.length ∧ cs.head? = some '0' then none
  else (checked (if negative then -n else n)).map Json.int

/-- A float: digits before and after each point, and no superfluous zero in front. One beyond the
greatest float has no value, while one beyond the least is negative infinity. -/
def floating (negative : Bool) (cs : List Char) : Option Json := do
  let whole := cs.takeWhile fun c => c.isDigit || c = '_'
  if whole.isEmpty ∨ (1 < whole.length ∧ whole.head? = some '0') then none
  else
    match cs.dropWhile (fun c => c.isDigit || c = '_') with
    | '.' :: c :: _ => if c.isDigit then pure () else none
    | '.' :: [] => none
    | _ => pure ()
    let cs ← withoutUnderscores Char.isDigit cs
    let x ← readMagnitude cs
    if x.isInf ∧ !negative then none else some (.float (if negative then -x else x))

/-- The number of a word. -/
def number? (word : List Char) : Option Json :=
  match word with
  | '0' :: 'x' :: digits => (digitsOfBase 16 digits).bind fun n => (checked n).map Json.int
  | '0' :: 'o' :: digits => (digitsOfBase 8 digits).bind fun n => (checked n).map Json.int
  | '0' :: 'b' :: digits => (digitsOfBase 2 digits).bind fun n => (checked n).map Json.int
  | _ =>
    let (negative, cs) :=
      match word with
      | '-' :: cs => (true, cs)
      | '+' :: cs => (false, cs)
      | _ => (false, word)
    match String.ofList cs with
    | "inf" => some (.float (if negative then -1.0 / 0.0 else 1.0 / 0.0))
    | "nan" => some (.float (0.0 / 0.0))
    | _ =>
      if cs.all fun c => c.isDigit || c = '_' then integer negative cs else floating negative cs

/-! ## Values -/

/-- Whether a character ends a word. -/
def endsWord (c : Char) : Bool :=
  c = ' ' || c = '\t' || c = '\n' || c = '\r' || c = ',' || c = ']' || c = '\x7d' || c = '#'

/-- The value of a word. -/
def word? (word : List Char) : Option Json :=
  match String.ofList word with
  | "true" => some (.bool true)
  | "false" => some (.bool false)
  | _ => number? word

mutual

/-- Reads a value at a depth of nesting. -/
def value : (fuel depth : Nat) → List Char → Option (Json × List Char)
  | 0, _, _ => none
  | fuel + 1, depth, cs =>
    let text (read : Option (List Char × List Char)) : Option (Json × List Char) :=
      read.map fun (s, rest) => (.str (.ofList s), rest)
    match cs with
    | '"' :: '"' :: '"' :: rest =>
      let rest := dropFirstLine rest
      text (longString '"' true (rest.length + 1) rest)
    | '"' :: rest => text (basicString (rest.length + 1) rest)
    | '\'' :: '\'' :: '\'' :: rest =>
      let rest := dropFirstLine rest
      text (longString '\'' false (rest.length + 1) rest)
    | '\'' :: rest => text (literalString rest)
    | '[' :: rest =>
      if nestingLimit ≤ depth + 1 then none
      else (items fuel (depth + 1) rest).map fun (js, rest) => (.arr js, rest)
    | '\x7b' :: rest =>
      if nestingLimit ≤ depth + 1 then none
      else
        match skipSpaces rest with
        | '\x7d' :: rest => some (.obj [], rest)
        | rest =>
          (members fuel (depth + 1) [] rest).map fun (t, rest) =>
            (.obj (TomlTable.entriesToJson t), rest)
    | _ =>
      if TomlDateTime.starts cs then
        (TomlDateTime.read? cs).map fun (d, rest) => (d.toJson, rest)
      else
        let word := cs.takeWhile fun c => !endsWord c
        (word? word).map fun j => (j, cs.drop word.length)

/-- Reads the rest of an array. -/
def items : (fuel depth : Nat) → List Char → Option (List Json × List Char)
  | 0, _, _ => none
  | fuel + 1, depth, cs =>
    match skipLines (cs.length + 1) cs with
    | ']' :: rest => some ([], rest)
    | cs => do
      let (j, rest) ← value fuel depth cs
      match skipLines (rest.length + 1) rest with
      | ']' :: rest => some ([j], rest)
      | ',' :: rest => do
        let (js, rest) ← items fuel depth rest
        some (j :: js, rest)
      | _ => none

/-- Reads the rest of a table on one line, after the entries read so far. -/
def members : (fuel depth : Nat) → TomlTable → List Char → Option (TomlTable × List Char)
  | 0, _, _, _ => none
  | fuel + 1, depth, t, cs => do
    let (path, rest) ← key cs
    match rest with
    | '=' :: rest => do
      let (j, rest) ← value fuel depth (skipSpaces rest)
      let t ← TomlTable.define j path true t
      match skipSpaces rest with
      | '\x7d' :: rest => some (t, rest)
      | ',' :: rest => members fuel depth t rest
      | _ => none
    | _ => none

end

/-! ## Documents -/

/-- Reads the lines of a document; `path` is the table that keys belong to. -/
def document : Nat → (path : List String) → TomlTable → List Char → Option TomlTable
  | 0, _, _, _ => none
  | fuel + 1, path, t, cs =>
    match skipLines (cs.length + 1) cs with
    | [] => some t
    | '[' :: '[' :: rest => do
      let (path, rest) ← key rest
      match rest with
      | ']' :: ']' :: rest => do
        let rest ← endLine rest
        document fuel path (← t.openItem path) rest
      | _ => none
    | '[' :: rest => do
      let (path, rest) ← key rest
      match rest with
      | ']' :: rest => do
        let rest ← endLine rest
        document fuel path (← t.openTable path) rest
      | _ => none
    | cs => do
      let (dotted, rest) ← key cs
      match rest with
      | '=' :: rest => do
        let (j, rest) ← value (rest.length + 1) 0 (skipSpaces rest)
        let rest ← endLine rest
        document fuel path (← t.within (TomlTable.define j dotted true) path) rest
      | _ => none

end Toml

/-- The JSON value of a TOML document, which may start with a byte order mark. -/
def readToml? (text : String) : Option Json :=
  let cs := match text.toList with
    | '\ufeff' :: rest => rest
    | cs => cs
  (Toml.document (cs.length + 1) [] [] cs).map fun t => .obj (TomlTable.entriesToJson t)

end Scheduling
