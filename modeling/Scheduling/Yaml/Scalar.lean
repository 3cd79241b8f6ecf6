import Scheduling.Decimal.Read
import Scheduling.Yaml.Cursor

/-!
# Texts of YAML scalars

The text of a scalar, in each of its styles. In plain and quoted scalars a single line break stands
for a space, and of several line breaks the first one does not count. Block scalars keep their
lines, or fold them in the same way.
-/

namespace Scheduling

namespace Yaml

/-! ## Folding -/

/-- The text of a scalar so far, and the blanks and line breaks that may follow it. -/
structure Folding where
  /-- The text, the last character first. -/
  text : List Char
  /-- Blanks on the current line, the last one first. -/
  blanks : List Char
  /-- The first line break since the text. -/
  firstBreak : List Char
  /-- The line breaks after it. -/
  breaks : List Char
  /-- Whether the line was left since the text. -/
  broken : Bool

namespace Folding

/-- Nothing has been read. -/
def start : Folding := ⟨[], [], [], [], false⟩

/-- Adds a character to the text. -/
def add (f : Folding) (x : Char) : Folding := { f with text := x :: f.text }

/-- Turns the blanks and line breaks since the text into text. -/
def settle (f : Folding) : Folding :=
  let gap :=
    if !f.broken then f.blanks.reverse
    else if f.firstBreak = ['\n'] then if f.breaks.isEmpty then [' '] else f.breaks
    else f.firstBreak ++ f.breaks
  ⟨gap.reverse ++ f.text, [], [], [], false⟩

/-- Takes a blank; one at the start of a line does not count. -/
def blank (f : Folding) (x : Char) : Folding :=
  if f.broken then f else { f with blanks := x :: f.blanks }

/-- Takes a line break; the blanks before it do not count. -/
def newline (f : Folding) (text : List Char) : Folding :=
  if f.broken then { f with breaks := f.breaks ++ text }
  else { f with blanks := [], firstBreak := text, broken := true }

/-- The text. -/
def result (f : Folding) : String := String.ofList f.text.reverse

end Folding

/-! ## Plain scalars -/

/-- Takes the characters of a word. In flow style a colon before a mark is an error. -/
def plainWord (flow : Bool) : (fuel : Nat) → Folding → Cursor → Option (Folding × Cursor)
  | 0, f, c => some (f, c)
  | fuel + 1, f, c =>
    match c.head? with
    | none => some (f, c)
    | some x =>
      if c.atWordEnd then some (f, c)
      else if flow ∧ x = ':' ∧ (c.ahead? 1).any (fun y => isFlowMark y || y == '?') then none
      else if (x = ':' ∧ c.wordEndsAt 1) ∨ (flow ∧ isFlowMark x) then some (f, c)
      else plainWord flow fuel (f.settle.add x) (c.advance 1)

/-- Takes blanks and line breaks. A tab may not stand left of the column `least`. -/
def plainBlanks (least : Int) : (fuel : Nat) → Folding → Cursor → Option (Folding × Cursor)
  | 0, f, c => some (f, c)
  | fuel + 1, f, c =>
    match c.head? with
    | none => some (f, c)
    | some x =>
      if isSpaceOrTab x then
        if f.broken ∧ c.column < least ∧ x = '\t' then none
        else plainBlanks least fuel (f.blank x) (c.advance 1)
      else if isBreak x then plainBlanks least fuel (f.newline c.breakText) c.skipBreak
      else some (f, c)

/-- Takes the lines of a plain scalar. In block style they are indented to the column `least`. -/
def plainLines (flow : Bool) (least : Int) :
    (fuel : Nat) → Folding → Cursor → Option (Folding × Cursor)
  | 0, _, _ => none
  | fuel + 1, f, c =>
    if c.atDocumentMarker || c.startsWith '#' then some (f, c)
    else
      match plainWord flow c.rest.length f c with
      | none => none
      | some (f, c) =>
        if !(c.atBlank || c.atBreak) then some (f, c)
        else
          match plainBlanks least c.rest.length f c with
          | none => none
          | some (f, c) =>
            if !flow ∧ c.column < least then some (f, c) else plainLines flow least fuel f c

/-! ## Quoted scalars -/

/-- The value of a hexadecimal digit. -/
def hexDigit? (x : Char) : Option Nat :=
  if x.isDigit then some (digitValue x)
  else if 'a' ≤ x ∧ x ≤ 'f' then some (x.toNat - 'a'.toNat + 10)
  else if 'A' ≤ x ∧ x ≤ 'F' then some (x.toNat - 'A'.toNat + 10)
  else none

/-- The character of an escape of one letter. -/
def escapedChar? : Char → Option Char
  | '0' => some '\x00'
  | 'a' => some '\x07'
  | 'b' => some '\x08'
  | 't' | '\t' => some '\t'
  | 'n' => some '\n'
  | 'v' => some '\x0b'
  | 'f' => some '\x0c'
  | 'r' => some '\r'
  | 'e' => some '\x1b'
  | ' ' => some ' '
  | '"' => some '"'
  | '/' => some '/'
  | '\\' => some '\\'
  | 'N' => some '\x85'
  | '_' => some '\xa0'
  | 'L' => some '\u2028'
  | 'P' => some '\u2029'
  | _ => none

/-- How many hexadecimal digits follow the letter of an escape. -/
def escapeWidth? : Char → Option Nat
  | 'x' => some 2
  | 'u' => some 4
  | 'U' => some 8
  | _ => none

/-- The character of an escape after its backslash, and how many characters the escape has. -/
def escape? (letter : Char) (rest : List Char) : Option (Char × Nat) :=
  match escapeWidth? letter with
  | none => (escapedChar? letter).map fun x => (x, 1)
  | some width => do
    let digits ← (rest.take width).mapM hexDigit?
    let n := digits.foldl (fun n d => 16 * n + d) 0
    if digits.length < width ∨ ¬ n.isValidChar then none else some (Char.ofNat n, width + 1)

/-- Takes the characters of a word between quotes. An escaped line break leaves the line without a
trace. -/
def quotedWord (quote : Char) : (fuel : Nat) → Folding → Cursor → Option (Folding × Cursor)
  | 0, f, c => some (f, c)
  | fuel + 1, f, c =>
    match c.rest with
    | [] => some (f, c)
    | x :: rest =>
      if c.atWordEnd then some (f, c)
      else if quote = '\'' ∧ x = '\'' ∧ rest.head? = some '\'' then
        quotedWord quote fuel (f.add '\'') (c.advance 2)
      else if x = quote then some (f, c)
      else if quote = '"' ∧ x = '\\' then
        if (c.advance 1).atBreak then some ({ f with broken := true }, (c.advance 1).skipBreak)
        else do
          let (y, width) ← escape? (← rest.head?) (rest.drop 1)
          quotedWord quote fuel (f.add y) (c.advance (width + 1))
      else quotedWord quote fuel (f.add x) (c.advance 1)

/-- Takes blanks and line breaks between quotes. -/
def quotedBlanks : (fuel : Nat) → Folding → Cursor → Folding × Cursor
  | 0, f, c => (f, c)
  | fuel + 1, f, c =>
    match c.head? with
    | none => (f, c)
    | some x =>
      if isSpaceOrTab x then quotedBlanks fuel (f.blank x) (c.advance 1)
      else if isBreak x then quotedBlanks fuel (f.newline c.breakText) c.skipBreak
      else (f, c)

/-- Takes the lines of a quoted scalar up to its end, which no marker of a document comes before. -/
def quotedLines (quote : Char) : (fuel : Nat) → Folding → Cursor → Option (String × Cursor)
  | 0, _, _ => none
  | fuel + 1, f, c =>
    if c.atDocumentMarker || c.rest.isEmpty then none
    else
      match quotedWord quote c.rest.length f c with
      | none => none
      | some (f, c) =>
        if c.startsWith quote then some (f.result, c.advance 1)
        else
          let (f, c) := quotedBlanks c.rest.length f c
          quotedLines quote fuel f.settle c

/-! ## Block scalars -/

/-- What becomes of the line breaks at the end of a block scalar. -/
inductive Chomping where
  | strip
  | clip
  | keep
deriving DecidableEq, Repr

/-- A character that says what becomes of line breaks. -/
def chomping? : Option Char → Option Chomping
  | some '-' => some .strip
  | some '+' => some .keep
  | _ => none

/-- A digit that says how far a block scalar is indented. -/
def indentation? (x : Option Char) : Option Nat := (x.filter Char.isDigit).map digitValue

/-- The marks after the first character of a block scalar, in either order: what becomes of line
breaks, and how far the scalar is indented. -/
def blockMarks? (c : Cursor) : Option (Chomping × Option Nat × Cursor) := do
  let (chomping, indentation, c) :=
    match chomping? c.head? with
    | some chomping =>
      match indentation? (c.ahead? 1) with
      | some n => (chomping, some n, c.advance 2)
      | none => (chomping, none, c.advance 1)
    | none =>
      match indentation? c.head? with
      | some n =>
        match chomping? (c.ahead? 1) with
        | some chomping => (chomping, some n, c.advance 2)
        | none => (Chomping.clip, some n, c.advance 1)
      | none => (Chomping.clip, none, c)
  if indentation = some 0 then none else some (chomping, indentation, c)

/-- Takes empty lines and the indentation of the next line. The result is the greatest column that
was reached and the line breaks. -/
def blockBreaks (indent : Option Nat) :
    (fuel : Nat) → (greatest : Nat) → (breaks : List Char) → Cursor →
      Option (Nat × List Char × Cursor)
  | 0, _, _, _ => none
  | fuel + 1, greatest, breaks, c =>
    let spaces := (c.rest.takeWhile (· = ' ')).length
    let c := c.advance (match indent with
      | some n => min spaces (n - c.column)
      | none => spaces)
    let greatest := max greatest c.column
    if indent.all (fun n => c.column < n) ∧ c.startsWith '\t' then none
    else if c.atBreak then blockBreaks indent fuel greatest (breaks ++ c.breakText) c.skipBreak
    else some (greatest, breaks, c)

/-- The lines of a block scalar so far. -/
structure BlockText where
  /-- The text, the last character first. -/
  text : List Char
  /-- The break of the last line. -/
  lastBreak : List Char
  /-- The breaks of the empty lines after it. -/
  breaks : List Char
  /-- Whether the last line started with a blank. -/
  blank : Bool

/-- Adds a line. Folding turns the break before it into a space, unless one of the lines starts with
a blank. -/
def BlockText.addLine (folds : Bool) (b : BlockText) (line lineBreak : List Char) : BlockText :=
  let blank := line.head?.any isSpaceOrTab
  let joint :=
    if folds ∧ b.lastBreak = ['\n'] ∧ !b.blank ∧ !blank then
      if b.breaks.isEmpty then [' '] else []
    else b.lastBreak
  ⟨(joint ++ b.breaks ++ line).reverse ++ b.text, lineBreak, [], blank⟩

/-- The whole text. -/
def BlockText.result (b : BlockText) (chomping : Chomping) : String :=
  let ending :=
    match chomping with
    | .strip => []
    | .clip => b.lastBreak
    | .keep => b.lastBreak ++ b.breaks
  String.ofList (b.text.reverse ++ ending)

/-- Takes the lines of a block scalar, which are indented to a column. -/
def blockLines (folds : Bool) (indent : Nat) :
    (fuel : Nat) → BlockText → Cursor → Option (BlockText × Cursor)
  | 0, _, _ => none
  | fuel + 1, b, c =>
    if c.column = indent ∧ !c.rest.isEmpty then
      let line := c.rest.takeWhile fun x => !isBreak x
      let c := c.advance line.length
      let b := b.addLine folds line c.breakText
      match blockBreaks (some indent) (c.rest.length + 1) 0 [] c.skipBreak with
      | none => none
      | some (_, breaks, c) => blockLines folds indent fuel { b with breaks } c
    else some (b, c)

/-- The block scalar after its first character, inside a block that is indented to `parent`. -/
def blockScalar? (folds : Bool) (parent : Int) (c : Cursor) : Option (String × Cursor) := do
  let (chomping, indentation, c) ← blockMarks? c
  let c ← c.finishLine?
  let given := indentation.map fun n => (max parent 0).toNat + n
  let (greatest, breaks, c) ← blockBreaks given (c.rest.length + 1) 0 [] c
  let indent := given.getD (max greatest (max (parent + 1).toNat 1))
  let (b, c) ← blockLines folds indent (c.rest.length + 1) ⟨[], [], breaks, false⟩ c
  some (b.result chomping, c)

end Yaml

end Scheduling
