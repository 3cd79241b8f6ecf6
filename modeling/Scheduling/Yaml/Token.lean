import Scheduling.Yaml.Basic
import Scheduling.Yaml.Property

/-!
# Tokens of YAML

A YAML text as a list of tokens. The tokens say where blocks begin and end, which the text shows by
indentation alone, and mark the keys of mappings, which show only when the colon after them is seen.
`Yaml.tokens` ends with the token for the end of the text, unless the text breaks a rule; then it
ends before the first token that depends on the fault.
-/

namespace Scheduling

namespace Yaml

/-- A token. -/
inductive Token where
  | textEnd
  | directive (d : Directive)
  | documentStart
  | documentEnd
  | blockSeqStart
  | blockMapStart
  | blockEnd
  | flowSeqStart
  | flowSeqEnd
  | flowMapStart
  | flowMapEnd
  /-- The dash of an item. -/
  | blockEntry
  /-- The comma between items or members. -/
  | flowEntry
  /-- What comes next is a key. -/
  | key
  /-- What comes next is the value of a key. -/
  | value
  | alias (name : String)
  | anchor (name : String)
  | tag (t : TagText)
  | scalar (style : YamlStyle) (text : String)
deriving DecidableEq, Repr

/-! ## State -/

/-- A node that may turn out to be a key: the number of its first token, and its place. -/
structure PossibleKey where
  /-- Whether it has to be a key, since nothing else may stand there. -/
  required : Bool
  number : Nat
  index : Nat
  line : Nat
  column : Nat
deriving DecidableEq, Repr

/-- What has been read of a text. -/
structure Scan where
  cursor : Cursor
  /-- The tokens, the last one first. -/
  tokens : List Token
  /-- The number of tokens. -/
  count : Nat
  /-- The column of the current block. -/
  indent : Int
  /-- The columns of the blocks around it, the innermost first. -/
  indents : List Int
  /-- The possible key of each bracket that is open, the innermost first, and outside brackets. -/
  keys : List (Option PossibleKey)
  /-- Whether a key may start here. -/
  keyAllowed : Bool

namespace Scan

/-- The start of a text. -/
def start (cs : List Char) : Scan := ⟨.start cs, [], 0, -1, [], [none], true⟩

/-- Whether a bracket is open. -/
def inFlow (s : Scan) : Bool := decide (1 < s.keys.length)

/-- Adds a token. -/
def emit (s : Scan) (t : Token) : Scan := { s with tokens := t :: s.tokens, count := s.count + 1 }

/-- Adds a token before the token with a number. -/
def insertAt (s : Scan) (number : Nat) (t : Token) : Scan :=
  let later := s.count - number
  { s with tokens := s.tokens.take later ++ t :: s.tokens.drop later, count := s.count + 1 }

/-- Moves on by characters of the same line. -/
def skip (s : Scan) (n : Nat) : Scan := { s with cursor := s.cursor.advance n }

/-- Sets whether a key may start here. -/
def allowKey (s : Scan) (allowed : Bool) : Scan := { s with keyAllowed := allowed }

/-! ## Keys -/

/-- Gives up the possible keys that the text has left: a key stands on one line and takes at most
1024 characters. -/
def dropOldKeys (s : Scan) : Option Scan := do
  let keys ← s.keys.mapM fun key =>
    match key with
    | some k =>
      if k.line < s.cursor.line ∨ k.index + 1024 < s.cursor.index then
        if k.required then none else some none
      else some (some k)
    | none => some none
  some { s with keys }

/-- Gives up the innermost possible key. -/
def dropKey (s : Scan) : Option Scan :=
  match s.keys with
  | some k :: keys => if k.required then none else some { s with keys := none :: keys }
  | _ => some s

/-- Notes that a key may start here. -/
def noteKey (s : Scan) : Option Scan := do
  if !s.keyAllowed then some s
  else
    let s ← s.dropKey
    let required := !s.inFlow && s.indent == s.cursor.column
    let key : PossibleKey := ⟨required, s.count, s.cursor.index, s.cursor.line, s.cursor.column⟩
    some { s with keys := some key :: s.keys.drop 1 }

/-! ## Blocks -/

/-- Opens a block at a column to the right of the current block, before the token with a number. -/
def openBlock (s : Scan) (column number : Nat) (t : Token) : Scan :=
  if !s.inFlow ∧ s.indent < column then
    { s with indent := column, indents := s.indent :: s.indents }.insertAt number t
  else s

/-- The block that goes on at a column: its column, the blocks around it, and how many blocks end
before it. -/
def blockAt (column : Int) : (indent : Int) → List Int → Int × List Int × Nat
  | indent, [] => (indent, [], 0)
  | indent, outer :: rest =>
    if column < indent then
      let (indent, indents, ended) := blockAt column outer rest
      (indent, indents, ended + 1)
    else (indent, outer :: rest, 0)

/-- Ends the blocks to the right of a column. -/
def closeBlocks (s : Scan) (column : Int) : Scan :=
  if s.inFlow then s
  else
    let (indent, indents, ended) := blockAt column s.indent s.indents
    { s with
      indent, indents
      tokens := List.replicate ended .blockEnd ++ s.tokens
      count := s.count + ended }

/-! ## Steps -/

/-- Skips blanks, comments and line breaks before a token. A tab may not stand where a block could
start. After a line break outside brackets a key may start. -/
def skipBlanks : (fuel : Nat) → Scan → Scan
  | 0, s => s
  | fuel + 1, s =>
    let c := s.cursor
    let c := if c.index = 0 ∧ c.startsWith '\ufeff' then c.advance 1 else c
    let tabs := s.inFlow || !s.keyAllowed
    let c := (c.skipWhile fun x => x = ' ' || (tabs && x = '\t')).skipComment
    if c.atBreak then
      skipBlanks fuel { s with cursor := c.skipBreak, keyAllowed := s.keyAllowed || !s.inFlow }
    else { s with cursor := c }

/-- Takes the end of the text, which ends the last line. -/
def takeEnd (s : Scan) : Option Scan := do
  let c := s.cursor
  let c := if c.column = 0 then c else { c with line := c.line + 1, column := 0 }
  let s ← ({ s with cursor := c }.closeBlocks (-1)).dropKey
  some ((s.allowKey false).emit .textEnd)

/-- Takes a directive. -/
def takeDirective (s : Scan) : Option Scan := do
  let s ← (s.closeBlocks (-1)).dropKey
  let (d, cursor) ← directive? (s.cursor.advance 1)
  some (({ s with cursor }.allowKey false).emit (.directive d))

/-- Takes the mark between documents. -/
def takeMarker (s : Scan) (t : Token) : Option Scan := do
  let s ← (s.closeBlocks (-1)).dropKey
  some (((s.allowKey false).skip 3).emit t)

/-- Takes an opening bracket. -/
def takeOpening (s : Scan) (t : Token) : Option Scan := do
  let s ← s.noteKey
  some ((({ s with keys := none :: s.keys }.allowKey true).skip 1).emit t)

/-- Takes a closing bracket. -/
def takeClosing (s : Scan) (t : Token) : Option Scan := do
  let s ← s.dropKey
  let keys := if s.inFlow then s.keys.drop 1 else s.keys
  some ((({ s with keys }.allowKey false).skip 1).emit t)

/-- Takes a comma. -/
def takeComma (s : Scan) : Option Scan := do
  let s ← s.dropKey
  some (((s.allowKey true).skip 1).emit .flowEntry)

/-- Takes the dash of an item. Outside brackets it may open a block. -/
def takeDash (s : Scan) : Option Scan := do
  if !s.inFlow ∧ !s.keyAllowed then none
  else
    let s ← (s.openBlock s.cursor.column s.count .blockSeqStart).dropKey
    some (((s.allowKey true).skip 1).emit .blockEntry)

/-- Takes a question mark before a key. -/
def takeKey (s : Scan) : Option Scan := do
  if !s.inFlow ∧ !s.keyAllowed then none
  else
    let s ← (s.openBlock s.cursor.column s.count .blockMapStart).dropKey
    some (((s.allowKey !s.inFlow).skip 1).emit .key)

/-- Takes the colon before a value. If there is a possible key before it, that is its key. -/
def takeColon (s : Scan) : Option Scan :=
  match s.keys with
  | some k :: keys =>
    let s := (s.insertAt k.number .key).openBlock k.column k.number .blockMapStart
    some ((({ s with keys := none :: keys }.allowKey false).skip 1).emit .value)
  | _ =>
    if !s.inFlow ∧ !s.keyAllowed then none
    else
      let s := s.openBlock s.cursor.column s.count .blockMapStart
      some (((s.allowKey !s.inFlow).skip 1).emit .value)

/-- Takes an anchor or an alias. -/
def takeAnchor (s : Scan) (token : String → Token) : Option Scan := do
  let s ← s.noteKey
  let (name, cursor) ← anchorName? (s.cursor.advance 1)
  some (({ s with cursor }.allowKey false).emit (token name))

/-- Takes a tag. -/
def takeTag (s : Scan) : Option Scan := do
  let s ← s.noteKey
  let (t, cursor) ← tag? s.inFlow s.cursor
  some (({ s with cursor }.allowKey false).emit (.tag t))

/-- Takes a block scalar. -/
def takeBlockScalar (s : Scan) (style : YamlStyle) : Option Scan := do
  let s ← s.dropKey
  let (text, cursor) ← blockScalar? (style = .folded) s.indent (s.cursor.advance 1)
  some (({ s with cursor }.allowKey true).emit (.scalar style text))

/-- Takes a quoted scalar. -/
def takeQuoted (s : Scan) (quote : Char) (style : YamlStyle) : Option Scan := do
  let s ← s.noteKey
  let c := s.cursor.advance 1
  let (text, cursor) ← quotedLines quote (c.rest.length + 1) .start c
  some (({ s with cursor }.allowKey false).emit (.scalar style text))

/-- Takes a plain scalar. If it ends on a later line, a key may start there. -/
def takePlain (s : Scan) : Option Scan := do
  let s ← s.noteKey
  let (f, cursor) ← plainLines s.inFlow (s.indent + 1) (s.cursor.rest.length + 1) .start s.cursor
  some (({ s with cursor }.allowKey f.broken).emit (.scalar .plain f.result))

/-- Whether a plain scalar may start here. -/
def startsPlain (s : Scan) : Bool :=
  let c := s.cursor
  match c.head? with
  | none => false
  | some x =>
    if x = '-' then !(c.advance 1).atBlank
    else if x = '?' ∨ x = ':' then !s.inFlow && !c.wordEndsAt 1
    else
      !c.atWordEnd && !isFlowMark x
        && !(['#', '&', '*', '!', '|', '>', '\'', '"', '%', '@', '\x60'].contains x)

/-- Takes the next token at its place. -/
def takeNext (s : Scan) : Option Scan :=
  let c := s.cursor
  let wordEnds := s.inFlow || c.wordEndsAt 1
  match c.head? with
  | none => s.takeEnd
  | some x =>
    if c.column = 0 ∧ x = '%' then s.takeDirective
    else if c.atMarker '-' then s.takeMarker .documentStart
    else if c.atMarker '.' then s.takeMarker .documentEnd
    else if x = '[' then s.takeOpening .flowSeqStart
    else if x = '\x7b' then s.takeOpening .flowMapStart
    else if x = ']' then s.takeClosing .flowSeqEnd
    else if x = '\x7d' then s.takeClosing .flowMapEnd
    else if x = ',' then s.takeComma
    else if x = '-' ∧ c.wordEndsAt 1 then s.takeDash
    else if x = '?' ∧ wordEnds then s.takeKey
    else if x = ':' ∧ wordEnds then s.takeColon
    else if x = '*' then s.takeAnchor .alias
    else if x = '&' then s.takeAnchor .anchor
    else if x = '!' then s.takeTag
    else if x = '|' ∧ !s.inFlow then s.takeBlockScalar .literal
    else if x = '>' ∧ !s.inFlow then s.takeBlockScalar .folded
    else if x = '\'' then s.takeQuoted '\'' .singleQuoted
    else if x = '"' then s.takeQuoted '"' .doubleQuoted
    else if s.startsPlain then s.takePlain
    else none

/-- Reads on to the next token and takes it. -/
def step (s : Scan) : Option Scan := do
  let s ← (s.skipBlanks (s.cursor.rest.length + 1)).dropOldKeys
  let s ← (s.closeBlocks s.cursor.column).takeNext
  s.dropOldKeys

/-- The tokens that do not depend on what follows: those before the first possible key. -/
def settled (s : Scan) : List Token :=
  let least := s.keys.foldl
    (fun least key =>
      match key with
      | some k => min least k.number
      | none => least)
    s.count
  s.tokens.reverse.take least

/-- Reads tokens up to the end of the text, or as far as the text keeps the rules. -/
def run : (fuel : Nat) → Scan → List Token
  | 0, s => s.settled
  | fuel + 1, s =>
    match s.step with
    | none => s.settled
    | some s =>
      match s.tokens with
      | .textEnd :: _ => s.tokens.reverse
      | _ => run fuel s

end Scan

/-- The tokens of a text. A text with a character that may not stand in one has none. -/
def tokens (text : String) : List Token :=
  let cs := text.toList
  if cs.all isPrintable then Scan.run (cs.length + 1) (.start cs) else []

end Yaml

end Scheduling
