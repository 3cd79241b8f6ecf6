/-!
# Places in a YAML text

A place in a text with its line and column, and the steps over characters, blanks, comments and line
breaks.
-/

namespace Scheduling

namespace Yaml

/-! ## Characters -/

/-- Whether a character may stand in a YAML text. -/
def isPrintable (c : Char) : Bool :=
  c = '\t' || c = '\n' || c = '\r' || (' ' ≤ c && c ≤ '~') || c = '\x85'
    || ('\xa0' ≤ c && c ≤ '\uffff' && c ≠ '\ufffe' && c ≠ '\uffff') || '\uffff' < c

/-- Whether a character breaks a line. -/
def isBreak (c : Char) : Bool :=
  c = '\n' || c = '\r' || c = '\x85' || c = '\u2028' || c = '\u2029'

/-- Whether a character is a space or a tab. -/
def isSpaceOrTab (c : Char) : Bool := c = ' ' || c = '\t'

/-- Whether a character has a meaning of its own in flow style. -/
def isFlowMark (c : Char) : Bool :=
  c = ',' || c = '[' || c = ']' || c = '\x7b' || c = '\x7d'

/-- Whether a character may stand in the name of an anchor. -/
def isNameChar (c : Char) : Bool := c.isAlphanum || c = '_' || c = '-'

/-! ## Places -/

/-- A place in a text. -/
structure Cursor where
  /-- The text from here on. -/
  rest : List Char
  /-- The number of characters before. -/
  index : Nat
  line : Nat
  column : Nat
deriving DecidableEq, Repr

namespace Cursor

/-- The start of a text. -/
def start (cs : List Char) : Cursor := ⟨cs, 0, 0, 0⟩

/-- The next character. -/
def head? (c : Cursor) : Option Char := c.rest.head?

/-- The character that stands so many places further. -/
def ahead? (c : Cursor) (n : Nat) : Option Char := c.rest[n]?

/-- Whether the next character is a given one. -/
def startsWith (c : Cursor) (x : Char) : Bool := c.head? == some x

/-- Whether a space or a tab comes next. -/
def atBlank (c : Cursor) : Bool := c.head?.any isSpaceOrTab

/-- Whether a line break comes next. -/
def atBreak (c : Cursor) : Bool := c.head?.any isBreak

/-- Whether the line ends here. -/
def atLineEnd (c : Cursor) : Bool := c.head?.all isBreak

/-- Whether a word ends so many places further: there is a blank, a line break or the end. -/
def wordEndsAt (c : Cursor) (n : Nat) : Bool :=
  (c.ahead? n).all fun x => isSpaceOrTab x || isBreak x

/-- Whether a word ends here. -/
def atWordEnd (c : Cursor) : Bool := c.wordEndsAt 0

/-- The place so many characters further on the same line. -/
def advance (c : Cursor) (n : Nat) : Cursor :=
  ⟨c.rest.drop n, c.index + n, c.line, c.column + n⟩

/-- The place after the characters of the same line that have a property. -/
def skipWhile (p : Char → Bool) (c : Cursor) : Cursor := c.advance (c.rest.takeWhile p).length

/-- The place after a comment. -/
def skipComment (c : Cursor) : Cursor :=
  if c.startsWith '#' then c.skipWhile fun x => !isBreak x else c

/-- The place after a line break. -/
def skipBreak (c : Cursor) : Cursor :=
  match c.rest with
  | '\r' :: '\n' :: rest => ⟨rest, c.index + 2, c.line + 1, 0⟩
  | x :: rest => if isBreak x then ⟨rest, c.index + 1, c.line + 1, 0⟩ else c
  | [] => c

/-- What a line break means in a text: the separators of lines and paragraphs stay, any other break
is a newline. -/
def breakText (c : Cursor) : List Char :=
  match c.head? with
  | some x => if x = '\u2028' ∨ x = '\u2029' then [x] else if isBreak x then ['\n'] else []
  | none => []

/-- Whether a word of three equal marks starts a line here. -/
def atMarker (mark : Char) (c : Cursor) : Bool :=
  c.column == 0 && c.rest.take 3 == [mark, mark, mark] && c.wordEndsAt 3

/-- Whether a document starts or ends here. -/
def atDocumentMarker (c : Cursor) : Bool := c.atMarker '-' || c.atMarker '.'

/-- The place at the start of the next line, unless something else than a comment is before it. -/
def finishLine? (c : Cursor) : Option Cursor :=
  let c := (c.skipWhile isSpaceOrTab).skipComment
  if c.atLineEnd then some c.skipBreak else none

end Cursor

end Yaml

end Scheduling
