/-!
# Blanks and lines

White space over all of Unicode, trimming, splitting at blanks, and the lines of a text.
-/

namespace Scheduling

/-- Whether a character is white space. -/
def isBlank (c : Char) : Bool :=
  let n := c.toNat
  (9 ≤ n && n ≤ 13) || n == 32 || n == 0x85 || n == 0xa0 || n == 0x1680
    || (0x2000 ≤ n && n ≤ 0x200a) || n == 0x2028 || n == 0x2029 || n == 0x202f || n == 0x205f
    || n == 0x3000

/-- A text without the blanks at its ends. -/
def trimBlanks (cs : List Char) : List Char :=
  ((cs.dropWhile isBlank).reverse.dropWhile isBlank).reverse

/-- The words of a text: its longest parts without a blank. -/
def words (text : String) : List String :=
  let step (c : Char) (read : List Char × List String) : List Char × List String :=
    let (word, words) := read
    if isBlank c then ([], if word.isEmpty then words else String.ofList word :: words)
    else (c :: word, words)
  let (word, words) := text.toList.foldr step ([], [])
  if word.isEmpty then words else String.ofList word :: words

/-- What follows a given start of a text. -/
def afterStart? (start cs : List Char) : Option (List Char) :=
  if cs.take start.length = start then some (cs.drop start.length) else none

/-- The parts of a text between occurrences of a character, one more than there are of these. -/
def splitAtChar (separator : Char) : List Char → List (List Char)
  | [] => [[]]
  | c :: cs =>
    if c = separator then [] :: splitAtChar separator cs
    else
      match splitAtChar separator cs with
      | [] => [[c]]
      | part :: parts => (c :: part) :: parts

/-- A line without the carriage return at its end. -/
def dropReturn (line : List Char) : List Char :=
  if line.getLast? = some '\r' then line.dropLast else line

/-- The lines of some characters. A line feed ends a line, so characters that end in one have no
empty last line; a carriage return before a line feed belongs to the line's end. -/
def charLines (cs : List Char) : List (List Char) :=
  let parts := splitAtChar '\n' cs
  let ended := parts.dropLast.map dropReturn
  match parts.getLast? with
  | some [] | none => ended
  | some last => ended ++ [last]

/-- The lines of a text. -/
def textLines (text : String) : List String := (charLines text.toList).map String.ofList

end Scheduling
