/-!
# Commands of a shell

The commands of a shell script as trees. Texts are lists of octets, each as the character with its
number, so that a script can write part of a character.
-/

namespace Scheduling

namespace Shell

/-- A text as octets. -/
abbrev Octets := List Char

/-- When the word after the name of a parameter is meant instead of its value. -/
inductive Fallback where
  /-- When the parameter is not set. -/
  | instead
  /-- When it is not set, and the parameter gets the text of the word. -/
  | assign
  /-- When it is not set, and then the script ends. -/
  | fail
  /-- When it is set. -/
  | whenSet
deriving DecidableEq, Repr

mutual

/-- A part of a word; it says whether it stands in quotes. -/
inductive Part where
  | text (quoted : Bool) (t : Octets)
  /-- The value of a parameter. -/
  | parameter (quoted : Bool) (name : Octets) (use : Use)
  /-- What a script writes. -/
  | output (quoted : Bool) (script : List Command)
  /-- The value of an expression. -/
  | arithmetic (quoted : Bool) (expression : List Part)

/-- What is done with the value of a parameter. -/
inductive Use where
  | value
  /-- The number of octets. -/
  | length
  /-- A word may take the place of the value; an empty value may count as not set. -/
  | orElse (fallback : Fallback) (emptyCounts : Bool) (word : List Part)
  /-- The value without what matches a pattern at its start or end. -/
  | without (fromEnd longest : Bool) (pattern : List Part)

/-- Where a command reads from or writes to. -/
inductive Redirect where
  /-- A descriptor writes to a file. -/
  | toFile (descriptor : Nat) (file : List Part)
  /-- The command reads from a file. -/
  | fromFile (file : List Part)
  /-- A descriptor writes where another one does, or nowhere. -/
  | copy (descriptor : Nat) (other : List Part)
  /-- The command reads a text. -/
  | fromText (text : List Part)

/-- A command. -/
inductive Command where
  | simple (assignments : List (Octets × List Part)) (words : List (List Part))
  | redirected (body : Command) (redirects : List Redirect)
  /-- Each command reads what the one before it writes. -/
  | pipeline (stages : List Command)
  | negation (body : Command)
  /-- The second command is carried out if the first one succeeds, or if it fails. -/
  | andThen (first second : Command)
  | orElse (first second : Command)
  | group (body : List Command)
  | subshell (body : List Command)
  | conditional (branches : List (List Command × List Command)) (otherwise : List Command)
  /-- The body is repeated while the condition succeeds, or while it fails. -/
  | loop (whileFails : Bool) (condition body : List Command)
  /-- The body is carried out for each word, or for each argument of the script. -/
  | each (name : Octets) (words : Option (List (List Part))) (body : List Command)
  | choice (subject : List Part) (branches : List (List (List Part) × List Command))
  | definition (name : Octets) (body : Command)

end

instance : Inhabited Command := ⟨.group []⟩

/-- A word of a command. -/
abbrev Word := List Part

/-! ## Octets -/

/-- The octets of a text. -/
def octets (text : String) : Octets := text.toUTF8.toList.map fun b => Char.ofNat b.toNat

/-- The text of octets, if they are one. -/
def text? (t : Octets) : Option String :=
  String.fromUTF8? (ByteArray.mk (t.map fun c => c.toNat.toUInt8).toArray)

/-- The octets of a natural number in decimal. -/
def natural (n : Nat) : Octets := (Nat.repr n).toList

end Shell

end Scheduling
