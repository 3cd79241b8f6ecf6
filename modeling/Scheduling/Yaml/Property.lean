import Scheduling.Yaml.Scalar

/-!
# Properties of YAML nodes

Anchors, tags and directives, each read from its place in the text. A tag is a handle, which a
directive may define, and a suffix.
-/

namespace Scheduling

namespace Yaml

/-! ## Anchors -/

/-- The name of an anchor or an alias after its first character. Something that cannot go on with a
name has to follow. -/
def anchorName? (c : Cursor) : Option (String × Cursor) :=
  let name := c.rest.takeWhile isNameChar
  let c := c.advance name.length
  let ends := c.atWordEnd || c.head?.any fun x =>
    ['?', ':', ',', ']', '\x7d', '%', '@', '\x60'].contains x
  if name.isEmpty ∨ !ends then none else some (String.ofList name, c)

/-! ## Tags -/

/-- A tag as it is written. -/
structure TagText where
  /-- The name of what the suffix is added to; an empty one adds it to nothing. -/
  handle : String
  suffix : String
deriving DecidableEq, Repr

/-- How many octets a character has that starts with an octet. -/
def octetCount? (octet : Nat) : Option Nat :=
  if octet < 0x80 then some 1
  else if octet < 0xc0 then none
  else if octet < 0xe0 then some 2
  else if octet < 0xf0 then some 3
  else if octet < 0xf8 then some 4
  else none

/-- An octet that is written in hexadecimal after a percent sign. -/
def escapedOctet? : List Char → Option (Nat × List Char)
  | '%' :: a :: b :: rest => do some (16 * (← hexDigit? a) + (← hexDigit? b), rest)
  | _ => none

/-- The further octets of a character, after the bits read so far. -/
def furtherOctets? : (count : Nat) → Nat → List Char → Option (Nat × List Char)
  | 0, bits, cs => some (bits, cs)
  | count + 1, bits, cs => do
    let (octet, rest) ← escapedOctet? cs
    if 0x80 ≤ octet ∧ octet < 0xc0 then furtherOctets? count (64 * bits + (octet - 0x80)) rest
    else none

/-- A character that is written octet by octet. -/
def escapedUriChar? (cs : List Char) : Option (Char × List Char) := do
  let (octet, rest) ← escapedOctet? cs
  let count ← octetCount? octet
  let bits := if count = 1 then octet else octet % Nat.pow 2 (7 - count)
  let (bits, rest) ← furtherOctets? (count - 1) bits rest
  some (Char.ofNat bits, rest)

/-- Whether a character may stand in a tag; flow marks may only in one that is `complete`. -/
def isUriChar (complete : Bool) (x : Char) : Bool :=
  isNameChar x
    || [';', '/', '?', ':', '@', '&', '=', '+', '$', '.', '%', '!', '~', '*', '\'', '(',
      ')'].contains x
    || (complete && [',', '[', ']'].contains x)

/-- Takes the characters of a tag. -/
def uriChars? (complete : Bool) : (fuel : Nat) → Cursor → Option (List Char × Cursor)
  | 0, c => some ([], c)
  | fuel + 1, c =>
    match c.rest with
    | [] => some ([], c)
    | x :: _ =>
      if !isUriChar complete x then some ([], c)
      else do
        let (y, rest) ← if x = '%' then escapedUriChar? c.rest else some (x, c.rest.drop 1)
        let (ys, c) ← uriChars? complete fuel (c.advance (c.rest.length - rest.length))
        some (y :: ys, c)

/-- Takes the characters of a tag, of which there is at least one. -/
def uri? (complete : Bool) (c : Cursor) : Option (String × Cursor) := do
  let (text, c) ← uriChars? complete c.rest.length c
  if text.isEmpty then none else some (String.ofList text, c)

/-- The handle at the start of a tag: an exclamation mark and perhaps a name; a second exclamation
mark ends it. -/
def handle (c : Cursor) : List Char × Cursor :=
  let name := (c.rest.drop 1).takeWhile isNameChar
  let c := c.advance (name.length + 1)
  if c.startsWith '!' then ('!' :: name ++ ['!'], c.advance 1) else ('!' :: name, c)

/-- A tag. In flow style a comma may follow, otherwise a word has to end after it. -/
def tag? (flow : Bool) (c : Cursor) : Option (TagText × Cursor) := do
  let (tag, c) ←
    if c.ahead? 1 = some '<' then
      match uri? true (c.advance 2) with
      | some (suffix, c) =>
        if c.startsWith '>' then some (TagText.mk "" suffix, c.advance 1) else none
      | none => none
    else
      let (name, after) := handle c
      if 1 < name.length ∧ name.getLast? = some '!' then
        (uri? false after).map fun (suffix, c) => (TagText.mk (String.ofList name) suffix, c)
      else
        (uriChars? false after.rest.length after).map fun (suffix, c) =>
          match name.drop 1 ++ suffix with
          | [] => (TagText.mk "" "!", c)
          | suffix => (TagText.mk "!" (String.ofList suffix), c)
  if c.atWordEnd ∨ (flow ∧ c.startsWith ',') then some (tag, c) else none

/-! ## Directives -/

/-- A directive. -/
inductive Directive where
  | version (major minor : Nat)
  /-- What the handle of tags stands for. -/
  | tags (handle start : String)
deriving DecidableEq, Repr

/-- A number of one to nine digits. -/
def versionNumber? (c : Cursor) : Option (Nat × Cursor) :=
  let digits := c.rest.takeWhile Char.isDigit
  if digits.isEmpty ∨ 9 < digits.length then none
  else some (readDigits 0 digits, c.advance digits.length)

/-- A directive after its percent sign, up to the end of its line. -/
def directive? (c : Cursor) : Option (Directive × Cursor) := do
  let name := c.rest.takeWhile isNameChar
  let c := c.advance name.length
  if !c.atWordEnd then none
  else
    let c := c.skipWhile isSpaceOrTab
    match String.ofList name with
    | "YAML" => do
      let (major, c) ← versionNumber? c
      if !c.startsWith '.' then none
      else
        let (minor, c) ← versionNumber? (c.advance 1)
        some (.version major minor, ← c.finishLine?)
    | "TAG" => do
      let (name, after) := handle c
      if !c.startsWith '!' ∨ (name ≠ ['!'] ∧ (name.length < 2 ∨ name.getLast? ≠ some '!'))
          ∨ !after.atBlank then
        none
      else
        let (start, c) ← uri? true (after.skipWhile isSpaceOrTab)
        if c.atWordEnd then some (.tags (String.ofList name) start, ← c.finishLine?) else none
    | _ => none

end Yaml

end Scheduling
