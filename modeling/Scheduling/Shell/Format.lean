import Scheduling.Decimal.Read
import Scheduling.Decimal.Shortest
import Scheduling.Shell.Arithmetic

/-!
# Formats of a shell

How arguments are written under a format: escapes, and directions with flags, a width and a
precision.
-/

namespace Scheduling

namespace Shell

/-! ## Escapes -/

/-- The character of an escape of one letter. -/
def escapedChar? : Char → Option Char
  | '\\' => some '\\'
  | 'a' => some '\x07'
  | 'b' => some '\x08'
  | 'e' => some '\x1b'
  | 'f' => some '\x0c'
  | 'n' => some '\n'
  | 'r' => some '\r'
  | 't' => some '\t'
  | 'v' => some '\x0b'
  | _ => none

/-- Whether a character is an octal digit. -/
def isOctal (c : Char) : Bool := '0' ≤ c && c ≤ '7'

/-- The octet of up to three octal digits. -/
def octalChar (digits : Octets) : Char :=
  Char.ofNat (digits.foldl (fun n c => 8 * n + (c.toNat - 48)) 0 % 256)

/-- The octets of an escape after its backslash, and the text after it. An unknown escape is just
the backslash. -/
def escape (cs : Octets) : Octets × Octets :=
  match cs with
  | [] => (['\\'], [])
  | c :: rest =>
    match escapedChar? c with
    | some x => ([x], rest)
    | none =>
      let digits := (cs.take 3).takeWhile isOctal
      if digits.isEmpty then (['\\'], cs) else ([octalChar digits], cs.drop digits.length)

/-- A text with its escapes replaced, and whether it ends all writing. A zero may stand before the
three digits of an octet. -/
def unescape : (fuel : Nat) → Octets → Octets × Bool
  | 0, _ => ([], false)
  | fuel + 1, cs =>
    match cs with
    | [] => ([], false)
    | '\\' :: 'c' :: _ => ([], true)
    | '\\' :: rest =>
      let rest := match rest with
        | '0' :: d :: more => if isOctal d then d :: more else rest
        | _ => rest
      let (x, rest) := escape rest
      let (text, ends) := unescape fuel rest
      (x ++ text, ends)
    | c :: rest =>
      let (text, ends) := unescape fuel rest
      (c :: text, ends)

/-! ## Directions -/

/-- The integer of an argument, and whether all of it was a number. A quote stands for the number of
the octet after it; a number that does not fit is the nearest one that does. -/
def argument (signed : Bool) (t : Octets) : Int × Bool :=
  match t with
  | [] => (0, true)
  | '"' :: cs | '\'' :: cs => ((cs.head?.map Char.toNat).getD 0, true)
  | _ =>
    let cs := t.dropWhile Char.isWhitespace
    let (negative, cs) :=
      match cs with
      | '-' :: cs => (true, cs)
      | '+' :: cs => (false, cs)
      | _ => (false, cs)
    let isDigit (base : Nat) (c : Char) : Bool := (Arithmetic.inBase? base [c]).isSome
    let (base, digits, rest) :=
      match cs with
      | '0' :: 'x' :: cs | '0' :: 'X' :: cs =>
        (16, cs.takeWhile (isDigit 16), cs.dropWhile (isDigit 16))
      | '0' :: cs => (8, '0' :: cs.takeWhile (isDigit 8), cs.dropWhile (isDigit 8))
      | cs => (10, cs.takeWhile (isDigit 10), cs.dropWhile (isDigit 10))
    let v := (Arithmetic.inBase? base digits).getD 0
    let sign (v : Int) : Int := if negative then -v else v
    let fitting :=
      if signed then saturated (sign v) else if wordMax < v then wordMax else sign v
    (fitting, rest.isEmpty && !digits.isEmpty && (fitting == sign v))

/-- How an argument is written. -/
structure Direction where
  left : Bool
  zeros : Bool
  plus : Bool
  space : Bool
  alternate : Bool
  width : Nat
  precision : Option Nat
  /-- What kind of argument is written. -/
  kind : Char

namespace Direction

/-- The number of digits at the start of a text. -/
def digits (cs : Octets) : Nat × Octets :=
  ((cs.takeWhile Char.isDigit).foldl (fun n c => 10 * n + (c.toNat - 48)) 0,
    cs.dropWhile Char.isDigit)

/-- The number at the start of a text, or the next argument where a star stands for it; with the
text and the arguments after it. -/
def measure (cs : Octets) (args : List Octets) : Int × Octets × List Octets :=
  match cs with
  | '*' :: rest => ((argument true (args.head?.getD [])).1, rest, args.drop 1)
  | _ =>
    let (n, rest) := digits cs
    (n, rest, args)

/-- The direction after a percent sign, with the text and the arguments after it. -/
def read? (cs : Octets) (args : List Octets) : Option (Direction × Octets × List Octets) :=
  let isFlag (c : Char) : Bool := ['-', '0', '+', ' ', '#'].contains c
  let flags := cs.takeWhile isFlag
  let (width, rest, args) := measure (cs.dropWhile isFlag) args
  let (precision, rest, args) :=
    match rest with
    | '.' :: rest =>
      let (n, rest, args) := measure rest args
      (if n < 0 then none else some n.toNat, rest, args)
    | _ => (none, rest, args)
  match rest with
  | [] => none
  | kind :: rest =>
    some (⟨flags.contains '-' || width < 0, flags.contains '0', flags.contains '+',
      flags.contains ' ', flags.contains '#', width.natAbs, precision, kind⟩, rest, args)

/-- Fills a text up to the width. -/
def fill (d : Direction) (sign body : Octets) (zeros : Bool) : Octets :=
  let room := d.width - (sign.length + body.length)
  if d.left then sign ++ body ++ List.replicate room ' '
  else if zeros then sign ++ List.replicate room '0' ++ body
  else List.replicate room ' ' ++ sign ++ body

/-- Writes a text. -/
def text (d : Direction) (t : Octets) : Octets :=
  d.fill [] (match d.precision with
    | some n => t.take n
    | none => t) false

/-- Writes digits with a sign in front. -/
def withDigits (d : Direction) (sign digits : Octets) : Octets :=
  let digits := match d.precision with
    | some 0 => if digits = ['0'] then [] else digits
    | some n => List.replicate (n - digits.length) '0' ++ digits
    | none => digits
  d.fill sign digits (d.zeros && d.precision.isNone)

/-- Writes an integer. -/
def integer (d : Direction) (v : Int) : Octets :=
  let natural := if v < 0 then (v + wordMax + 1).toNat else v.toNat
  match d.kind with
  | 'd' | 'i' =>
    let sign := if v < 0 then ['-'] else if d.plus then ['+'] else if d.space then [' '] else []
    d.withDigits sign (Nat.toDigits 10 v.natAbs)
  | 'o' =>
    d.withDigits (if d.alternate then ['0'] else []) (Nat.toDigits 8 natural)
  | 'x' =>
    d.withDigits (if d.alternate ∧ natural ≠ 0 then ['0', 'x'] else [])
      (Nat.toDigits 16 natural)
  | 'X' =>
    d.withDigits (if d.alternate ∧ natural ≠ 0 then ['0', 'X'] else [])
      ((Nat.toDigits 16 natural).map Char.toUpper)
  | _ => d.withDigits [] (Nat.toDigits 10 natural)

end Direction

/-! ## Formats -/

/-- The digits of a magnitude with a fixed number of places. -/
def fixedDigits (places : Nat) (point : Bool) (x : Float) : Octets :=
  let digits := natural (Decimal.rounded (Binary.ofFloat x) places)
  let padded := List.replicate (places + 1 - digits.length) '0' ++ digits
  let (whole, fraction) := padded.splitAt (padded.length - places)
  whole ++ (if fraction.isEmpty && !point then [] else '.' :: fraction)

/-- A magnitude as a number with so many digits after the first one, and a power of ten. -/
def scaledTo (places : Nat) (x : Float) : Nat × Int :=
  let b := Binary.ofFloat x
  if b.mantissa = 0 then (0, 0)
  else
    let num := b.mantissa * Nat.pow 2 b.exponent.toNat
    let den := Nat.pow 2 (-b.exponent).toNat
    let lead := Decimal.leading num den
    let shift := (places : Int) - lead
    let n := Decimal.roundDiv (num * Nat.pow 10 shift.toNat) (den * Nat.pow 10 (-shift).toNat)
    if n = Nat.pow 10 (places + 1) then (Nat.pow 10 places, lead + 1) else (n, lead)

/-- A power of ten behind its mark, with at least two digits. -/
def powerText (power : Int) : Octets :=
  let digits := natural power.natAbs
  ['e', if power < 0 then '-' else '+'] ++ List.replicate (2 - digits.length) '0' ++ digits

/-- The digits of a magnitude with a power of ten. -/
def scaledDigits (places : Nat) (point : Bool) (x : Float) : Octets :=
  let (n, power) := scaledTo places x
  let digits := natural n
  let (whole, fraction) := (digits ++ List.replicate (places + 1 - digits.length) '0').splitAt 1
  whole ++ (if fraction.isEmpty && !point then [] else '.' :: fraction) ++ powerText power

/-- The digits of a magnitude with a number of digits that count, with a power of ten where the
digits would be far from the point. Zeros at the end are dropped unless a point is asked for. -/
def generalDigits (count : Nat) (point : Bool) (x : Float) : Octets :=
  let places := count - 1
  let power := (scaledTo places x).2
  let trim (t : Octets) : Octets :=
    if point ∨ !t.contains '.' then t
    else ((t.reverse.dropWhile (· = '0')).dropWhile (· = '.')).reverse
  if power < -4 ∨ places < power then
    let t := scaledDigits places point x
    trim (t.takeWhile (· ≠ 'e')) ++ t.dropWhile (· ≠ 'e')
  else trim (fixedDigits ((places : Int) - power).toNat point x)

/-- Writes a float. -/
def Direction.float (d : Direction) (x : Float) : Octets :=
  let precision := d.precision.getD 6
  let sign := if isSigned x then ['-'] else if d.plus then ['+'] else if d.space then [' '] else []
  let digits :=
    if x.isNaN then "nan".toList
    else if x.isInf then "inf".toList
    else
      match d.kind.toLower with
      | 'e' => scaledDigits precision d.alternate x
      | 'g' => generalDigits (max precision 1) d.alternate x
      | _ => fixedDigits precision d.alternate x
  d.fill sign (if d.kind.isUpper then digits.map Char.toUpper else digits)
    (d.zeros && !x.isNaN && !x.isInf)

/-- The float of an argument, and whether all of it was a number. -/
def floatArgument (t : Octets) : Float × Bool :=
  if t.isEmpty then (0, true)
  else
    let cs := t.dropWhile Char.isWhitespace
    let lengths := (List.range (cs.length + 1)).reverse
    let first := lengths.findSome? fun n => (readFloat (String.ofList (cs.take n))).map (n, ·)
    match first with
    | some (n, x) => (x, n = cs.length)
    | none => (0, false)

/-- What a format has written. -/
structure Written where
  text : Octets
  /-- The arguments that are left. -/
  left : List Octets
  /-- 0 if all is well, 1 if an argument is not what the format asks for, and 2 if the format asks
  for nothing that there is. -/
  status : Nat
  /-- Whether an argument ends all writing. -/
  ends : Bool

/-- What is written after an argument. -/
def Written.after (w : Written) (sound : Bool) : Written :=
  if sound then w else { w with status := max w.status 1 }

/-- Goes once through a format. -/
def formatOnce : (fuel : Nat) → Octets → List Octets → Written
  | 0, _, args => ⟨[], args, 0, false⟩
  | fuel + 1, cs, args =>
    let add (text : Octets) (w : Written) : Written := { w with text := text ++ w.text }
    match cs with
    | [] => ⟨[], args, 0, false⟩
    | '\\' :: rest =>
      let (x, rest) := escape rest
      add x (formatOnce fuel rest args)
    | '%' :: '%' :: rest => add ['%'] (formatOnce fuel rest args)
    | '%' :: rest =>
      match Direction.read? rest args with
      | none => ⟨[], [], 2, true⟩
      | some (d, rest, args) =>
        let arg := args.head?.getD []
        let next := formatOnce fuel rest (args.drop 1)
        match d.kind with
        | 's' => add (d.text arg) next
        | 'c' => add (d.text [arg.head?.getD '\x00']) next
        | 'b' =>
          let (t, ends) := unescape (arg.length + 1) arg
          if ends then ⟨d.text t, [], 0, true⟩ else add (d.text t) next
        | 'd' | 'i' | 'u' | 'o' | 'x' | 'X' =>
          let (v, sound) := argument (d.kind = 'd' || d.kind = 'i') arg
          let w := add (d.integer v) next
          w.after sound
        | 'f' | 'F' | 'e' | 'E' | 'g' | 'G' =>
          let (x, sound) := floatArgument arg
          let w := add (d.float x) next
          w.after sound
        | _ => ⟨[], [], 2, true⟩
    | c :: rest => add [c] (formatOnce fuel rest args)

/-- What a format writes, and the status after it. It is used again while arguments are left. -/
def format (fmt : Octets) : (fuel : Nat) → List Octets → Octets × Nat
  | 0, _ => ([], 0)
  | fuel + 1, args =>
    let w := formatOnce (fmt.length + 1) fmt args
    if w.ends ∨ w.left.isEmpty ∨ w.left.length = args.length then (w.text, w.status)
    else
      let (text, status) := format fmt fuel w.left
      (w.text ++ text, max w.status status)

end Shell

end Scheduling
