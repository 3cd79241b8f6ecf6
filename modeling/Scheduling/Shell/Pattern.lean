import Scheduling.Shell.Command

/-!
# Patterns of a shell

Patterns that texts are compared with: a star stands for any text, a question mark for any
character, and brackets for one of some characters. What is quoted stands for itself.
-/

namespace Scheduling

namespace Shell

/-- A text in which each character may be quoted. -/
abbrev Marked := List (Bool × Char)

/-- An element of a pattern. -/
inductive Glob where
  | char (c : Char)
  | any
  /-- Any text. -/
  | anyText
  /-- One of some ranges of characters, or none of them. -/
  | oneOf (negated : Bool) (ranges : List (Char × Char))
deriving DecidableEq, Repr

namespace Glob

/-- The ranges in brackets, up to the closing one, and the text after it. -/
def ranges? : (fuel : Nat) → (first : Bool) → Marked → Option (List (Char × Char) × Marked)
  | 0, _, _ => none
  | fuel + 1, first, cs =>
    match cs with
    | [] => none
    | (false, ']') :: rest =>
      if first then (ranges? fuel false rest).map fun (rs, rest) => ((']', ']') :: rs, rest)
      else some ([], rest)
    | (_, a) :: (false, '-') :: (q, b) :: rest =>
      if q = false ∧ b = ']' then
        (ranges? fuel false ((q, b) :: rest)).map fun (rs, rest) =>
          ((a, a) :: ('-', '-') :: rs, rest)
      else (ranges? fuel false rest).map fun (rs, rest) => ((a, b) :: rs, rest)
    | (_, a) :: rest => (ranges? fuel false rest).map fun (rs, rest) => ((a, a) :: rs, rest)

/-- The elements of a pattern. -/
def ofMarked : (fuel : Nat) → Marked → List Glob
  | 0, _ => []
  | fuel + 1, cs =>
    match cs with
    | [] => []
    | (false, '*') :: rest => anyText :: ofMarked fuel rest
    | (false, '?') :: rest => any :: ofMarked fuel rest
    | (false, '[') :: rest =>
      let (negated, inner) :=
        match rest with
        | (false, '!') :: inner | (false, '^') :: inner => (true, inner)
        | _ => (false, rest)
      match ranges? (inner.length + 1) true inner with
      | some (rs, rest) => oneOf negated rs :: ofMarked fuel rest
      | none => char '[' :: ofMarked fuel rest
    | (false, '\\') :: (_, c) :: rest => char c :: ofMarked fuel rest
    | (_, c) :: rest => char c :: ofMarked fuel rest

/-- Whether a character is what an element stands for. -/
def accepts (g : Glob) (c : Char) : Bool :=
  match g with
  | char d => c == d
  | any => true
  | anyText => false
  | oneOf negated rs => (rs.any fun r => r.1 ≤ c && c ≤ r.2) != negated

/-- The ends of a text, the longest first. -/
def ends : Octets → List Octets
  | [] => [[]]
  | c :: cs => (c :: cs) :: ends cs

/-- Whether a whole text is what a pattern stands for. -/
def isMatch : List Glob → Octets → Bool
  | [], cs => cs.isEmpty
  | anyText :: gs, cs => (ends cs).any fun rest => isMatch gs rest
  | _ :: _, [] => false
  | g :: gs, c :: cs => g.accepts c && isMatch gs cs

/-- Takes from a text what a pattern stands for, at its start or its end, as much or as little as
possible. -/
def strip (fromEnd longest : Bool) (pattern : List Glob) (cs : Octets) : Octets :=
  let lengths := List.range (cs.length + 1)
  let matching := lengths.filter fun n =>
    isMatch pattern (if fromEnd then cs.drop (cs.length - n) else cs.take n)
  match if longest then matching.getLast? else matching.head? with
  | some n => if fromEnd then cs.take (cs.length - n) else cs.drop n
  | none => cs

end Glob

/-- Whether a text is what a pattern stands for. -/
def matchesPattern (pattern : Marked) (text : Octets) : Bool :=
  Glob.isMatch (Glob.ofMarked pattern.length pattern) text

end Shell

end Scheduling
