import Scheduling.Shell.Command

/-!
# Options of a shell

The letters with which a shell is told how to run its script: they stand before the arguments of the
shell, and scripts can change them.
-/

namespace Scheduling

namespace Shell

/-- Options of a shell, as its arguments give them. -/
structure Options where
  /-- The letters of those that are set. -/
  letters : List Char
  /-- Whether the script is an argument. -/
  isScript : Bool
  /-- Whether a mark ends the options. -/
  closed : Bool
  /-- The arguments after the options. -/
  rest : List Octets

namespace Options

/-- The letters of options. -/
def known : List Char :=
  ['e', 'f', 'I', 'i', 'm', 'n', 's', 'x', 'v', 'V', 'E', 'C', 'a', 'b', 'u', 'c']

/-- The letter of an option by its name. -/
def letter? (name : Octets) : Option Char :=
  match String.ofList name with
  | "errexit" => some 'e'
  | "noglob" => some 'f'
  | "noexec" => some 'n'
  | "xtrace" => some 'x'
  | "verbose" => some 'v'
  | "nounset" => some 'u'
  | "noclobber" => some 'C'
  | "allexport" => some 'a'
  | _ => none

/-- Reads options; there are none if one is not known. -/
def read : (fuel : Nat) → (letters : List Char) → List Octets → Option Options
  | 0, _, _ => none
  | fuel + 1, letters, args =>
    let change (value : Bool) (letters : List Char) (c : Char) : List Char :=
      if value then letters ++ [c] else letters.filter (· ≠ c)
    match args with
    | [] => some ⟨letters, false, false, []⟩
    | ['-', '-'] :: rest | ['-'] :: rest => some ⟨letters, false, true, rest⟩
    | (sign :: cs) :: rest =>
      if sign ≠ '-' ∧ sign ≠ '+' then some ⟨letters, false, false, args⟩
      else
        let plain := cs.filter (· ≠ 'o')
        let (names, rest) := rest.splitAt (cs.count 'o')
        if !plain.all known.contains then none
        else do
          let more ← names.mapM letter?
          let o ← read fuel ((plain ++ more).foldl (change (sign = '-')) letters) rest
          some { o with isScript := o.isScript || cs.contains 'c' }
    | [] :: _ => some ⟨letters, false, false, args⟩

end Options

end Shell

end Scheduling
