import Scheduling.Shell.Format
import Scheduling.Shell.Options
import Scheduling.Shell.Pattern
import Scheduling.Text.Blank

/-!
# The state of a shell

What a script has at hand while it runs: its variables and arguments, what it can read, and what it
has written. `State.builtin?` carries out the commands that need nothing else.
-/

namespace Scheduling

namespace Shell

/-- How a script goes on after a command. -/
inductive Flow where
  | on
  /-- So many loops are left. -/
  | breaks (loops : Nat)
  /-- The last of so many loops goes on with its next round. -/
  | continues (loops : Nat)
  | returns
  | ends
  /-- The script waits for something to read, for ever. -/
  | waits
deriving DecidableEq, Repr

/-- A shell at work. -/
structure State where
  bindings : Bindings
  /-- The variables that must not change. -/
  constants : List Octets
  /-- The name of the script and its arguments. -/
  name : Octets
  arguments : List Octets
  functions : List (Octets × Command)
  /-- What variables of a function stood for before it, the last one first. -/
  saved : List (Octets × Option Octets)
  /-- The letters of the options that are set. -/
  options : List Char
  /-- Whether the status of a command is looked at, so that a failure is no reason to end. -/
  tested : Bool
  /-- How many loops are around the command. -/
  loops : Nat
  /-- What can be read. -/
  input : Octets
  /-- Whether more may come after it, so that reading on waits. -/
  live : Bool
  /-- The descriptors that write to the output. -/
  outputs : List Nat
  output : Octets
  status : Nat
  /-- The status of the last part of a word that was a script. -/
  partStatus : Nat
  flow : Flow
  /-- What is carried out at the end. -/
  atEnd : Octets

namespace State

/-- The start of a script. -/
def start (options : List Char) (name : Octets) (arguments : List Octets) (input : Octets) :
    State :=
  ⟨[], [], name, arguments, [], [], options, false, 0, input, true, [1], [], 0, 0, .on, []⟩

/-- Whether an option is set. -/
def has (s : State) (option : Char) : Bool := s.options.contains option

/-- Whether the next command is carried out. -/
def goesOn (s : State) : Bool := s.flow = .on

/-- Ends a command with a status. -/
def withStatus (s : State) (status : Nat) : State := { s with status }

/-- Ends a command, with success or not. -/
def answer (s : State) (success : Bool) : State := { s with status := if success then 0 else 1 }

/-- Writes a text. -/
def write (s : State) (t : Octets) : State :=
  if s.outputs.contains 1 then { s with output := s.output ++ t } else s

/-! ## Parameters -/

/-- Sets a variable; the script ends if it must not change. -/
def put (s : State) (name value : Octets) : State :=
  if s.constants.contains name then { s with status := 2, flow := .ends }
  else { s with bindings := s.bindings.put name value }

/-- The value of a variable. -/
def valueOf? (s : State) (name : String) : Option Octets := s.bindings.lookup name.toList

/-- The characters that separate fields. -/
def separators (s : State) : Octets := (s.valueOf? "IFS").getD [' ', '\t', '\n']

/-- The value of a parameter that is one text. -/
def parameter? (s : State) (name : Octets) : Option Octets :=
  match name with
  | ['#'] => some (natural s.arguments.length)
  | ['?'] => some (natural s.status)
  | ['0'] => some s.name
  | ['$'] => some ['1']
  | ['-'] => some (s.options.filter (· ≠ 'c'))
  | _ =>
    if name.all Char.isDigit then
      let n := name.foldl (fun n c => 10 * n + (c.toNat - 48)) 0
      if n = 0 then some s.name else s.arguments[n - 1]?
    else s.bindings.lookup name

/-! ## Fields -/

/-- A piece of an expanded word. -/
inductive Piece where
  | fixed (quoted : Bool) (t : Octets)
  /-- A text that separators cut into fields. -/
  | loose (t : Octets)
  /-- The border between two fields. -/
  | border
deriving DecidableEq, Repr

/-- The piece without quotes, if it has none, cut into fields. -/
def Piece.loosened : Piece → Piece
  | fixed false t => loose t
  | p => p

/-- The fields of a text that follows the start of a field: those that are complete, and the start
of the next one. Blanks around another separator belong to it. -/
def split (separators t : Octets) (current : Option Marked) : List Marked × Option Marked :=
  let step (acc : List Marked × Option Marked × Bool) (c : Char) :
      List Marked × Option Marked × Bool :=
    let (done, current, spaced) := acc
    if !separators.contains c then (done, some (current.getD [] ++ [(false, c)]), false)
    else if c.isWhitespace then
      match current with
      | some f => (done ++ [f], none, true)
      | none => (done, none, spaced)
    else if spaced then (done, none, false)
    else (done ++ [current.getD []], none, false)
  let (done, current, _) := t.foldl step ([], current, false)
  (done, current)

/-- The fields of pieces after the start of a field. -/
def fields (separators : Octets) : Option Marked → List Piece → List Marked
  | current, [] => current.toList
  | current, .fixed quoted t :: rest =>
    if !quoted ∧ t.isEmpty then fields separators current rest
    else fields separators (some (current.getD [] ++ t.map fun c => (quoted, c))) rest
  | current, .loose t :: rest =>
    let (done, current) := split separators t current
    done ++ fields separators current rest
  | current, .border :: rest => current.toList ++ fields separators none rest

/-- The one text of pieces. -/
def Piece.marked : List Piece → Marked
  | [] => []
  | .fixed quoted t :: rest => t.map (fun c => (quoted, c)) ++ marked rest
  | .loose t :: rest => t.map (fun c => (false, c)) ++ marked rest
  | .border :: rest => (true, ' ') :: marked rest

/-! ## Reading -/

/-- The first line of a text, with escaped characters marked unless it is read raw; the text after
it, and whether the line has an end. -/
def lineAt (raw : Bool) : Octets → Marked × Octets × Bool
  | [] => ([], [], false)
  | '\n' :: rest => ([], rest, true)
  | '\x00' :: rest => lineAt raw rest
  | '\\' :: c :: rest =>
    if raw then
      let (line, rest, ended) := lineAt raw (c :: rest)
      ((false, '\\') :: line, rest, ended)
    else
      let (line, rest, ended) := lineAt raw rest
      (if c = '\n' then line else (true, c) :: line, rest, ended)
  | c :: rest =>
    let (line, rest, ended) := lineAt raw rest
    ((false, c) :: line, rest, ended)

/-- The values of variables that a line is read into. The last one gets the rest of the line, or
only a field if nothing but a separator comes after it. -/
def distribute (separators : Octets) : (names : List Octets) → Marked → List (Octets × Octets)
  | [], _ => []
  | name :: names, line =>
    let isSeparator (m : Bool × Char) : Bool := !m.1 && separators.contains m.2
    let isSpace (m : Bool × Char) : Bool := isSeparator m && m.2.isWhitespace
    let line := line.dropWhile isSpace
    let field := line.takeWhile fun m => !isSeparator m
    let rest := (line.drop field.length).dropWhile isSpace
    let rest := if rest.head?.any isSeparator then rest.drop 1 else rest
    if !names.isEmpty ∨ (rest.dropWhile isSpace).isEmpty then
      (name, field.map Prod.snd) :: distribute separators names rest
    else [(name, ((line.reverse.dropWhile isSpace).reverse).map Prod.snd)]

/-- Reads a line into variables. -/
def readLine (s : State) (raw : Bool) (names : List Octets) : State :=
  let (line, input, ended) := lineAt raw s.input
  if !ended ∧ s.live then { s with input := [], flow := .waits }
  else
    let s := { s with input }
    (distribute s.separators names line).foldl (fun s (name, value) => s.put name value)
      (s.answer ended)

/-! ## Tests -/

/-- The integer of a word, which may have blanks around it. -/
def integer? (t : Octets) : Option Int :=
  match trimBlanks t with
  | '-' :: digits => (Arithmetic.inBase? 10 digits).map (- ·)
  | '+' :: digits => Arithmetic.inBase? 10 digits
  | digits => Arithmetic.inBase? 10 digits

/-- A test with two sides; there is none of another name, or when a side is no number. -/
def compare? (a : Octets) (operator : String) (b : Octets) : Option Bool :=
  let numbers (p : Int → Int → Bool) : Option Bool := do
    some (p (← integer? a) (← integer? b))
  match operator with
  | "=" | "==" => some (a == b)
  | "!=" => some (a != b)
  | "<" => some (decide (a < b))
  | ">" => some (decide (b < a))
  | "-eq" => numbers (· == ·)
  | "-ne" => numbers (· != ·)
  | "-lt" => numbers fun x y => decide (x < y)
  | "-le" => numbers fun x y => decide (x ≤ y)
  | "-gt" => numbers fun x y => decide (y < x)
  | "-ge" => numbers fun x y => decide (y ≤ x)
  | _ => none

/-- A test of one word. No file is there. -/
def inspect? (operator : String) (a : Octets) : Option Bool :=
  match operator with
  | "-n" => some !a.isEmpty
  | "-z" => some a.isEmpty
  | "-e" | "-f" | "-d" | "-r" | "-w" | "-x" | "-s" | "-h" | "-L" | "-p" | "-S" | "-t" => some false
  | _ => none

/-- The operators with two sides. -/
def comparisons : List String :=
  ["=", "==", "!=", "<", ">", "-eq", "-ne", "-lt", "-le", "-gt", "-ge"]

mutual

/-- Evaluates tests that are joined by `-o`; a missing one fails. -/
def anyTest : (fuel : Nat) → List Octets → Option (Bool × List Octets)
  | 0, _ => none
  | fuel + 1, words => do
    let (a, rest) ← allTests fuel words
    match rest with
    | ['-', 'o'] :: rest => do
      let (b, rest) ← anyTest fuel rest
      some (a || b, rest)
    | _ => some (a, rest)

/-- Evaluates tests that are joined by `-a`. -/
def allTests : (fuel : Nat) → List Octets → Option (Bool × List Octets)
  | 0, _ => none
  | fuel + 1, words => do
    let (a, rest) ← oneTest fuel words
    match rest with
    | ['-', 'a'] :: rest => do
      let (b, rest) ← allTests fuel rest
      some (a && b, rest)
    | _ => some (a, rest)

/-- Evaluates one test. -/
def oneTest : (fuel : Nat) → List Octets → Option (Bool × List Octets)
  | 0, _ => none
  | fuel + 1, words =>
    match words with
    | [] => some (false, [])
    | a :: operator :: b :: rest =>
      if comparisons.contains (String.ofList operator) then
        (compare? a (String.ofList operator) b).map fun v => (v, rest)
      else oneMore fuel a (operator :: b :: rest)
    | a :: rest => oneMore fuel a rest

/-- Evaluates a test that is no comparison. -/
def oneMore : (fuel : Nat) → Octets → List Octets → Option (Bool × List Octets)
  | 0, _, _ => none
  | fuel + 1, a, rest =>
    match String.ofList a, rest with
    | "!", _ :: _ => (oneTest fuel rest).map fun (v, rest) => (!v, rest)
    | "(", _ :: _ => do
      let (v, rest) ← anyTest fuel rest
      match rest with
      | [')'] :: rest => some (v, rest)
      | _ => none
    | operator, b :: after =>
      match inspect? operator b with
      | some v => some (v, after)
      | none => some (!a.isEmpty, rest)
    | _, [] => some (!a.isEmpty, [])

end

/-- The status of a test: 0 if it holds, 1 if it does not, and 2 if it is none. -/
def testStatus (words : List Octets) : Nat :=
  if words.isEmpty then 1
  else
    match anyTest (4 * words.length + 4) words with
    | some (v, []) => if v then 0 else 1
    | _ => 2

/-! ## Commands -/

/-- The number of an argument, or another number without one. -/
def countOf (args : List Octets) (default : Nat) : Nat :=
  match args with
  | [] => default
  | a :: _ => ((integer? a).getD default).toNat

/-- Writes the input to its end. -/
def copyInput (s : State) : State :=
  let t := s.write s.input
  { t with input := [], flow := if s.live then .waits else s.flow }.withStatus 0

/-- Writes the first lines of the input. -/
def copyLines (s : State) (count : Nat) : State :=
  let parts := splitAtChar '\n' s.input
  if count < parts.length then
    let lines := (parts.take count).map (· ++ ['\n'])
    let input := ((parts.drop count).intersperse ['\n']).flatten
    { s.write lines.flatten with input }.withStatus 0
  else s.copyInput

/-- Carries out `set`: what follows the options becomes the arguments of the script. -/
def setArguments (s : State) (args : List Octets) : State :=
  match Options.read (args.length + 1) s.options args with
  | none => { s with status := 2, flow := .ends }
  | some o =>
    let s := { s with options := o.letters }.withStatus 0
    if o.rest.isEmpty ∧ !o.closed then s else { s with arguments := o.rest }

/-- Carries out an assignment in an argument. -/
def putArgument (s : State) (arg : Octets) : State :=
  let name := nameAt arg
  match arg.drop name.length with
  | '=' :: value => if name.isEmpty then s else s.put name value
  | _ => s

/-- Carries out an assignment in an argument, to be undone at the end of the function. -/
def putLocal (s : State) (arg : Octets) : State :=
  let name := nameAt arg
  { s with saved := (name, s.bindings.lookup name) :: s.saved }.putArgument arg

/-- Gives variables back what they stood for. -/
def restore (s : State) (saved : List (Octets × Option Octets)) : State :=
  let undo (bindings : Bindings) (v : Octets × Option Octets) : Bindings :=
    match v.2 with
    | some value => bindings.put v.1 value
    | none => bindings.filter (·.1 ≠ v.1)
  { s with bindings := saved.foldl undo s.bindings }

/-- The numbers from one to another as lines. -/
def sequence (first step last : Int) : Octets :=
  let count := if step = 0 then 0 else ((last - first) / step + 1).toNat
  (List.range count).flatMap fun (i : Nat) => (intText (first + step * i)).toList ++ ['\n']

/-- Writes how many octets or line ends the input has. -/
def countInput (s : State) (lines : Bool) : State :=
  if s.live then { s with input := [], flow := .waits }
  else
    let n := if lines then s.input.count '\n' else s.input.length
    { s.write (natural n ++ ['\n']) with input := [] }.withStatus 0

/-- Carries out a command that needs nothing but the state; there is none of another name. -/
def builtin? (s : State) (name : String) (args : List Octets) : Option State :=
  let done := s.withStatus 0
  match name with
  | ":" | "true" | "sleep" | "wait" | "umask" | "kill" => some done
  | "trap" =>
    match args with
    | [action, condition] =>
      if condition = "EXIT".toList ∨ condition = ['0'] then
        some { done with atEnd := if action = ['-'] then [] else action }
      else some done
    | _ => some done
  | "false" => some (s.withStatus 1)
  | "echo" =>
    let (newline, args) :=
      match args with
      | ['-', 'n'] :: args => (false, args)
      | _ => (true, args)
    let line := (args.intersperse [' ']).flatten
    let (t, ends) := unescape (line.length + 1) line
    some (done.write (if newline && !ends then t ++ ['\n'] else t))
  | "printf" =>
    match if args.head? = some ['-', '-'] then args.drop 1 else args with
    | [] => some (s.withStatus 2)
    | fmt :: rest =>
      if fmt.head? = some '-' ∧ fmt ≠ ['-'] ∧ args.head? = some fmt then some (s.withStatus 2)
      else
        let (t, status) := format fmt (rest.length + 1) rest
        some ((s.write t).withStatus status)
  | "read" =>
    let raw := args.contains ['-', 'r']
    some (s.readLine raw (args.filter (· ≠ ['-', 'r'])))
  | "test" => some (s.withStatus (testStatus args))
  | "[" =>
    some (s.withStatus (if args.getLast? = some [']'] then testStatus args.dropLast else 2))
  | "exit" => some { s with status := countOf args s.status % 256, flow := .ends }
  | "return" => some { s with status := countOf args s.status % 256, flow := .returns }
  | "break" | "continue" =>
    let n := min (countOf args 1) s.loops
    if n = 0 then some done
    else some { done with flow := if name = "break" then .breaks n else .continues n }
  | "shift" =>
    let n := countOf args 1
    if s.arguments.length < n then some { s with status := 2, flow := .ends }
    else some { done with arguments := s.arguments.drop n }
  | "set" => some (s.setArguments args)
  | "unset" => some { done with bindings := s.bindings.filter fun v => !args.contains v.1 }
  | "export" => some (args.foldl putArgument done)
  | "readonly" =>
    let t := args.foldl putArgument done
    some { t with constants := args.map nameAt ++ t.constants }
  | "local" => some (args.foldl putLocal done)
  | "seq" =>
    match args.mapM integer? with
    | some [last] => some (done.write (sequence 1 1 last))
    | some [first, last] => some (done.write (sequence first 1 last))
    | some [first, step, last] => some (done.write (sequence first step last))
    | _ => some (s.withStatus 1)
  | "wc" =>
    match args with
    | [['-', 'c']] => some (s.countInput false)
    | [['-', 'l']] => some (s.countInput true)
    | _ => some (s.withStatus 1)
  | "cat" =>
    if args.all (· = ['-']) then some s.copyInput
    else some (s.answer (args.all (· = "/dev/null".toList)))
  | "head" =>
    match args with
    | [] => some (s.copyLines 10)
    | [['-', 'n'], n] => some (s.copyLines (countOf [n] 10))
    | ['-' :: 'n' :: n] | ['-' :: n] => some (s.copyLines (countOf [n] 10))
    | _ => some (s.withStatus 1)
  | _ => none

end State

end Shell

end Scheduling
