import Scheduling.Shell.Command

/-!
# Reading shell scripts

The commands of a script, line by line. Reading stops at the first line that breaks a rule; the
lines before it can still be carried out.
-/

namespace Scheduling

namespace Shell

/-! ## Characters -/

/-- Whether a character ends a word. -/
def isMeta (c : Char) : Bool := [' ', '\t', '\n', ';', '&', '|', '<', '>', '(', ')'].contains c

/-- Whether a character may stand in a name. -/
def isNameChar (c : Char) : Bool := c.isAlphanum || c = '_'

/-- The name at the start of a text, if there is one. -/
def nameAt (cs : Octets) : Octets :=
  match cs.head? with
  | some c => if c.isDigit then [] else cs.takeWhile isNameChar
  | none => []

/-- Whether a character is the name of a parameter of its own. -/
def isSpecial (c : Char) : Bool :=
  c.isDigit || ['@', '*', '#', '?', '$', '!', '-'].contains c

/-- Skips blanks, and line breaks after a backslash. -/
def skipSpaces : Octets → Octets
  | ' ' :: rest | '\t' :: rest => skipSpaces rest
  | '\\' :: '\n' :: rest => skipSpaces rest
  | cs => cs

/-- Skips blanks and a comment. -/
def skipBlanks (cs : Octets) : Octets :=
  match skipSpaces cs with
  | '#' :: rest => rest.dropWhile (· ≠ '\n')
  | cs => cs

/-- Skips blanks, comments and line breaks. -/
def skipLines : (fuel : Nat) → Octets → Octets
  | 0, cs => cs
  | fuel + 1, cs =>
    match skipBlanks cs with
    | '\n' :: rest => skipLines fuel rest
    | cs => cs

/-- The text after a word, if that is what comes next. -/
def keyword? (word : String) (cs : Octets) : Option Octets :=
  let w := word.toList
  let rest := cs.drop w.length
  if cs.take w.length = w ∧ rest.head?.all isMeta then some rest else none

/-- The words that end a list of commands. -/
def closers : List String := ["then", "else", "elif", "fi", "do", "done", "esac", "\x7d"]

/-- Whether a list of commands ends here. -/
def atCloser (cs : Octets) : Bool :=
  match cs with
  | [] | ')' :: _ | ';' :: ';' :: _ => true
  | _ => closers.any fun w => (keyword? w cs).isSome

/-! ## Quotes -/

/-- Where the text stands that is read as parts of a word. -/
inductive Place where
  | plain
  /-- In double quotes. -/
  | double
  /-- In braces after the name of a parameter, in double quotes or not. -/
  | braces (quoted : Bool)
  /-- In a text of several lines or an expression. -/
  | document
deriving DecidableEq, Repr

namespace Place

/-- Whether parts that are read here are in quotes. -/
def isQuoted : Place → Bool
  | plain | braces false => false
  | _ => true

/-- Whether the text ends before a character. -/
def endsBefore (p : Place) (c : Char) : Bool :=
  match p with
  | plain => isMeta c
  | double => c = '"'
  | braces _ => c = '\x7d'
  | document => false

/-- Whether a backslash takes the meaning from a character. -/
def escapes (p : Place) (c : Char) : Bool :=
  match p with
  | plain | braces false => true
  | double => ['$', '\x60', '"', '\\'].contains c
  | braces true => ['$', '\x60', '"', '\\', '\x7d'].contains c
  | document => ['$', '\x60', '\\'].contains c

end Place

/-- The script between backquotes, and the text after it. In double quotes a backslash takes the
meaning from them too. -/
def backquoted? (quoted : Bool) : Octets → Option (Octets × Octets)
  | [] => none
  | '\x60' :: rest => some ([], rest)
  | '\\' :: c :: rest => do
    let (script, rest) ← backquoted? quoted rest
    let kept :=
      if ['$', '\x60', '\\'].contains c || (quoted && c == '"') then [c] else ['\\', c]
    some (kept ++ script, rest)
  | c :: rest => (backquoted? quoted rest).map fun (script, rest) => (c :: script, rest)

/-- The expression before two closing brackets, and the text after them; `depth` brackets are
open. -/
def expression? : (depth : Nat) → Octets → Option (Octets × Octets)
  | _, [] => none
  | 0, ')' :: ')' :: rest => some ([], rest)
  | 0, ')' :: _ => none
  | depth + 1, ')' :: rest => (expression? depth rest).map fun (e, rest) => (')' :: e, rest)
  | depth, '(' :: rest => (expression? (depth + 1) rest).map fun (e, rest) => ('(' :: e, rest)
  | depth, c :: rest => (expression? depth rest).map fun (e, rest) => (c :: e, rest)

/-- The lines before a line that is the mark, and the text after it. Tabs at the starts of lines may
not count. -/
def document (tabs : Bool) (mark : Octets) : (fuel : Nat) → Octets → Octets × Octets
  | 0, cs => ([], cs)
  | fuel + 1, cs =>
    if cs.isEmpty then ([], [])
    else
      let cs := if tabs then cs.dropWhile (· = '\t') else cs
      let line := cs.takeWhile (· ≠ '\n')
      let rest := cs.drop (line.length + 1)
      if line = mark then ([], rest)
      else
        let (text, rest) := document tabs mark fuel rest
        (line ++ '\n' :: text, rest)

/-- The text of a word that means itself, with its quotes taken off, and whether it had any. -/
def plainMark : Octets → Octets × Bool
  | [] => ([], false)
  | '\\' :: c :: rest => (c :: (plainMark rest).1, true)
  | c :: rest =>
    let (text, quoted) := plainMark rest
    if c = '\'' ∨ c = '"' then (text, true) else (c :: text, quoted)

/-- Whether parts stand for all arguments, each as a field, and nothing else. -/
def isList : List Part → Bool
  | [.parameter _ ['@'] _] => true
  | _ => false

/-- The modifier of a parameter by its mark: what it does, and whether an empty value counts as not
set. -/
def fallback? : Octets → Option (Fallback × Bool × Octets)
  | ':' :: '-' :: rest => some (.instead, true, rest)
  | ':' :: '=' :: rest => some (.assign, true, rest)
  | ':' :: '?' :: rest => some (.fail, true, rest)
  | ':' :: '+' :: rest => some (.whenSet, true, rest)
  | '-' :: rest => some (.instead, false, rest)
  | '=' :: rest => some (.assign, false, rest)
  | '?' :: rest => some (.fail, false, rest)
  | '+' :: rest => some (.whenSet, false, rest)
  | _ => none

/-- The parameter at the start of a text after its dollar sign or opening brace. -/
def parameterName? (cs : Octets) : Option (Octets × Octets) :=
  match cs with
  | [] => none
  | c :: rest =>
    if isSpecial c then some ([c], rest)
    else
      let name := nameAt cs
      if name.isEmpty then none else some (name, cs.drop name.length)

/-! ## Words and commands -/

mutual

/-- Reads parts of a word. -/
def parts : (fuel : Nat) → Place → Octets → Option (List Part × Octets)
  | 0, _, _ => none
  | fuel + 1, place, cs =>
    let quoted := place.isQuoted
    let add (p : Part) (rest : Octets) : Option (List Part × Octets) :=
      (parts fuel place rest).map fun (ps, rest) => (p :: ps, rest)
    match cs with
    | [] => some ([], [])
    | c :: rest =>
      if place.endsBefore c then some ([], cs)
      else if c = '\\' then
        match rest with
        | '\n' :: rest => parts fuel place rest
        | d :: rest =>
          if place.escapes d then add (.text true [d]) rest else add (.text quoted ['\\', d]) rest
        | [] => some ([.text quoted ['\\']], [])
      else if c = '\'' ∧ !quoted then
        let t := rest.takeWhile (· ≠ '\'')
        match rest.drop t.length with
        | _ :: rest => add (.text true t) rest
        | [] => none
      else if c = '"' ∧ place ≠ .document then do
        let (inner, rest) ← parts fuel .double rest
        match rest with
        | '"' :: rest => do
          let (ps, rest) ← parts fuel place rest
          some ((if isList inner then inner else .text true [] :: inner) ++ ps, rest)
        | _ => none
      else if c = '\x60' then do
        let (script, rest) ← backquoted? quoted rest
        let (body, _) ← list fuel script
        add (.output quoted body) rest
      else if c = '$' then do
        let (p, rest) ← dollar fuel quoted rest
        add p rest
      else add (.text quoted [c]) rest

/-- Reads what a dollar sign starts. -/
def dollar : (fuel : Nat) → (quoted : Bool) → Octets → Option (Part × Octets)
  | 0, _, _ => none
  | fuel + 1, quoted, cs =>
    match cs with
    | '(' :: '(' :: rest => do
      let (e, rest) ← expression? 0 rest
      let (ps, _) ← parts fuel .document e
      some (.arithmetic quoted ps, rest)
    | '(' :: rest => do
      let (body, rest) ← list fuel rest
      match rest with
      | ')' :: rest => some (.output quoted body, rest)
      | _ => none
    | '\x7b' :: '#' :: '\x7d' :: rest => some (.parameter quoted ['#'] .value, rest)
    | '\x7b' :: '#' :: rest => do
      let (name, rest) ← parameterName? rest
      match rest with
      | '\x7d' :: rest => some (.parameter quoted name .length, rest)
      | _ => none
    | '\x7b' :: rest => do
      let (name, rest) ←
        if (rest.takeWhile Char.isDigit).isEmpty then parameterName? rest
        else some (rest.takeWhile Char.isDigit, rest.dropWhile Char.isDigit)
      let word (use : List Part → Use) (place : Place) (rest : Octets) :
          Option (Part × Octets) := do
        let (ps, rest) ← parts fuel place rest
        match rest with
        | '\x7d' :: rest => some (.parameter quoted name (use ps), rest)
        | _ => none
      match rest with
      | '\x7d' :: rest => some (.parameter quoted name .value, rest)
      | '#' :: '#' :: rest => word (.without false true) (.braces false) rest
      | '#' :: rest => word (.without false false) (.braces false) rest
      | '%' :: '%' :: rest => word (.without true true) (.braces false) rest
      | '%' :: rest => word (.without true false) (.braces false) rest
      | rest => do
        let (fallback, emptyCounts, rest) ← fallback? rest
        word (.orElse fallback emptyCounts) (.braces quoted) rest
    | _ =>
      match parameterName? cs with
      | some (name, rest) => some (.parameter quoted name .value, rest)
      | none => some (.text quoted ['$'], cs)

/-- Reads redirections after a command. -/
def redirects : (fuel : Nat) → Octets → Option (List Redirect × Octets)
  | 0, _ => none
  | fuel + 1, cs =>
    let cs := skipSpaces cs
    let number := cs.takeWhile Char.isDigit
    let descriptor (default : Nat) : Nat :=
      if number.isEmpty then default else number.foldl (fun n c => 10 * n + (c.toNat - 48)) 0
    let more (r : Redirect) (rest : Octets) : Option (List Redirect × Octets) :=
      (redirects fuel rest).map fun (rs, rest) => (r :: rs, rest)
    let target (make : Word → Redirect) (rest : Octets) : Option (List Redirect × Octets) := do
      let (w, rest) ← parts fuel .plain (skipSpaces rest)
      if w.isEmpty then none else more (make w) rest
    match cs.drop number.length with
    | '<' :: '<' :: '<' :: _ => none
    | '<' :: '<' :: rest => do
      let tabs := rest.head? = some '-'
      let rest := skipSpaces (if tabs then rest.drop 1 else rest)
      let word := rest.takeWhile fun c => !isMeta c
      let (mark, quoted) := plainMark word
      let rest := rest.drop word.length
      let line := rest.takeWhile (· ≠ '\n')
      let (text, after) := document tabs mark (rest.length + 1) (rest.drop (line.length + 1))
      let (ps, _) ←
        if quoted then some ([Part.text true text], []) else parts fuel .document text
      more (.fromText ps) (line ++ '\n' :: after)
    | '<' :: '&' :: rest => target (.copy (descriptor 0)) rest
    | '<' :: rest => target .fromFile rest
    | '>' :: '&' :: rest => target (.copy (descriptor 1)) rest
    | '>' :: '>' :: rest | '>' :: '|' :: rest => target (.toFile (descriptor 1)) rest
    | '>' :: rest => target (.toFile (descriptor 1)) rest
    | _ => some ([], cs)

/-- Reads the assignments, words and redirections of a simple command. -/
def simple : (fuel : Nat) → (assigning : Bool) → Octets →
    Option ((List (Octets × Word) × List Word × List Redirect) × Octets)
  | 0, _, _ => none
  | fuel + 1, assigning, cs => do
    let (rs, cs) ← redirects fuel cs
    let cs := skipBlanks cs
    if cs.head?.all isMeta then some (([], [], rs), cs)
    else
      let name := nameAt cs
      match assigning && !name.isEmpty, cs.drop name.length with
      | true, '=' :: rest => do
        let (w, rest) ← parts fuel .plain rest
        let ((as, ws, more), rest) ← simple fuel true rest
        some (((name, w) :: as, ws, rs ++ more), rest)
      | _, _ => do
        let (w, rest) ← parts fuel .plain cs
        let ((as, ws, more), rest) ← simple fuel false rest
        some ((as, w :: ws, rs ++ more), rest)

/-- Reads words up to the end of a line. -/
def words : (fuel : Nat) → Octets → Option (List Word × Octets)
  | 0, _ => none
  | fuel + 1, cs =>
    let cs := skipBlanks cs
    if cs.head?.all isMeta then some ([], cs)
    else do
      let (w, rest) ← parts fuel .plain cs
      let (ws, rest) ← words fuel rest
      some (w :: ws, rest)

/-- Reads a list of commands up to a word, and moves past it. -/
def block : (fuel : Nat) → (closer : String) → Octets → Option (List Command × Octets)
  | 0, _, _ => none
  | fuel + 1, closer, cs => do
    let (body, rest) ← list fuel cs
    if body.isEmpty then none else some (body, ← keyword? closer rest)

/-- Reads the branches of a conditional after `if` or `elif`. -/
def branches : (fuel : Nat) → Octets →
    Option ((List (List Command × List Command) × List Command) × Octets)
  | 0, _ => none
  | fuel + 1, cs => do
    let (condition, rest) ← block fuel "then" cs
    let (body, rest) ← list fuel rest
    if body.isEmpty then none
    else
      match keyword? "elif" rest, keyword? "else" rest with
      | some rest, _ => do
        let ((more, otherwise), rest) ← branches fuel rest
        some (((condition, body) :: more, otherwise), rest)
      | none, some rest => do
        let (otherwise, rest) ← block fuel "fi" rest
        some (([(condition, body)], otherwise), rest)
      | none, none => do some (([(condition, body)], []), ← keyword? "fi" rest)

/-- Reads the branches of a choice. -/
def cases : (fuel : Nat) → Octets → Option ((List (List Word × List Command)) × Octets)
  | 0, _ => none
  | fuel + 1, cs =>
    let cs := skipLines (cs.length + 1) cs
    match keyword? "esac" cs with
    | some rest => some ([], rest)
    | none => do
      let (patterns, rest) ← alternatives fuel (if cs.head? = some '(' then cs.drop 1 else cs)
      let (body, rest) ← list fuel rest
      match rest with
      | ';' :: ';' :: rest => do
        let (more, rest) ← cases fuel rest
        some ((patterns, body) :: more, rest)
      | _ => do some ([(patterns, body)], ← keyword? "esac" rest)

/-- Reads patterns up to a closing bracket. -/
def alternatives : (fuel : Nat) → Octets → Option (List Word × Octets)
  | 0, _ => none
  | fuel + 1, cs => do
    let (w, rest) ← parts fuel .plain (skipSpaces cs)
    match skipSpaces rest with
    | '|' :: rest => do
      let (ws, rest) ← alternatives fuel rest
      some (w :: ws, rest)
    | ')' :: rest => some ([w], rest)
    | _ => none

/-- Reads a command and its redirections. -/
def command : (fuel : Nat) → Octets → Option (Command × Octets)
  | 0, _ => none
  | fuel + 1, cs =>
    let cs := skipBlanks cs
    let finish (c : Command) (rest : Octets) : Option (Command × Octets) := do
      let (rs, rest) ← redirects fuel rest
      some (if rs.isEmpty then c else .redirected c rs, rest)
    let repeated (whileFails : Bool) (rest : Octets) : Option (Command × Octets) := do
      let (condition, rest) ← block fuel "do" rest
      let (body, rest) ← block fuel "done" rest
      finish (.loop whileFails condition body) rest
    match cs, keyword? "\x7b" cs, keyword? "if" cs, keyword? "while" cs, keyword? "until" cs,
      keyword? "for" cs, keyword? "case" cs with
    | '(' :: rest, _, _, _, _, _, _ => do
      let (body, rest) ← list fuel rest
      match rest with
      | ')' :: rest => if body.isEmpty then none else finish (.subshell body) rest
      | _ => none
    | _, some rest, _, _, _, _, _ => do
      let (body, rest) ← block fuel "\x7d" rest
      finish (.group body) rest
    | _, _, some rest, _, _, _, _ => do
      let ((bs, otherwise), rest) ← branches fuel rest
      finish (.conditional bs otherwise) rest
    | _, _, _, some rest, _, _, _ => repeated false rest
    | _, _, _, _, some rest, _, _ => repeated true rest
    | _, _, _, _, _, some rest, _ => do
      let rest := skipSpaces rest
      let name := nameAt rest
      let rest := skipLines rest.length (rest.drop name.length)
      let (items, rest) ← match keyword? "in" rest with
        | some rest => (words fuel rest).map fun (ws, rest) => (some ws, rest)
        | none => some (none, rest)
      let rest := skipSpaces rest
      let rest := skipLines (rest.length + 1) (if rest.head? = some ';' then rest.drop 1 else rest)
      let (body, rest) ← block fuel "done" (← keyword? "do" rest)
      if name.isEmpty then none else finish (.each name items body) rest
    | _, _, _, _, _, _, some rest => do
      let (subject, rest) ← parts fuel .plain (skipSpaces rest)
      let (bs, rest) ← cases fuel (← keyword? "in" (skipLines (rest.length + 1) rest))
      finish (.choice subject bs) rest
    | _, none, none, none, none, none, none =>
      let name := nameAt cs
      match name.isEmpty, skipSpaces (cs.drop name.length) with
      | false, '(' :: rest =>
        match skipSpaces rest with
        | ')' :: rest => do
          let (body, rest) ← command fuel (skipLines (rest.length + 1) rest)
          some (.definition name body, rest)
        | _ => none
      | _, _ =>
        if atCloser cs then none
        else do
          let ((as, ws, rs), rest) ← simple fuel true cs
          if as.isEmpty ∧ ws.isEmpty ∧ rs.isEmpty then none
          else
            let c := Command.simple as ws
            some (if rs.isEmpty then c else .redirected c rs, rest)

/-- Reads commands with pipes between them. -/
def stages : (fuel : Nat) → Octets → Option (List Command × Octets)
  | 0, _ => none
  | fuel + 1, cs => do
    let (c, rest) ← command fuel cs
    match skipBlanks rest with
    | '|' :: '|' :: rest => some ([c], '|' :: '|' :: rest)
    | '|' :: rest => do
      let (more, rest) ← stages fuel (skipLines (rest.length + 1) rest)
      some (c :: more, rest)
    | rest => some ([c], rest)

/-- Reads a pipeline. -/
def pipeline : (fuel : Nat) → Octets → Option (Command × Octets)
  | 0, _ => none
  | fuel + 1, cs =>
    match keyword? "!" (skipBlanks cs) with
    | some rest => (pipeline fuel rest).map fun (c, rest) => (.negation c, rest)
    | none => do
      let (cs, rest) ← stages fuel cs
      match cs with
      | [c] => some (c, rest)
      | _ => some (.pipeline cs, rest)

/-- Reads the rest of pipelines that depend on each other's success. -/
def dependent : (fuel : Nat) → Command → Octets → Option (Command × Octets)
  | 0, _, _ => none
  | fuel + 1, c, cs =>
    match skipBlanks cs with
    | '&' :: '&' :: rest => do
      let (d, rest) ← pipeline fuel (skipLines (rest.length + 1) rest)
      dependent fuel (.andThen c d) rest
    | '|' :: '|' :: rest => do
      let (d, rest) ← pipeline fuel (skipLines (rest.length + 1) rest)
      dependent fuel (.orElse c d) rest
    | rest => some (c, rest)

/-- Reads the commands of a line, up to its end or something that closes a list. -/
def line : (fuel : Nat) → Octets → Option (List Command × Octets)
  | 0, _ => none
  | fuel + 1, cs => do
    let (c, rest) ← pipeline fuel cs
    let (c, rest) ← dependent fuel c rest
    let next (rest : Octets) : Option (List Command × Octets) :=
      let rest := skipBlanks rest
      if rest.head? = some '\n' ∨ atCloser rest then some ([c], rest)
      else (line fuel rest).map fun (more, rest) => (c :: more, rest)
    match rest with
    | ';' :: ';' :: _ => some ([c], rest)
    | ';' :: rest | '&' :: rest => next rest
    | _ => some ([c], rest)

/-- Reads a list of commands, up to something that closes it. -/
def list : (fuel : Nat) → Octets → Option (List Command × Octets)
  | 0, _ => none
  | fuel + 1, cs =>
    let cs := skipLines (cs.length + 1) cs
    if atCloser cs then some ([], cs)
    else do
      let (first, rest) ← line fuel cs
      match rest with
      | '\n' :: rest => do
        let (more, rest) ← list fuel rest
        some (first ++ more, rest)
      | rest => some (first, rest)

end

/-! ## Scripts -/

/-- The lines of a script, each as its commands, up to a line that breaks a rule; and whether there
is such a line. -/
def lines : (fuel : Nat) → Octets → List (List Command) × Bool
  | 0, _ => ([], false)
  | fuel + 1, cs =>
    let cs := skipLines (cs.length + 1) cs
    if cs.isEmpty then ([], true)
    else
      match line (8 * cs.length + 8) cs with
      | none => ([], false)
      | some (c, rest) =>
        match rest with
        | [] => ([c], true)
        | '\n' :: rest =>
          let (more, sound) := lines fuel rest
          (c :: more, sound)
        | _ => ([], false)

end Shell

end Scheduling
