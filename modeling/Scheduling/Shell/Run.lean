import Scheduling.Shell.State

/-!
# Running shell scripts

What the commands of a script do, and what the script writes. A script that reads on after the end
of its input waits for ever; so does one that runs longer than its fuel.
-/

namespace Scheduling

namespace Shell

namespace State

/-- What is left of a part of the script that has a state of its own, after it has run. -/
def afterPart (s part : State) : State :=
  { s with
    output := part.output, input := part.input, status := part.status
    flow := if part.flow = .waits then .waits else s.flow }

/-- Ends the script because of an error. -/
def fail (s : State) : State :=
  if s.goesOn then { s with status := 2, flow := .ends } else s

/-- Does something whose status is looked at. -/
def inTest (s : State) (run : State → State) : State :=
  { run { s with tested := true } with tested := s.tested }

/-- Ends the script after a failure, if failures end it. -/
def checked (s : State) : State :=
  if s.goesOn && s.status ≠ 0 && s.has 'e' && !s.tested then { s with flow := .ends } else s

/-- Does something inside one more loop. -/
def inLoop (s : State) (run : State → State) : State :=
  { run { s with loops := s.loops + 1 } with loops := s.loops }

/-- What a loop does after a round: the state, and whether there is another round. -/
def afterRound (s : State) : State × Bool :=
  match s.flow with
  | .on => (s, true)
  | .breaks n => ({ s with flow := if n ≤ 1 then .on else .breaks (n - 1) }, false)
  | .continues n => if n ≤ 1 then ({ s with flow := .on }, true)
    else ({ s with flow := .continues (n - 1) }, false)
  | _ => (s, false)

/-- The pieces of the arguments of the script, as `@` and `*` stand for them. -/
def argumentPieces (s : State) (quoted joined : Bool) : List Piece :=
  if quoted ∧ joined then
    let separator := s.separators.take 1
    [.fixed true (s.arguments.intersperse separator).flatten]
  else
    let pieces := s.arguments.map fun a => if quoted then Piece.fixed true a else .loose a
    pieces.intersperse .border

/-- The commands for which assignments are for good. -/
def keepers : List String :=
  [":", "eval", "exec", "export", "set", "shift", "trap", "unset", "return", "exit", "break",
    "continue", "readonly"]

mutual

/-- Expands the parts of a word. -/
def pieces : (fuel : Nat) → List Part → State → List Piece × State
  | 0, _, s => ([], { s with flow := .waits })
  | _, [], s => ([], s)
  | fuel + 1, p :: ps, s =>
    let (first, s) := piecesOf fuel p s
    let (more, s) := pieces fuel ps s
    (first ++ more, s)

/-- Expands a part of a word. -/
def piecesOf : (fuel : Nat) → Part → State → List Piece × State
  | 0, _, s => ([], { s with flow := .waits })
  | fuel + 1, p, s =>
    let result (quoted : Bool) (t : Octets) : List Piece :=
      [if quoted then .fixed true t else .loose t]
    match p with
    | .text quoted t => ([.fixed quoted t], s)
    | .output quoted script =>
      let part := finish fuel (run fuel script
        { s with output := [], outputs := [1], tested := false, atEnd := [] })
      let t := part.output.filter (· ≠ '\x00')
      let t := (t.reverse.dropWhile (· = '\n')).reverse
      let after := s.afterPart { part with output := s.output, status := s.status }
      (result quoted t, { after with partStatus := part.status })
    | .arithmetic quoted e =>
      let (e, s) := pieces fuel e s
      match Arithmetic.value? (s.has 'u') s.bindings ((Piece.marked e).map Prod.snd) with
      | some (v, bindings) => (result quoted (intText v).toList, { s with bindings })
      | none => ([], s.fail)
    | .parameter quoted name use =>
      let isList := name = ['@'] ∨ name = ['*']
      let separator := s.separators.take 1
      let joined := (s.arguments.intersperse separator).flatten
      let value? := if isList then some joined else s.parameter? name
      let isMissing := value?.isNone && !isList && s.has 'u'
      let value : List Piece :=
        if isList then s.argumentPieces quoted (name = ['*'])
        else result quoted ((s.parameter? name).getD [])
      match use with
      | .value => (value, if isMissing then s.fail else s)
      | .length =>
        (result quoted (natural (value?.getD []).length), if isMissing then s.fail else s)
      | .without fromEnd longest pattern =>
        let (ps, s) := pieces fuel pattern s
        let marked := Piece.marked ps
        let pattern := Glob.ofMarked marked.length marked
        (result quoted (Glob.strip fromEnd longest pattern ((s.parameter? name).getD [])),
          if isMissing then s.fail else s)
      | .orElse fallback emptyCounts word =>
        let isSet := value?.any fun v => !(emptyCounts && v.isEmpty)
        match fallback, isSet with
        | .whenSet, true | .instead, false =>
          let (ps, s) := pieces fuel word s
          (if quoted then ps else ps.map Piece.loosened, s)
        | .whenSet, false => ([], s)
        | .assign, false =>
          let (ps, s) := pieces fuel word s
          let t := (Piece.marked ps).map Prod.snd
          (result quoted t, s.put name t)
        | .fail, false => ([], s.fail)
        | _, true => (value, s)

/-- Expands words to fields. -/
def expand : (fuel : Nat) → List Word → State → List Marked × State
  | 0, _, s => ([], { s with flow := .waits })
  | _, [], s => ([], s)
  | fuel + 1, w :: ws, s =>
    let (ps, s) := pieces fuel w s
    let (more, s) := expand fuel ws s
    (fields s.separators none ps ++ more, s)

/-- Expands a word to one text. -/
def expandText : (fuel : Nat) → List Part → State → Marked × State
  | 0, _, s => ([], { s with flow := .waits })
  | fuel + 1, w, s =>
    let (ps, s) := pieces fuel w s
    (Piece.marked ps, s)

/-- Carries out assignments. -/
def assign : (fuel : Nat) → List (Octets × Word) → State → State
  | 0, _, s => { s with flow := .waits }
  | _, [], s => s
  | fuel + 1, (name, w) :: rest, s =>
    let (t, s) := expandText fuel w s
    assign fuel rest (s.put name (t.map Prod.snd))

/-- Carries out redirections; the truth value tells whether all of them are possible. -/
def redirect : (fuel : Nat) → List Redirect → State → State × Bool
  | 0, _, s => ({ s with flow := .waits }, false)
  | _, [], s => (s, true)
  | fuel + 1, r :: rs, s =>
    let others (descriptor : Nat) (s : State) : List Nat := s.outputs.filter (· ≠ descriptor)
    match r with
    | .toFile descriptor file =>
      let (_, s) := expandText fuel file s
      redirect fuel rs { s with outputs := others descriptor s }
    | .copy descriptor other =>
      let (t, s) := expandText fuel other s
      let outputs := others descriptor s
      match State.integer? (t.map Prod.snd) with
      | some n =>
        let outputs := if s.outputs.contains n.toNat then descriptor :: outputs else outputs
        redirect fuel rs { s with outputs }
      | none => redirect fuel rs { s with outputs }
    | .fromText text =>
      let (t, s) := expandText fuel text s
      redirect fuel rs { s with input := t.map Prod.snd, live := false }
    | .fromFile file =>
      let (t, s) := expandText fuel file s
      if t.map Prod.snd = "/dev/null".toList then
        redirect fuel rs { s with input := [], live := false }
      else (s.withStatus 2, false)

/-- Carries out commands one after the other. -/
def run : (fuel : Nat) → List Command → State → State
  | 0, _, s => { s with flow := .waits }
  | _, [], s => s
  | fuel + 1, c :: cs, s =>
    let s := perform fuel c s
    if s.goesOn then run fuel cs s else s

/-- Carries out a script line by line. -/
def runLines : (fuel : Nat) → List (List Command) → State → State
  | 0, _, s => { s with flow := .waits }
  | _, [], s => s
  | fuel + 1, l :: ls, s =>
    let s := run fuel l s
    if s.goesOn then runLines fuel ls s else s

/-- Carries out the end of a script, or of a part of it that has a state of its own. -/
def finish : (fuel : Nat) → State → State
  | 0, s => { s with flow := .waits }
  | fuel + 1, s =>
    if s.atEnd.isEmpty ∨ s.flow = .waits then s
    else
      let ls := (lines (s.atEnd.length + 1) s.atEnd).1
      let t := runLines fuel ls { s with atEnd := [], flow := .on }
      if t.flow = .on then { t with status := s.status } else t

/-- Carries out a command by its name. -/
def call : (fuel : Nat) → (name : String) → List Octets → State → State
  | 0, _, _, s => { s with flow := .waits }
  | fuel + 1, name, args, s =>
    match s.functions.lookup name.toList with
    | some body =>
      let t := perform fuel body { s with arguments := args, saved := [], loops := 0 }
      { t.restore t.saved with
        arguments := s.arguments, saved := s.saved, loops := s.loops
        flow := if t.flow = .returns then .on else t.flow }
    | none =>
      match name, args with
      | "eval", _ =>
        let (ls, sound) := lines (((args.intersperse [' ']).flatten).length + 1)
          (args.intersperse [' ']).flatten
        let s := if ls.isEmpty then s.withStatus 0 else runLines fuel ls s
        if s.goesOn && !sound then s.fail else s
      | "exec", [] => s.withStatus 0
      | "exec", name :: args =>
        let s := call fuel (String.ofList name) args s
        if s.goesOn then { s with flow := .ends } else s
      | "command", [['-', 'v'], name] =>
        if (s.functions.lookup name).isSome ∨ (s.builtin? (String.ofList name) []).isSome then
          (s.write (name ++ ['\n'])).withStatus 0
        else s.withStatus 127
      | ".", _ :: _ => s.fail
      | "command", name :: args => call fuel (String.ofList name) args s
      | _, _ =>
        match s.builtin? name args with
        | some s => s
        | none => s.withStatus 127

/-- Carries out the stages of a pipeline. -/
def runStages : (fuel : Nat) → List Command → State → State
  | 0, _, s => { s with flow := .waits }
  | _, [], s => s
  | fuel + 1, [c], s => s.afterPart (perform fuel c s)
  | fuel + 1, c :: cs, s =>
    let first := perform fuel c { s with output := [], outputs := [1] }
    let waits := first.flow = .waits
    let last := runStages fuel cs { s with input := first.output, live := waits }
    { last with
      input := first.input, live := s.live, flow := if waits then .waits else last.flow }

/-- Carries out the first branch whose condition succeeds. -/
def runBranches : (fuel : Nat) → List (List Command × List Command) → List Command →
    State → State
  | 0, _, _, s => { s with flow := .waits }
  | fuel + 1, [], otherwise, s => if otherwise.isEmpty then s.withStatus 0 else run fuel otherwise s
  | fuel + 1, (condition, body) :: rest, otherwise, s =>
    let s := s.inTest (run fuel condition)
    if !s.goesOn then s
    else if s.status = 0 then run fuel body s
    else runBranches fuel rest otherwise s

/-- Carries out the first branch with a pattern that the text matches. -/
def runCases : (fuel : Nat) → Octets → List (List Word × List Command) → State → State
  | 0, _, _, s => { s with flow := .waits }
  | _, _, [], s => s.withStatus 0
  | fuel + 1, t, ([], _) :: rest, s => runCases fuel t rest s
  | fuel + 1, t, (p :: ps, body) :: rest, s =>
    let (pattern, s) := expandText fuel p s
    if matchesPattern pattern t then if body.isEmpty then s.withStatus 0 else run fuel body s
    else runCases fuel t ((ps, body) :: rest) s

/-- Carries out a body for each of some words. -/
def runEach : (fuel : Nat) → Octets → List Octets → List Command → State → State
  | 0, _, _, _, s => { s with flow := .waits }
  | _, _, [], _, s => s
  | fuel + 1, name, t :: ts, body, s =>
    let (s, again) := (run fuel body (s.put name t)).afterRound
    if again then runEach fuel name ts body s else s

/-- Repeats a body; `status` is that of the last round. -/
def runLoop : (fuel : Nat) → (whileFails : Bool) → List Command → List Command →
    (status : Nat) → State → State
  | 0, _, _, _, _, s => { s with flow := .waits }
  | fuel + 1, whileFails, condition, body, status, s =>
    let s := s.inTest (run fuel condition)
    if !s.goesOn then s.afterRound.1
    else if (s.status = 0) = whileFails then s.withStatus status
    else
      let (s, again) := (run fuel body s).afterRound
      if again then runLoop fuel whileFails condition body s.status s else s

/-- Does something under redirections. If they are not possible a special command ends the
script. -/
def redirected : (fuel : Nat) → List Redirect → (special : Bool) → State →
    (State → State) → State
  | 0, _, _, s, _ => { s with flow := .waits }
  | fuel + 1, rs, special, s, run =>
    let (t, possible) := redirect fuel rs s
    let ownInput := rs.any fun r => match r with
      | .fromText _ | .fromFile _ => true
      | _ => false
    if !possible then
      let t := { t with outputs := s.outputs, input := s.input, live := s.live }
      if special then t.fail else t.checked
    else if !t.goesOn then t
    else
      let t := { run t with outputs := s.outputs }
      if ownInput then { t with input := s.input, live := s.live } else t

/-- Carries out a simple command. Without words it only sets variables, and its status is that of
the last script in its words. -/
def simpleCommand : (fuel : Nat) → List (Octets × Word) → List Word → List Redirect → State →
    State
  | 0, _, _, _, s => { s with flow := .waits }
  | fuel + 1, assignments, words, rs, s =>
    let (fs, s) := expand fuel words { s with partStatus := 0 }
    if !s.goesOn then s
    else
      match fs.map fun f => f.map Prod.snd with
      | [] => redirected fuel rs false s fun s =>
        let s := assign fuel assignments s
        if s.goesOn then (s.withStatus s.partStatus).checked else s
      | ['e', 'x', 'e', 'c'] :: [] => (redirect fuel rs s).1.withStatus 0
      | name :: args =>
        let name := String.ofList name
        redirected fuel rs (keepers.contains name) s fun s =>
          let t := assign fuel assignments s
          let t := if t.goesOn then call fuel name args t else t
          let saved := assignments.map fun a => (a.1, s.bindings.lookup a.1)
          (if keepers.contains name then t else t.restore saved).checked

/-- Carries out a command. -/
def perform : (fuel : Nat) → Command → State → State
  | 0, _, s => { s with flow := .waits }
  | fuel + 1, c, s =>
    if !s.goesOn then s else
    match c with
    | .simple assignments words => simpleCommand fuel assignments words [] s
    | .redirected (.simple assignments words) rs => simpleCommand fuel assignments words rs s
    | .redirected body rs => redirected fuel rs false s (perform fuel body)
    | .pipeline stages => (runStages fuel stages s).checked
    | .negation body =>
      let s := s.inTest (perform fuel body)
      if s.goesOn then s.answer (s.status ≠ 0) else s
    | .andThen a b =>
      let s := s.inTest (perform fuel a)
      if s.goesOn && s.status = 0 then perform fuel b s else s
    | .orElse a b =>
      let s := s.inTest (perform fuel a)
      if s.goesOn && s.status ≠ 0 then perform fuel b s else s
    | .group body => run fuel body s
    | .subshell body => (s.afterPart (finish fuel (run fuel body { s with atEnd := [] }))).checked
    | .conditional branches otherwise => runBranches fuel branches otherwise s
    | .loop whileFails condition body => s.inLoop (runLoop fuel whileFails condition body 0)
    | .each name words body =>
      let (ts, s) :=
        match words with
        | some ws =>
          let (fs, s) := expand fuel ws s
          (fs.map fun (f : Marked) => f.map Prod.snd, s)
        | none => (s.arguments, s)
      if ts.isEmpty then s.withStatus 0 else s.inLoop (runEach fuel name ts body)
    | .choice subject branches =>
      let (t, s) := expandText fuel subject s
      runCases fuel (t.map Prod.snd) branches s
    | .definition name body =>
      { s with functions := (name, body) :: s.functions }.withStatus 0

end

end State

/-- How many steps deep a script runs. -/
def fuel : Nat := 20000

/-- What a shell of some name writes with arguments and something to read. Its script is the
argument after the options, and those after it are the name and the arguments of the script. -/
def run (name : String) (arguments : List String) (input : String) : Octets :=
  match Options.read (arguments.length + 1) [] (arguments.map octets) with
  | none => []
  | some o =>
    match o.isScript, o.rest with
    | true, script :: rest =>
      let start : State :=
        .start o.letters (rest.head?.getD (octets name)) (rest.drop 1) (octets input)
      (State.finish fuel (State.runLines fuel (lines (script.length + 1) script).1 start)).output
    | _, _ => []

end Shell

end Scheduling
