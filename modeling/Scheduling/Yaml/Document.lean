import Scheduling.Yaml.Token

/-!
# YAML documents

The node of a document, put together from tokens. `YamlDocument.read?` has none for a text that
breaks a rule before the node is complete. What follows the node is looked at only to tell whether
it is the end of the text.
-/

namespace Scheduling

namespace Yaml

/-! ## State -/

/-- What is left of the tokens, and what the nodes so far have defined. -/
structure Building where
  tokens : List Token
  /-- What the handles of tags stand for, the last definition first. -/
  handles : List (String × String)
  /-- The number of each anchor, the last definition first. -/
  names : List (String × Nat)
  /-- The nodes with anchors, the one that starts last first. -/
  anchors : List (Nat × Yaml)

/-- A step that builds something from tokens. -/
abbrev Build := StateT Building Option

namespace Build

/-- The next token. -/
def peek : Build Token := do
  match (← get).tokens with
  | t :: _ => pure t
  | [] => failure

/-- Moves on to the next token. -/
def skip : Build Unit := modify fun b => { b with tokens := b.tokens.drop 1 }

/-- Moves past a token if it comes next, and tells whether it did. -/
def accept (t : Token) : Build Bool := do
  if (← peek) = t then
    skip
    pure true
  else pure false

/-! ## Properties -/

/-- The tag that a written tag stands for. -/
def resolveTag (t : TagText) : Build YamlTag := do
  if t.handle = "" then pure (.ofText t.suffix)
  else
    match (← get).handles.lookup t.handle with
    | some start => pure (.ofText (start ++ t.suffix))
    | none => failure

/-- The number of a new anchor. It is the number of names so far, so that a name which is used again
may share its number with the next new name. -/
def define (name : String) : Build Nat := do
  let b ← get
  let number := (b.names.map Prod.fst).eraseDups.length
  set { b with names := (name, number) :: b.names }
  pure number

/-- The tag and the anchor in front of a node, each at most once and in either order. -/
def properties : Build (Option YamlTag × Option String) := do
  match ← peek with
  | .anchor name =>
    skip
    match ← peek with
    | .tag t =>
      skip
      pure (some (← resolveTag t), some name)
    | _ => pure (none, some name)
  | .tag t =>
    skip
    match ← peek with
    | .anchor name =>
      skip
      pure (some (← resolveTag t), some name)
    | _ => pure (some (← resolveTag t), none)
  | _ => pure (none, none)

/-- Builds a node that may have an anchor. The nodes inside it start later. -/
def anchored (anchor : Option String) (node : Build Yaml) : Build Yaml := do
  match anchor with
  | none => node
  | some name =>
    let number ← define name
    let before := (← get).anchors
    modify fun b => { b with anchors := [] }
    let y ← node
    modify fun b => { b with anchors := b.anchors ++ (number, y) :: before }
    pure y

/-! ## Nodes -/

/-- Where the node may stand that is built. -/
inductive Position where
  /-- Inside brackets. -/
  | flow
  | block
  /-- In a mapping, where the items of a sequence need no block of their own. -/
  | member
deriving DecidableEq, Repr

/-- Builds a node unless one of some tokens comes next; then it is the empty scalar. -/
def unlessNext (stops : List Token) (node : Build Yaml) : Build Yaml := do
  if stops.contains (← peek) then pure .empty else node

/-- The number of levels that the parts of a node may have. -/
def deeper : (depth : Nat) → Build Nat
  | 0 => failure
  | depth + 1 => pure depth

/-- Moves past the comma before an item or a member; the first one has none. -/
def separator : (first : Bool) → Build Unit
  | true => pure ()
  | false => do if !(← accept .flowEntry) then failure

mutual

/-- Builds a node that has at most `depth` levels. -/
def node : (fuel depth : Nat) → Position → Build Yaml
  | 0, _, _ => failure
  | fuel + 1, depth, position => do
    match ← peek with
    | .alias name =>
      skip
      match (← get).names.lookup name with
      | some number => pure (.alias number)
      | none => failure
    | _ =>
      let (tag, anchor) ← properties
      anchored anchor do
        match ← peek with
        | .scalar style text =>
          skip
          let tag := if tag = some (.named "!") then none else tag
          pure (.scalar tag style text)
        | .flowSeqStart =>
          skip
          pure (.seq tag (← flowItems fuel (← deeper depth) true))
        | .flowMapStart =>
          skip
          pure (.map tag (← flowMembers fuel (← deeper depth) true))
        | t =>
          if t = .blockEntry ∧ position = .member then
            pure (.seq tag (← looseItems fuel (← deeper depth)))
          else if t = .blockSeqStart ∧ position ≠ .flow then do
            skip
            pure (.seq tag (← blockItems fuel (← deeper depth)))
          else if t = .blockMapStart ∧ position ≠ .flow then do
            skip
            pure (.map tag (← blockMembers fuel (← deeper depth)))
          else if tag.isSome ∨ anchor.isSome then pure (.scalar tag .plain "")
          else failure

/-- Builds the items of a sequence in block style. -/
def blockItems : (fuel depth : Nat) → Build (List Yaml)
  | 0, _ => failure
  | fuel + 1, depth => do
    if ← accept .blockEnd then pure []
    else if ← accept .blockEntry then
      let y ← unlessNext [.blockEntry, .blockEnd] (node fuel depth .block)
      pure (y :: (← blockItems fuel depth))
    else failure

/-- Builds the items of a sequence that has no block of its own. -/
def looseItems : (fuel depth : Nat) → Build (List Yaml)
  | 0, _ => failure
  | fuel + 1, depth => do
    if ← accept .blockEntry then
      let y ← unlessNext [.blockEntry, .key, .value, .blockEnd] (node fuel depth .block)
      pure (y :: (← looseItems fuel depth))
    else pure []

/-- Builds the members of a mapping in block style. -/
def blockMembers : (fuel depth : Nat) → Build (List (Yaml × Yaml))
  | 0, _ => failure
  | fuel + 1, depth => do
    if ← accept .blockEnd then pure []
    else if ← accept .key then
      let stops := [Token.key, .value, .blockEnd]
      let k ← unlessNext stops (node fuel depth .member)
      let y ←
        if ← accept .value then unlessNext stops (node fuel depth .member) else pure .empty
      pure ((k, y) :: (← blockMembers fuel depth))
    else failure

/-- Builds the items of a sequence in brackets. -/
def flowItems : (fuel depth : Nat) → (first : Bool) → Build (List Yaml)
  | 0, _, _ => failure
  | fuel + 1, depth, first => do
    if ← accept .flowSeqEnd then return []
    separator first
    if ← accept .flowSeqEnd then pure []
    else
      let y ← if ← accept .key then pair fuel (← deeper depth) else node fuel depth .flow
      pure (y :: (← flowItems fuel depth false))

/-- Builds a mapping of one member in a sequence in brackets. A token that leaves out the key is
passed over. -/
def pair : (fuel depth : Nat) → Build Yaml
  | 0, _ => failure
  | fuel + 1, depth => do
    let k ←
      if [Token.value, .flowEntry, .flowSeqEnd].contains (← peek) then do
        skip
        pure .empty
      else node fuel depth .flow
    let y ←
      if ← accept .value then unlessNext [.flowEntry, .flowSeqEnd] (node fuel depth .flow)
      else pure .empty
    pure (.map none [(k, y)])

/-- Builds the members of a mapping in braces. -/
def flowMembers : (fuel depth : Nat) → (first : Bool) → Build (List (Yaml × Yaml))
  | 0, _, _ => failure
  | fuel + 1, depth, first => do
    if ← accept .flowMapEnd then return []
    separator first
    if ← accept .flowMapEnd then pure []
    else if ← accept .key then
      let k ← unlessNext [.value, .flowEntry, .flowMapEnd] (node fuel depth .flow)
      let y ←
        if ← accept .value then unlessNext [.flowEntry, .flowMapEnd] (node fuel depth .flow)
        else pure .empty
      pure ((k, y) :: (← flowMembers fuel depth false))
    else
      let k ← node fuel depth .flow
      pure ((k, .empty) :: (← flowMembers fuel depth false))

end

/-! ## Documents -/

/-- What the handles of tags stand for unless a directive says otherwise. -/
def defaultHandles : List (String × String) := [("!", "!"), ("!!", "tag:yaml.org,2002:")]

/-- Takes directives: one version at most, which is 1.1 or 1.2, and one for each handle. -/
def directives : (fuel : Nat) → (versioned : Bool) → Build Unit
  | 0, _ => failure
  | fuel + 1, versioned => do
    match ← peek with
    | .directive (.version major minor) =>
      if versioned ∨ major ≠ 1 ∨ (minor ≠ 1 ∧ minor ≠ 2) then failure
      skip
      directives fuel true
    | .directive (.tags handle start) =>
      if ((← get).handles.lookup handle).isSome then failure
      modify fun b => { b with handles := (handle, start) :: b.handles }
      skip
      directives fuel versioned
    | _ => pure ()

/-- Whether a token starts or ends a document. -/
def bounds : Token → Bool
  | .directive _ | .documentStart | .documentEnd | .textEnd => true
  | _ => false

/-- How many levels a node may have. -/
def levels : Nat := 128

/-- Builds the node of a document; there is none if there is no document. -/
def root (fuel : Nat) : Build (Option Yaml) := do
  match ← peek with
  | .textEnd => pure none
  | .directive _ | .documentStart =>
    directives fuel false
    if !(← accept .documentStart) then failure
    modify fun b => { b with handles := b.handles ++ defaultHandles }
    if bounds (← peek) then pure (some .empty) else some <$> node fuel levels .block
  | _ =>
    modify fun b => { b with handles := b.handles ++ defaultHandles }
    some <$> node fuel levels .block

end Build

end Yaml

namespace YamlDocument

/-- The document of a text. -/
def read? (text : String) : Option YamlDocument := do
  let tokens := Yaml.tokens text
  let (root, b) ← (Yaml.Build.root (3 * tokens.length + 3)).run ⟨tokens, [], [], []⟩
  let rest := b.tokens.dropWhile (· = .documentEnd)
  some ⟨root, b.anchors, rest = [.textEnd]⟩

end YamlDocument

end Scheduling
