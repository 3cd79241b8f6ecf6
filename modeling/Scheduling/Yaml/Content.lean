import Scheduling.Yaml.Document
import Scheduling.Yaml.Plain

/-!
# What YAML nodes hold

The JSON values of the nodes of a document. A node is read as a value of any kind, or as what a
field asks for: then a plain scalar is what the field asks for, whatever it looks like and whatever
its tag says. An alias is read like the node that it stands for.
-/

namespace Scheduling

/-- What a field of a record asks for. -/
inductive YamlField where
  /-- A value of any kind. -/
  | any
  | text
  | natural
  | float
  | truth
  /-- The name of a choice. -/
  | choice
  /-- A list of texts. -/
  | texts
deriving DecidableEq, Repr

namespace Yaml

/-- A step of reading the nodes of a document; the state is how many more aliases may be followed.
-/
abbrev Reading := ReaderT YamlDocument (StateT Nat Option)

namespace Reading

/-- A result that may be missing. -/
def ofOption {α : Type} : Option α → Reading α
  | some a => pure a
  | none => failure

/-- The node that a node stands for. -/
def follow : Yaml → Reading Yaml
  | .alias anchor => do
    match ← get with
    | 0 => failure
    | left + 1 =>
      set left
      ofOption ((← read).anchors.lookup anchor)
  | y => pure y

/-! ## Values of any kind -/

/-- The value of a scalar. A standard tag says what it has to be; with another one, or in quotes, it
is a text. -/
def scalarValue? (tag : Option YamlTag) (style : YamlStyle) (text : String) : Option Json :=
  match tag with
  | some .null => if isNull text then some .null else none
  | some .bool => (bool? text).map .bool
  | some .int => (integer? text.toList).filter Json.isSound
  | some .float => (float? text.toList).map .float
  | some (.named _) => none
  | some .other => some (.str text)
  | none =>
    if style = .plain then some (plainValue text) |>.filter Json.isSound else some (.str text)

/-- Whether a sequence or a mapping with a tag is a value; with a local tag it is a choice. -/
def isValueTag : Option YamlTag → Bool
  | some (.named _) => false
  | _ => true

/-- The value of a node that has at most `depth` levels. Keys have to be texts. -/
def value (depth : Nat) (y : Yaml) : Reading Json := do
  match depth, ← follow y with
  | _, .scalar tag style text => ofOption (scalarValue? tag style text)
  | depth + 1, .seq tag items =>
    if isValueTag tag then pure (.arr (← items.mapM (value depth))) else failure
  | depth + 1, .map tag members =>
    if isValueTag tag then
      let ms ← members.mapM fun (k, y) => do
        match ← value depth k with
        | .str key => pure (key, ← value depth y)
        | _ => failure
      pure (.obj ms)
    else failure
  | _, _ => failure

/-! ## Fields -/

/-- The text of a scalar, whatever it looks like. -/
def text (y : Yaml) : Reading String := do
  match ← follow y with
  | .scalar _ _ text => pure text
  | _ => failure

/-- A list, given how its items are read. The empty scalar has none. -/
def list (item : (depth : Nat) → Yaml → Reading Json) (depth : Nat) (y : Yaml) : Reading Json := do
  match depth, ← follow y with
  | depth + 1, .seq _ items => pure (.arr (← items.mapM (item depth)))
  | _, .scalar _ .plain "" => pure (.arr [])
  | _, _ => failure

/-- A record, given how the member with a key is read. The empty scalar has none. -/
def record (member : (key : String) → (depth : Nat) → Yaml → Reading Json) (depth : Nat)
    (y : Yaml) : Reading Json := do
  match depth, ← follow y with
  | depth + 1, .map _ members =>
    let ms ← members.mapM fun (k, y) => do
      let key ← text k
      pure (key, ← member key depth y)
    pure (.obj ms)
  | _, .scalar _ .plain "" => pure (.obj [])
  | _, _ => failure

/-- The name of a choice: a scalar, or a local tag in front of null. -/
def choice? : Yaml → Option String
  | .scalar (some (.named name)) style text =>
    if style = .plain ∧ (text = "" ∨ isNull text) then some name else none
  | .scalar _ _ text => some text
  | _ => none

/-- The text of a scalar that can be what a field asks for: it is plain, or literal with the tag for
it. -/
def readable? (expected : YamlTag) : Yaml → Option (List Char)
  | .scalar tag style text =>
    if style = .plain ∨ (style = .literal ∧ tag = some expected) then some text.toList else none
  | _ => none

/-- Whether a node leaves a field unset. A tag that says so has to be right. -/
def isUnset? : Yaml → Option Bool
  | .scalar (some .null) .plain text => if isNull text then some true else none
  | .scalar none .plain text => some (text = "" || isNull text)
  | _ => some false

/-- What a field holds. -/
def ofField (field : YamlField) (depth : Nat) (y : Yaml) : Reading Json := do
  if field = .any then value depth y
  else
    let y ← follow y
    if ← ofOption (isUnset? y) then pure .null
    else
      match field with
      | .any => value depth y
      | .text => do pure (.str (← text y))
      | .natural => ofOption do
        let n ← nat? (← readable? .int y)
        if n ≤ wordMax then some (.int n) else none
      | .float => ofOption (((readable? .float y).bind float?).map .float)
      | .truth => ofOption (((readable? .bool y).bind fun cs => bool? (.ofList cs)).map .bool)
      | .choice => ofOption ((choice? y).map .str)
      | .texts => list (fun _ item => do pure (.str (← text item))) depth y

end Reading

end Yaml

namespace YamlDocument

/-- How many aliases may be followed for each place of a document. -/
def aliasesPerPlace : Nat := 100

/-- The record that a document holds, given how the member with a key is read. A text without a
document holds the record without members. -/
def record? (d : YamlDocument)
    (member : (key : String) → (depth : Nat) → Yaml → Yaml.Reading Json) :
    Option Json :=
  match d.root with
  | none => some (.obj [])
  | some root =>
    (((Yaml.Reading.record member Yaml.Build.levels root).run d).run
      (aliasesPerPlace * root.size)).map Prod.fst

end YamlDocument

end Scheduling
