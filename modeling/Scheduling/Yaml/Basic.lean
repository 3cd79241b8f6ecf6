/-!
# YAML nodes

A YAML document as a tree of scalars, sequences and mappings. A node may carry a tag, which says how
it is to be read. An alias stands for the node that its anchor marks, wherever that is in the
document.
-/

namespace Scheduling

/-- How a scalar is written. -/
inductive YamlStyle where
  | plain
  | singleQuoted
  | doubleQuoted
  | literal
  | folded
deriving DecidableEq, Repr

/-- What the tag of a node says. -/
inductive YamlTag where
  | null
  | bool
  | int
  | float
  /-- A local tag, which names a choice. -/
  | named (name : String)
  /-- Any other tag. -/
  | other
deriving DecidableEq, Repr

/-- A node of a YAML document. -/
inductive Yaml where
  | scalar (tag : Option YamlTag) (style : YamlStyle) (text : String)
  | seq (tag : Option YamlTag) (items : List Yaml)
  | map (tag : Option YamlTag) (members : List (Yaml × Yaml))
  /-- The node with an anchor. -/
  | alias (anchor : Nat)
deriving Repr, Inhabited

namespace YamlTag

/-- What a tag in full says. A local tag starts with an exclamation mark. -/
def ofText (text : String) : YamlTag :=
  match text with
  | "tag:yaml.org,2002:null" => null
  | "tag:yaml.org,2002:bool" => bool
  | "tag:yaml.org,2002:int" => int
  | "tag:yaml.org,2002:float" => float
  | "!" => named "!"
  | _ =>
    match text.toList with
    | '!' :: name => named (String.ofList name)
    | _ => other

end YamlTag

namespace Yaml

/-- The scalar without text. -/
def empty : Yaml := scalar none .plain ""

mutual

/-- The number of places that a document has for a node: one for a scalar or an alias, two more than
its parts for a sequence or a mapping. -/
def size : Yaml → Nat
  | .scalar _ _ _ | .alias _ => 1
  | .seq _ items => sizeOfItems items + 2
  | .map _ members => sizeOfMembers members + 2

/-- The number of places for items. -/
def sizeOfItems : List Yaml → Nat
  | [] => 0
  | y :: rest => size y + sizeOfItems rest

/-- The number of places for members. -/
def sizeOfMembers : List (Yaml × Yaml) → Nat
  | [] => 0
  | (k, y) :: rest => size k + size y + sizeOfMembers rest

end

end Yaml

/-- What a text holds. -/
structure YamlDocument where
  /-- The node of the document; there is none in a text of nothing but blanks and comments. -/
  root : Option Yaml
  /-- The nodes with anchors. Of two with one number the first one counts. -/
  anchors : List (Nat × Yaml)
  /-- Whether nothing follows the document. -/
  complete : Bool
deriving Repr

end Scheduling
