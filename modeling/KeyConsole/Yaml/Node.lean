import KeyConsole.Yaml.Token

/-!
# Yaml.Node: what a document says

A document is a tree of texts, sequences and mappings.  An alias stands for the node with an anchor.
-/

namespace KeyConsole.Yaml

/-- A node of a document. -/
inductive Node where
  | text (tag : Option Tag) (style : Style) (s : String)
  | sequence (items : List Node)
  | mapping (entries : List (Node × Node))
  /-- The node whose anchor has this number. -/
  | alias (number : Nat)
  deriving Inhabited, Repr

namespace Node

/-- The node where nothing is written. -/
def nothing : Node := .text none .plain ""

mutual

/-- The number of parts of a node: a text and an alias are one, and brackets are two. -/
def size : Node → Nat
  | .text .. | .alias _ => 1
  | .sequence items => 2 + itemsSize items
  | .mapping entries => 2 + entriesSize entries

/-- The number of parts of some items. -/
def itemsSize : List Node → Nat
  | [] => 0
  | item :: items => item.size + itemsSize items

/-- The number of parts of some entries. -/
def entriesSize : List (Node × Node) → Nat
  | [] => 0
  | (key, value) :: entries => key.size + value.size + entriesSize entries

end

end Node

/-- A document: its tree, and the nodes that have an anchor, with its number.  Anchors can share a number;
then only the first of them here counts. -/
structure Document where
  root : Node := .nothing
  anchored : List (Nat × Node) := []
  deriving Inhabited, Repr

end KeyConsole.Yaml
