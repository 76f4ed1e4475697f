import RatLang.Yaml.Value

/-!
# YAML nodes

The tree of a YAML document. Every node knows the line it begins on, counting from one. A node may
have a name, and a reference is another place for the node with a name; it may stand inside of that
node, so references are numbers and the document keeps the named nodes beside its tree.
-/
namespace RatLang.Yaml

/-- A node of a document. The tag of a node is there if the text states one. -/
inductive Node where
  /-- A scalar; `plain` ones are neither quoted nor block scalars. -/
  | scalar (line : Nat) (tag : Option Text) (plain : Bool) (value : Text)
  | sequence (line : Nat) (tag : Option Text) (items : List Node)
  | mapping (line : Nat) (tag : Option Text) (pairs : List (Node × Node))
  /-- The place of the named node with the number `target`. No two references have one `id`. -/
  | reference (line : Nat) (name : Text) (target id : Nat)
  deriving Repr

/-- A document: its tree and the nodes with names. -/
structure Document where
  root : Node
  named : Array Node := #[]
  deriving Repr

namespace Node

/-- The line that the node begins on. -/
def line : Node → Nat
  | scalar line .. | sequence line .. | mapping line .. | reference line .. => line

/-- A node that is not there, on the line with the given number from zero. -/
def absent (line : Nat) : Node := scalar (line + 1) none true []

/-- The text that keys are compared by; collections have none. -/
def keyText : Node → Text
  | scalar _ _ _ value => value
  | sequence .. | mapping .. => []
  | reference _ name .. => name

/-- Whether two nodes are of one kind. -/
def sameKind : Node → Node → Bool
  | scalar .., scalar .. | sequence .., sequence .. => true
  | mapping .., mapping .. | reference .., reference .. => true
  | _, _ => false

/-- The key that takes over the fields of other mappings. -/
def mergeWord : Text := bytes "<<"

/-- The tag of a node: the one in the text, or else the one of its kind. A scalar without quotes has
the tag of its meaning, and the merge key one of its own. -/
def tag : Node → Text
  | scalar _ (some t) .. | sequence _ (some t) _ | mapping _ (some t) _ => t
  | scalar _ none plain value =>
    if !plain then Value.string.tag
    else if value == mergeWord then bytes "!!merge"
    else (Value.ofPlain value).tag
  | sequence _ none _ => bytes "!!seq"
  | mapping _ none _ => bytes "!!map"
  | reference .. => []

/-- Whether the node, as a key, takes over the fields of other mappings. -/
def isMerge : Node → Bool
  | scalar line t plain value =>
    value == mergeWord && (scalar line t plain value).tag == bytes "!!merge"
  | _ => false

mutual

/-- The number of nodes in a tree. -/
def size : Node → Nat
  | scalar .. | reference .. => 1
  | sequence _ _ items => sizeItems items + 1
  | mapping _ _ pairs => sizePairs pairs + 1

/-- The number of nodes in the entries of a sequence. -/
def sizeItems : List Node → Nat
  | [] => 0
  | n :: rest => n.size + sizeItems rest

/-- The number of nodes in the entries of a mapping. -/
def sizePairs : List (Node × Node) → Nat
  | [] => 0
  | (k, v) :: rest => k.size + v.size + sizePairs rest

end

end Node

end RatLang.Yaml
