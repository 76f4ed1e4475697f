import RatLang.Yaml.Base64
import RatLang.Yaml.Error
import RatLang.Yaml.Node

/-!
# Values from nodes

Texts, truth values and integers from the nodes of a document. All values of a wrong type are reported
together; everything else that is wrong ends the decoding at once. A null gives no value.

References are followed where they are met, so a reference inside the node it refers to is an error
only if it is met again while it is being followed. A document of which nearly all is met by way of
references is refused.
-/
namespace RatLang.Yaml

/-- Nodes in the middle of being decoded. -/
structure Decoding where
  /-- The nodes that references refer to. -/
  named : Array Node
  faults : List FieldFault := []
  /-- The number of nodes that were met. -/
  met : Nat := 0
  /-- The number of those that were met by way of a reference. -/
  referred : Nat := 0
  /-- The references that are being followed. -/
  active : List Nat := []

namespace Decoding

/-- Whether too many of the nodes were met by way of a reference: of up to 400000 nodes more than 99
in a hundred, of at least 4000000 nodes more than 10, and in proportion between them. -/
def isExcessive (d : Decoding) : Bool :=
  let span := 3600000
  let beyond := min span (d.met - 400000)
  100 < d.referred && 1000 < d.met && d.met * (99 * span - 89 * beyond) < d.referred * 100 * span

end Decoding

/-- A step of decoding. -/
abbrev Decode := StateT Decoding (Except Error)

namespace Decode

/-- Reports a fault. -/
def report (fault : FieldFault) : Decode Unit :=
  modify fun d => { d with faults := d.faults ++ [fault] }

/-- Counts a node. -/
def meet : Decode Unit := do
  modify fun d =>
    { d with met := d.met + 1, referred := if d.active.isEmpty then d.referred else d.referred + 1 }
  if (← get).isExcessive then throw .excessiveReferences

/-- The named node with a number. -/
def named (target : Nat) : Decode Node := return (← get).named.getD target (.absent 0)

/-- Decodes a node, or the one that it refers to. -/
def visit {α : Type} (n : Node) (decode : Node → Decode α) : Decode α := do
  meet
  match n with
  | .reference _ name target id =>
    if (← get).active.contains id then throw (.cyclicAnchor name)
    modify fun d => { d with active := id :: d.active }
    meet
    let a ← decode (← named target)
    modify fun d => { d with active := d.active.drop 1 }
    return a
  | n => decode n

/-! ### Scalars -/

/-- The tags that ask for a type with a notation of its own. -/
def typedTags : List Text :=
  [bytes "!!null", bytes "!!bool", bytes "!!int", bytes "!!float", bytes "!!timestamp"]

/-- The meaning of a scalar with a tag, and its text, which for binary data is the data. A scalar with
a tag of another kind is a string, and an integer can be a real number. -/
def meaning (tag value : Text) : Decode (Value × Text) :=
  if tag == bytes "!!binary" then
    match Base64.decode? value with
    | some data => return (.string, data)
    | none => throw .badBinary
  else if !typedTags.contains tag then return (.string, value)
  else
    match Value.read (tag == bytes "!!timestamp") value with
    | .int i =>
      if tag == bytes "!!float" && i < 0x8000000000000000 then return (.real (.ofInt i), value)
      else if tag == bytes "!!int" then return (.int i, value)
      else throw (.mistagged (bytes "!!int") value tag)
    | v => if v.tag == tag then return (v, value) else throw (.mistagged v.tag value tag)

/-- Reports that a node is of the wrong type. -/
def wrong (type : Text) (n : Node) : Decode Unit :=
  report (.wrongType n.line n.tag n.keyText type)

/-- The keys of a mapping that are there more than once. -/
def repeated : List (Node × Node) → List FieldFault
  | [] => []
  | (k, _) :: rest =>
    rest.filterMap (fun (other, _) =>
      if k.sameKind other && k.keyText == other.keyText then
        some (.repeatedKey other.line other.keyText k.line)
      else none) ++ repeated rest

/-- Whether every key of a mapping is there once; those that are not are reported. -/
def unique (pairs : List (Node × Node)) : Decode Bool := do
  let faults := repeated pairs
  faults.forM report
  return faults.isEmpty

/-- A value from a scalar. Nulls and nodes for which `take` has no value give none, and the latter are
reported. -/
def scalar? {α : Type} (type : Text) (n : Node) (take : Value → Text → Option α) :
    Decode (Option α) :=
  visit n fun n => do
    match n with
    | .scalar _ _ _ value =>
      match ← meaning n.tag value with
      | (.null, _) => return none
      | (v, t) =>
        match take v t with
        | some a => return some a
        | none =>
          wrong type n
          return none
    | .mapping _ _ pairs =>
      if ← unique pairs then wrong type n
      return none
    | n =>
      wrong type n
      return none

/-- A text from any scalar but null. -/
def text? (n : Node) : Decode (Option Text) := scalar? (bytes "string") n fun _ t => some t

/-- A truth value, which may be spelled in the old ways. -/
def bool? (n : Node) : Decode (Option Bool) :=
  scalar? (bytes "bool") n fun v t =>
    match v with
    | .bool b => some b
    | .string => Value.oldBool? t
    | _ => none

/-- A 64-bit integer; a real number loses its fraction. -/
def int? (n : Node) : Decode (Option Int64) :=
  scalar? (bytes "int") n fun v _ =>
    match v with
    | .int i => if i < 0x8000000000000000 then some (Int64.ofInt i) else none
    | .real r => r.toInt64?
    | _ => none

end Decode

end RatLang.Yaml
