import RatLang.Yaml.Decode

/-!
# Keys of any type

Before a mapping takes over the entries of others, all of its keys are read, whatever their types. Only
texts matter later on, but a collection can be no key, and the error names its type or shows it in
full.
-/
namespace RatLang.Yaml

/-- A value of no particular type. -/
inductive Untyped where
  | null
  | text (t : Text)
  /-- Any other scalar, as it is shown. -/
  | atom (shown : Text)
  | list (items : List Untyped)
  /-- A mapping, from texts only unless it is `general`. -/
  | table (general : Bool) (pairs : List (Untyped × Untyped))
  deriving Repr

namespace Untyped

/-- The type of a list. -/
def listType : Text := bytes "[]interface \x7b\x7d"

/-- The type of a mapping. -/
def tableType (general : Bool) : Text :=
  if general then bytes "map[interface \x7b\x7d]interface \x7b\x7d"
  else bytes "map[string]interface \x7b\x7d"

mutual

/-- The value in full. -/
def shown : Untyped → Text
  | null => bytes "interface \x7b\x7d(nil)"
  | text t => t.quoted
  | atom t => t
  | list items => listType ++ [0x7b] ++ Text.join (bytes ", ") (shownItems items) ++ [0x7d]
  | table general pairs =>
    tableType general ++ [0x7b] ++ Text.join (bytes ", ") (shownPairs pairs) ++ [0x7d]

/-- The values of a list in full. -/
def shownItems : List Untyped → List Text
  | [] => []
  | v :: rest => v.shown :: shownItems rest

/-- The entries of a mapping in full. -/
def shownPairs : List (Untyped × Untyped) → List Text
  | [] => []
  | (k, v) :: rest => (k.shown ++ [0x3a] ++ v.shown) :: shownPairs rest

end

/-- A scalar with a meaning and a text. -/
def ofValue (v : Value) (t : Text) : Untyped :=
  match v with
  | .null => null
  | .string => text t
  | .bool b => atom (boolText b)
  | .int i =>
    atom (if i < 0x8000000000000000 then decimal i else bytes "0x" ++ hexDigits 16 i.toNat)
  | .real _ | .timestamp => atom t

/-- The type of a collection. -/
def collection? : Untyped → Option Text
  | list _ => some listType
  | table general _ => some (tableType general)
  | _ => none

end Untyped

namespace Decode

/-- Makes sure that a merge key can take over a node: a mapping or a reference to one. -/
def needMapping (n : Node) : Decode Unit := do
  match n with
  | .mapping .. => return
  | .reference _ _ target _ =>
    match ← named target with
    | .mapping .. => return
    | _ => throw .badMerge
  | _ => throw .badMerge

/-- Folds over the mappings that a merge key takes over: one, or those of a sequence. -/
def foldMerge {α : Type} (step : α → Node → Decode α) (start : α) (n : Node) : Decode α :=
  let checked (a : α) (n : Node) : Decode α := do
    needMapping n
    step a n
  match n with
  | .sequence _ _ items => items.foldlM checked start
  | n => checked start n

/-- The tag of a node, or of the one that it refers to. -/
def tagThrough (n : Node) : Decode Text := do
  match n with
  | .reference _ _ target _ => return (← named target).tag
  | n => return n.tag

/-- A value of any type. Where the keys of a mapping are being collected, those of a mapping inside it
are among them, and `taken` are the texts so far. -/
def untyped : Nat → Option (List Text) → Node → Decode (Option Untyped × Option (List Text))
  | 0, taken, _ => return (none, taken)
  | fuel + 1, taken, n => visit n fun n => do
    match n with
    | .scalar _ _ _ value =>
      let (v, t) ← meaning n.tag value
      return (some (.ofValue v t), taken)
    | .sequence _ _ items =>
      let (items, taken) ← items.foldlM (fun (found, taken) item => do
        let (v, taken) ← untyped fuel taken item
        return (found ++ v.toList, taken)) ([], taken)
      return (some (.list items), taken)
    | .mapping _ _ pairs =>
      if !(← unique pairs) then return (none, taken)
      let general ← pairs.anyM fun (k, _) => do
        let tag ← tagThrough k
        return tag != bytes "!!str" && tag != bytes "!!merge"
      let (found, taken) ← (pairs.filter (!·.1.isMerge)).foldlM (fun (found, taken) (k, v) => do
        match (← untyped fuel none k).1 with
        | none => return (found, taken)
        | some key =>
          match key.collection?, taken with
          | some type, some _ => throw (.collectionKey type)
          | some _, none => throw (.nestedKey key.shown)
          | none, _ =>
            match key, taken with
            | .text t, some names =>
              if names.contains t then return (found, taken)
              else return (found ++ [(key, (← untyped fuel none v).1.getD .null)], some (t :: names))
            | _, _ => return (found ++ [(key, (← untyped fuel none v).1.getD .null)], taken))
        (([], taken) : List (Untyped × Untyped) × Option (List Text))
      return (some (.table general found), taken)
    | .reference .. => return (none, taken)

/-- The texts among the keys of a mapping. -/
def keyTexts (fuel : Nat) (pairs : List (Node × Node)) : Decode (List Text) :=
  pairs.foldlM (fun names (k, _) => do
    match ← untyped fuel (some names) k with
    | (some key, taken) =>
      match key.collection? with
      | some type => throw (.collectionKey type)
      | none =>
        match key with
        | .text t => return t :: taken.getD names
        | _ => return taken.getD names
    | (none, taken) => return taken.getD names) []

end Decode

end RatLang.Yaml
