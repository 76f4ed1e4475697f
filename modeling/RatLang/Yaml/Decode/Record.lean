import RatLang.Yaml.Decode.Key

/-!
# Records

A record takes the entries of a mapping whose keys name its fields; other entries are not looked at.
A merge key takes over the entries of other mappings, whose own merge keys count as well. An entry that
is taken over gives way to one that was there before it with the same key.
-/
namespace RatLang.Yaml

/-- How values of a type are made from the entries of mappings. -/
structure Record (α : Type) where
  /-- What the type is called. -/
  type : Text
  /-- How the field with a name is set. -/
  field? : Text → Option (Node → α → Decode α)

/-- A record in the middle of being filled from the entries of one mapping. -/
structure Filling (α : Type) where
  value : α
  /-- The keys that were there before, if the mapping is one that is taken over. -/
  taken : Option (List Text)
  /-- The fields that the mapping has set. -/
  done : List Text := []
  /-- What the mapping takes over; the last merge key wins. -/
  merge : Option Node := none

namespace Record

variable {α : Type}

/-- The next entry of a mapping. -/
def entry (r : Record α) (f : Filling α) : Node × Node → Decode (Filling α)
  | (k, v) => do
    if k.isMerge then return { f with merge := some v }
    match ← Decode.text? k with
    | none => return f
    | some name =>
      if f.taken.any (·.contains name) then return f
      let f := { f with taken := f.taken.map (name :: ·) }
      match r.field? name with
      | none => return f
      | some set =>
        if f.done.contains name then
          Decode.report (.repeatedField k.line name r.type)
          return f
        return { f with value := ← set v f.value, done := name :: f.done }

/-- A value with the fields that a node sets, and the keys that are there then. Nulls and nodes that do
not fit give no value. -/
def fill (r : Record α) : Nat → Option (List Text) → α → Node → Decode (Option α × List Text)
  | 0, taken, _, _ => return (none, taken.getD [])
  | fuel + 1, taken, value, n => Decode.visit n fun n => do
    match n with
    | .mapping _ _ pairs =>
      if !(← Decode.unique pairs) then return (none, taken.getD [])
      let f ← pairs.foldlM r.entry { value, taken }
      match f.merge with
      | none => return (some f.value, f.taken.getD [])
      | some source =>
        let names ← match f.taken with
          | some names => pure names
          | none => Decode.keyTexts fuel pairs
        let (value, names) ← Decode.foldMerge (fun (value, names) m => do
          let (next, names) ← r.fill fuel (some names) value m
          return (next.getD value, names)) (f.value, names) source
        return (some value, names)
    | .scalar _ _ _ value =>
      if (← Decode.meaning n.tag value).1 != .null then Decode.wrong r.type n
      return (none, taken.getD [])
    | n =>
      Decode.wrong r.type n
      return (none, taken.getD [])

/-- A value with the fields that a node sets. -/
def decode? (r : Record α) (fuel : Nat) (start : α) (n : Node) : Decode (Option α) :=
  return (← r.fill fuel none start n).1

/-- Values from the entries of a sequence, without those that give none. A null is a list without
values. -/
def list? (r : Record α) (fuel : Nat) (start : α) (n : Node) : Decode (Option (List α)) :=
  let type := bytes "[]" ++ r.type
  Decode.visit n fun n => do
    match n with
    | .sequence _ _ items => return some ((← items.mapM (r.decode? fuel start)).filterMap id)
    | .scalar _ _ _ value =>
      if (← Decode.meaning n.tag value).1 == .null then return some []
      Decode.wrong type n
      return none
    | .mapping _ _ pairs =>
      if ← Decode.unique pairs then Decode.wrong type n
      return none
    | .reference .. => return none

end Record

/-- The fuel that lasts for decoding any node of a document: a chain of nodes inside of one another or
of references that are followed meets a node once on the way from each reference. -/
def Document.fuel (d : Document) : Nat := (d.root.size + 1) * (d.root.size + 1)

/-- The record with the fields that a document sets. -/
def Document.decode {α : Type} (d : Document) (r : Nat → Record α) (start : α) : Except Error α := do
  let step := (r d.fuel).decode? d.fuel start d.root
  match ← step.run { named := d.named, met := 1 } with
  | (result, { faults := [], .. }) => return result.getD start
  | (_, { faults, .. }) => throw (.fields faults)

end RatLang.Yaml
