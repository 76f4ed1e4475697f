import RatLang.Yaml.Node
import RatLang.Yaml.Token.Scan

/-!
# Documents from tokens

The tree of the first document of a text, built while its tokens are scanned. What the tokens lack is
reported with the line on which the collection around it begins.
-/
namespace RatLang.Yaml

/-- The tree of a document in the middle of being built. -/
structure Composer where
  /-- The numbers of the names; a name that is given again gets a new number. -/
  names : List (Text × Nat) := []
  /-- The named nodes, by their numbers. The ones that are not finished are not there yet. -/
  named : Array (Option Node) := #[]
  /-- The number of references. -/
  references : Nat := 0
  /-- The handles and what they stand for. -/
  handles : List (Text × Text) := []

/-- A step of building the tree. -/
abbrev Compose := StateT Composer Scan

namespace Compose

/-- The next token. -/
def peek : Compose Token := Scan.peek

/-- Takes the next token away. -/
def take : Compose Unit := Scan.take

/-- Takes the next token away, with the comments that belong to it. -/
def takeAll : Compose Unit := do
  Scan.forgetRemark
  Scan.take

/-- Ends a step, unless a fault was met on the way. -/
def settle {α : Type} (a : α) : Compose α := do
  Scan.settle
  return a

/-- An error inside something that begins on an earlier line, which is the one reported unless it is
the first. -/
def fail {α : Type} (began line : Nat) (problem : Problem) : Compose α :=
  throw (.syntaxError (if began != 0 then began else line) problem)

/-! ### Names -/

/-- Gives a name to a node that is about to be built. -/
def name (anchor : Option Text) : Compose (Option Nat) := do
  match anchor with
  | some a =>
    let c ← get
    set { c with names := (a, c.named.size) :: c.names, named := c.named.push none }
    return some c.named.size
  | none => return none

/-- A node that is built, under its number if it has a name. -/
def built (number : Option Nat) (n : Node) : Compose Node := do
  if let some i := number then
    modify fun c => { c with named := c.named.setIfInBounds i (some n) }
  return n

/-- A reference to the node that was last given a name. -/
def reference (line : Nat) (a : Text) : Compose Node := do
  let c ← get
  match c.names.lookup a with
  | some target =>
    set { c with references := c.references + 1 }
    return .reference line a target c.references
  | none => throw (.unknownAnchor a)

/-! ### Tags -/

/-- What the tags of the standard types begin with in full. -/
def standardTag : Text := bytes "tag:yaml.org,2002:"

/-- A tag in its short form. -/
def shortTag (t : Text) : Text :=
  if t.startsWith standardTag then bytes "!!" ++ t.drop standardTag.length else t

/-- What stands in front of a node. -/
structure Properties where
  anchor : Option Text := none
  /-- The handle and the rest of a tag, and the line it is on. -/
  tag : Option (Text × Text × Nat) := none

/-- The anchor and the tag in front of a node, in either order. -/
def properties : Compose Properties := do
  let t ← peek
  match t.content with
  | .anchor a =>
    take
    let u ← peek
    match u.content with
    | .tag handle suffix =>
      take
      return { anchor := some a, tag := some (handle, suffix, u.line) }
    | _ => return { anchor := some a }
  | .tag handle suffix =>
    take
    let tag := some (handle, suffix, t.line)
    match (← peek).content with
    | .anchor a =>
      take
      return { anchor := some a, tag }
    | _ => return { tag }
  | _ => return {}

/-- The tag in front of a node that begins on the given line, in its short form. The tag `!` says
nothing. -/
def tagOf (began : Nat) (p : Properties) : Compose (Option Text) := do
  match p.tag with
  | none => return none
  | some (handle, suffix, line) =>
    let full ← if handle.isEmpty then pure suffix
      else match (← get).handles.lookup handle with
        | some stem => pure (stem ++ suffix)
        | none => fail began line .undefinedHandle
    return if full == bytes "!" then none else some (shortTag full)

/-! ### Nodes -/

/-- The tokens before which the key or the value of a block mapping may be missing. -/
def endsBlockPart : Content → Bool
  | .key | .value | .blockEnd => true
  | _ => false

mutual

/-- A node. Inside flow collections there are no block collections, and the entries of a sequence
that is the value of a key need no indentation. -/
def node (fuel : Nat) (block indentless : Bool) : Compose Node :=
  match fuel with
  | 0 => fail 0 0 .nodeContent
  | fuel + 1 => do
    let first ← peek
    let line := first.line + 1
    if let .reference a := first.content then
      takeAll
      settle ()
      reference line a
    else
      let p ← properties
      let t ← peek
      let tag ← tagOf first.line p
      match t.content with
      | .scalar plain value =>
        takeAll
        settle ()
        built (← name p.anchor) (.scalar line tag plain value)
      | .flowSequenceStart =>
        settle ()
        let number ← name p.anchor
        takeAll
        built number (.sequence line tag (← flowSequence fuel t.line true []))
      | .flowMappingStart =>
        settle ()
        let number ← name p.anchor
        takeAll
        built number (.mapping line tag (← flowMapping fuel t.line true []))
      | content =>
        if indentless && content == .blockEntry then
          settle ()
          let number ← name p.anchor
          built number (.sequence line tag (← indentlessSequence fuel []))
        else if block && content == .sequenceStart then
          settle ()
          let number ← name p.anchor
          take
          built number (.sequence line tag (← blockSequence fuel t.line []))
        else if block && content == .mappingStart then
          settle ()
          let number ← name p.anchor
          take
          built number (.mapping line tag (← blockMapping fuel t.line []))
        else if p.anchor.isSome || p.tag.isSome then
          settle ()
          built (← name p.anchor) (.scalar line tag true [])
        else fail first.line t.line .nodeContent

/-- The entries of a block sequence. -/
def blockSequence (fuel began : Nat) (items : List Node) : Compose (List Node) :=
  match fuel with
  | 0 => fail 0 0 .nodeContent
  | fuel + 1 => do
    let t ← peek
    match t.content with
    | .blockEntry =>
      Scan.takeDash
      match (← peek).content with
      | .blockEntry | .blockEnd => blockSequence fuel began ((← settle (.absent t.line)) :: items)
      | _ => blockSequence fuel began ((← node fuel true false) :: items)
    | .blockEnd =>
      take
      settle items.reverse
    | _ => fail began t.line .dashExpected

/-- The entries of a block sequence that is indented like the key it belongs to. -/
def indentlessSequence (fuel : Nat) (items : List Node) : Compose (List Node) :=
  match fuel with
  | 0 => fail 0 0 .nodeContent
  | fuel + 1 => do
    let t ← peek
    match t.content with
    | .blockEntry =>
      Scan.takeDash
      let content := (← peek).content
      if content == .blockEntry || endsBlockPart content then
        indentlessSequence fuel ((← settle (.absent t.line)) :: items)
      else indentlessSequence fuel ((← node fuel true false) :: items)
    | _ => settle items.reverse

/-- The entries of a block mapping. -/
def blockMapping (fuel began : Nat) (pairs : List (Node × Node)) : Compose (List (Node × Node)) :=
  match fuel with
  | 0 => fail 0 0 .nodeContent
  | fuel + 1 => do
    let t ← peek
    match t.content with
    | .key =>
      take
      let key ← if endsBlockPart (← peek).content then settle (.absent t.line)
        else node fuel true true
      let v ← peek
      let value ← if v.content == .value then do
          take
          if endsBlockPart (← peek).content then settle (.absent v.line) else node fuel true true
        else settle (.absent v.line)
      blockMapping fuel began ((key, value) :: pairs)
    | .blockEnd =>
      takeAll
      settle pairs.reverse
    | _ => fail began t.line .keyExpected

/-- The entries of a flow sequence. An entry may be a pair, which is a mapping of its own. -/
def flowSequence (fuel began : Nat) (first : Bool) (items : List Node) : Compose (List Node) :=
  match fuel with
  | 0 => fail 0 0 .nodeContent
  | fuel + 1 => do
    let t ← peek
    if t.content == .flowSequenceEnd then
      takeAll
      return ← settle items.reverse
    unless first do
      if t.content == .flowEntry then take else fail began t.line .sequenceComma
    let t ← peek
    match t.content with
    | .flowSequenceEnd =>
      takeAll
      settle items.reverse
    | .key =>
      take
      settle ()
      let k ← peek
      let key ← match k.content with
        | .value | .flowEntry | .flowSequenceEnd => do
          take
          settle (.absent k.line)
        | _ => node fuel false false
      let v ← peek
      let value ← if v.content == .value then do
          take
          match (← peek).content with
          | .flowEntry | .flowSequenceEnd => settle (.absent v.line)
          | _ => node fuel false false
        else settle (.absent v.line)
      let _ ← peek
      settle ()
      flowSequence fuel began false (.mapping (t.line + 1) none [(key, value)] :: items)
    | _ => flowSequence fuel began false ((← node fuel false false) :: items)

/-- The entries of a flow mapping. -/
def flowMapping (fuel began : Nat) (first : Bool) (pairs : List (Node × Node)) :
    Compose (List (Node × Node)) :=
  match fuel with
  | 0 => fail 0 0 .nodeContent
  | fuel + 1 => do
    let t ← peek
    if t.content == .flowMappingEnd then
      takeAll
      return ← settle pairs.reverse
    unless first do
      if t.content == .flowEntry then take else fail began t.line .mappingComma
    let t ← peek
    match t.content with
    | .flowMappingEnd =>
      takeAll
      settle pairs.reverse
    | .key =>
      take
      let k ← peek
      let key ← match k.content with
        | .value | .flowEntry | .flowMappingEnd => settle (.absent k.line)
        | _ => node fuel false false
      let v ← peek
      let value ← if v.content == .value then do
          take
          match (← peek).content with
          | .flowEntry | .flowMappingEnd => settle (.absent v.line)
          | _ => node fuel false false
        else settle (.absent v.line)
      flowMapping fuel began false ((key, value) :: pairs)
    | _ =>
      let key ← node fuel false false
      let value ← settle (.absent (← peek).line)
      flowMapping fuel began false ((key, value) :: pairs)

end

/-! ### Documents -/

/-- Introduces a handle. -/
def addHandle (line : Nat) (handle stem : Text) : Compose Unit := do
  let c ← get
  if (c.handles.lookup handle).isSome then fail line line .repeatedHandle
  set { c with handles := (handle, stem) :: c.handles }

/-- The directives in front of a document, of which at most one may be about the version. The handles
`!` and `!!` are known without one. -/
def directives (versioned : Bool) : Nat → Compose Unit
  | 0 => return
  | fuel + 1 => do
    let t ← peek
    match t.content with
    | .version major minor =>
      if versioned then fail t.line t.line .repeatedVersion
      unless major == 1 && minor == 1 do fail t.line t.line .unknownVersion
      take
      directives true fuel
    | .handle handle stem =>
      addHandle t.line handle stem
      take
      directives versioned fuel
    | _ =>
      modify fun c =>
        { c with handles := c.handles ++ [(bytes "!", bytes "!"), (bytes "!!", standardTag)] }

/-- The root of a document after its first mark. -/
def explicitRoot (fuel : Nat) : Compose Node := do
  let t ← peek
  match t.content with
  | .version .. | .handle .. | .documentStart | .documentEnd | .streamEnd =>
    settle (.absent t.line)
  | _ => node fuel true false

/-- The root of the first document of a stream, if there is one. -/
def firstRoot (fuel : Nat) : Compose (Option Node) := do
  let _ ← peek
  take
  settle ()
  match (← peek).content with
  | .streamEnd => settle none
  | .version .. | .handle .. | .documentStart =>
    directives false fuel
    let t ← peek
    unless t.content == .documentStart do fail 0 t.line .documentStart
    take
    settle ()
    some <$> explicitRoot fuel
  | _ =>
    directives false fuel
    Scan.keepLastParagraph
    settle ()
    some <$> node fuel true false

/-- The first document of a stream, if there is one. The token behind it is looked at as well. -/
def document (fuel : Nat) : Compose (Option Document) := do
  match ← firstRoot fuel with
  | none => return none
  | some root =>
    let _ ← peek
    settle ()
    return some { root, named := (← get).named.map (·.getD (.absent 0)) }

end Compose

/-- The first document of a text. Every token takes a character or follows from one, so the fuel lasts
for the text. -/
def Document.ofText (t : Text) : Except Error Document :=
  match ((Compose.document (8 * t.length + 64)).run {}).run (Scanner.ofText t) with
  | (.error e, _) => .error e
  | (.ok (none, _), _) => .error .noDocument
  | (.ok (some d, _), _) => .ok d

end RatLang.Yaml
