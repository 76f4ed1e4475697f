import RatLang.Yaml.Token.Scalar

/-!
# Scanning YAML

Text becomes tokens from left to right. A scalar, anchor or flow collection is remembered as a
possible key; the `:` behind it on the same line turns it into one, and its key token, with the
beginning of a new block mapping if it is indented further, is then inserted in front of it. Lines
that are indented less end the blocks they leave.

Tokens are scanned when they are wanted, with two more in sight. A token that may still become a key
is held back until that is settled.
-/
namespace RatLang.Yaml.Scan

/-- The greatest number of collections inside one another, of flow and of block collections. -/
def maxDepth : Nat := 10000

/-- Says whether a key may begin at the next place. -/
def allowKey (allowed : Bool) : Scan Unit := modify fun s => { s with keyAllowed := allowed }

/-! ### The queue -/

/-- Adds a token that begins at the given place. -/
def push (content : Content) (start : Mark) : Scan Unit :=
  modify fun s => { s with queue := s.queue ++ [⟨content, start⟩] }

/-- Puts a token in front of the one with the given number, or at the end if that one is taken. -/
def insert (number : Nat) (content : Content) (start : Mark) : Scan Unit := do
  let s ← get
  if s.taken ≤ number then
    let n := number - s.taken
    set { s with queue := s.queue.take n ++ Token.mk content start :: s.queue.drop n }
  else push content start

/-- A token of one or more characters that stand for themselves. -/
def indicator (content : Content) (width : Nat) : Scan Unit := do
  let start := (← get).mark
  for _ in List.range width do skip
  push content start

/-! ### Possible keys -/

/-- The possible key of the innermost collection. -/
def lastKey : Scan SimpleKey := return ((← get).keys.back?).getD {}

/-- Changes the possible key at a place. -/
def setKey (level : Nat) (key : SimpleKey) : Scan Unit :=
  modify fun s => { s with keys := s.keys.setIfInBounds level key }

/-- Whether the key at a place can still become one: a key ends on the line it begins on, after at
most 1024 characters. -/
def stillPossible (level : Nat) : Scan Bool := do
  let s ← get
  match s.keys[level]? with
  | none => return false
  | some k =>
    unless k.possible do return false
    if k.mark.line < s.mark.line || k.mark.index + 1024 < s.mark.index then
      if k.required then fail k.mark .missingColon
      setKey level { k with possible := false }
      return false
    else return true

/-- Gives up the possible key of the innermost collection. -/
def dropKey : Scan Unit := do
  let k ← lastKey
  if k.possible then
    if k.required then fail k.mark .missingColon
    setKey ((← get).keys.size - 1) { k with possible := false }
    modify fun s => { s with awaited := s.awaited.erase k.token }

/-- Remembers the next token as a possible key. -/
def saveKey : Scan Unit := do
  let s ← get
  if s.keyAllowed then
    let required := s.flow == 0 && s.indent == s.mark.column
    let token := s.taken + s.queue.length
    dropKey
    let level := s.keys.size - 1
    setKey level { possible := true, required, token, mark := s.mark }
    modify fun s => { s with awaited := s.awaited.insert token level }

/-! ### Collections -/

/-- Ends the blocks that are indented further than `column`, right before the given place. -/
def leaveBlocks (column : Int) (place : Mark) : Scan Unit := do
  let s ← get
  if s.flow == 0 then go { place with index := place.index - 1 } s.indents
where
  go (start : Mark) : List Int → Scan Unit
    | [] => return
    | outer :: rest => do
      if column < (← get).indent then
        push .blockEnd start
        modify fun s => { s with indent := outer, indents := rest, depth := s.depth - 1 }
        go start rest

/-- Begins a block if its place is indented further, in front of the token with the given number. -/
def enterBlock (number : Nat) (content : Content) (start : Mark) : Scan Unit := do
  let s ← get
  if s.flow == 0 && s.indent < start.column then
    set { s with indent := start.column, indents := s.indent :: s.indents, depth := s.depth + 1 }
    if maxDepth ≤ s.depth then fail (← lastKey).mark .depth
    insert number content start

/-- Begins a block at the current place. -/
def enterBlockHere (content : Content) : Scan Unit := do
  let s ← get
  enterBlock (s.taken + s.queue.length) content s.mark

/-- Goes into a flow collection. A key that is found in it takes the place of the collection's own
beginning in what is held back for the level. -/
def enterFlow : Scan Unit := do
  let s ← get
  let key : SimpleKey := { token := s.taken + s.queue.length, mark := s.mark }
  set { s with keys := s.keys.push key, flow := s.flow + 1 }
  if maxDepth ≤ s.flow then failHere .depth

/-- Leaves a flow collection. Its last possible key, or its own beginning if it had none, is no longer
held back. -/
def leaveFlow : Scan Unit := do
  let s ← get
  if s.flow != 0 then
    let awaited := s.awaited.erase (← lastKey).token
    set { s with flow := s.flow - 1, awaited, keys := s.keys.pop }

/-! ### Tokens -/

/-- Leaves all blocks, as the end of a document does. -/
def leaveDocument : Scan Unit := do
  leaveBlocks (-1) (← get).mark
  dropKey
  allowKey false

/-- The end of the text, which counts as the beginning of a line. -/
def streamEnd : Scan Unit := do
  modify fun s =>
    if s.mark.column == 0 then s
    else { s with mark := { s.mark with line := s.mark.line + 1, column := 0 } }
  leaveDocument
  push .streamEnd (← get).mark

/-- A line that begins with `%`. -/
def directiveLine : Scan Unit := do
  leaveDocument
  let start := (← get).mark
  push (← directive) start

/-- `---` or `...` -/
def documentMark (content : Content) : Scan Unit := do
  leaveDocument
  indicator content 3

/-- `[` or an opening brace. -/
def flowStart (content : Content) : Scan Unit := do
  saveKey
  enterFlow
  allowKey true
  indicator content 1

/-- `]` or a closing brace. -/
def flowEnd (content : Content) : Scan Unit := do
  dropKey
  leaveFlow
  allowKey false
  indicator content 1

/-- `,` -/
def flowEntry : Scan Unit := do
  dropKey
  allowKey true
  indicator .flowEntry 1

/-- `-` before a blank. -/
def blockEntry : Scan Unit := do
  let s ← get
  if s.flow == 0 then
    unless s.keyAllowed do failHere .entryNotAllowed
    enterBlockHere .sequenceStart
  dropKey
  allowKey true
  indicator .blockEntry 1

/-- `?` before a key of any form. -/
def explicitKey : Scan Unit := do
  let s ← get
  if s.flow == 0 then
    unless s.keyAllowed do failHere .keyNotAllowed
    enterBlockHere .mappingStart
  dropKey
  allowKey (s.flow == 0)
  indicator .key 1

/-- `:` after a key. -/
def value : Scan Unit := do
  let s ← get
  let level := s.keys.size - 1
  if ← stillPossible level then
    let k ← lastKey
    insert k.token .key k.mark
    enterBlock k.token .mappingStart k.mark
    setKey level { k with possible := false }
    modify fun s => { s with awaited := s.awaited.erase k.token }
    allowKey false
  else
    if s.flow == 0 then
      unless s.keyAllowed do failHere .valueNotAllowed
      enterBlockHere .mappingStart
    allowKey (s.flow == 0)
  indicator .value 1

/-- A token that may become a key, with no key directly behind it. -/
def keyLike (scan : Scan Content) : Scan Unit := do
  saveKey
  allowKey false
  let start := (← get).mark
  push (← scan) start

/-- A block scalar. -/
def block (literal : Bool) : Scan Unit := do
  dropKey
  allowKey true
  let start := (← get).mark
  push (.scalar false (textOf (← blockScalar literal))) start

/-- A plain scalar. A line break behind it allows a key. -/
def plain : Scan Unit :=
  keyLike do
    let (text, atLineEnd) ← plainScalar
    if atLineEnd then allowKey true
    return .scalar true (textOf text)

/-- Whether a plain scalar may begin with `c` before `next`. -/
def beginsPlain (flow : Bool) (c next : Char) : Bool :=
  !(isGap c || "-?:,[]\x7b\x7d#&*!|>'\"%@`".toList.contains c) || (c == '-' && !isBlank next) ||
  (!flow && (c == '?' || c == ':') && !isGap next)

/-- A token inside a document. -/
def token (flow : Bool) (c next : Char) : Scan Unit :=
  match c with
  | '[' => flowStart .flowSequenceStart
  | '{' => flowStart .flowMappingStart
  | ']' => flowEnd .flowSequenceEnd
  | '}' => flowEnd .flowMappingEnd
  | ',' => flowEntry
  | '*' => keyLike (return .reference (← anchorName))
  | '&' => keyLike (return .anchor (← anchorName))
  | '!' => keyLike do
    let (handle, suffix) ← tag
    return .tag handle suffix
  | '\'' => keyLike (return .scalar false (textOf (← quotedScalar true)))
  | '"' => keyLike (return .scalar false (textOf (← quotedScalar false)))
  | _ =>
    if c == '-' && isGap next then blockEntry
    else if c == '?' && (flow || isGap next) then explicitKey
    else if c == ':' && (flow || isGap next) then value
    else if (c == '|' || c == '>') && !flow then block (c == '|')
    else if beginsPlain flow c next then plain
    else failHere .unexpectedCharacter

/-- Scans the next token and what it implies. -/
def fetch : Scan Unit := do
  ensure 1
  let before := (← get).mark
  if !(← get).started then
    modify fun s => { s with started := true }
    push .streamStart before
  else
    toNextToken
    leaveBlocks (← get).mark.column before
    ensure 4
    let s ← get
    let c := s.input.char 0
    if isEnd c then streamEnd
    else if s.mark.column == 0 && c == '%' then directiveLine
    else if ← atDocumentMark then documentMark (if c == '-' then .documentStart else .documentEnd)
    else
      let joined := if s.flow == 0 then c == ':' else c == ','
      let owner := match s.queue.getLast? with
        | some t => if joined then t.start.index else s.mark.index
        | none => s.mark.index
      token (s.flow != 0) c (s.input.char 1)
      unless (← get).queue.getLast?.any (·.content == .blockEntry) do lineComment owner

/-! ### Taking tokens -/

/-- Scans until the first token of the queue has two more behind it and is no possible key. -/
def prepare : Scan Unit := do
  loop (fun _ => do
    let s ← get
    if 2 < s.queue.length then
      match s.awaited[s.taken]? with
      | none => return .done ()
      | some level => unless ← stillPossible level do return .done ()
    fetch
    return .again ()) ()
  modify fun s => { s with ready := true }

/-- The next token. The comments before it that were not seen yet are kept. -/
def peek : Scan Token := do
  unless (← get).ready do prepare
  let s ← get
  let t := (s.queue.head?).getD default
  let (remark, comments) := claim t s.remark s.comments
  set { s with remark, comments }
  return t

/-- Takes the next token away. -/
def take : Scan Unit :=
  modify fun s => { s with ready := false, taken := s.taken + 1, queue := s.queue.drop 1 }

/-- Takes the dash of an entry away. If there are comments before it, the next token is looked at to see
whether they belong to a collection that begins there, and a fault on the way is passed over. -/
def takeDash : Scan Unit := do
  let remark := (← get).remark
  take
  unless remark.isEmpty do
    match (← passOver peek).map Token.content with
    | some .sequenceStart | some .mappingStart =>
      modify fun s => { s with remark := s.remark.drop (remark.length + 1) }
    | _ => return

/-- Fails if there was a fault that was passed over. -/
def settle : Scan Unit := do
  match (← get).trouble with
  | some e => throw e
  | none => return

end RatLang.Yaml.Scan
