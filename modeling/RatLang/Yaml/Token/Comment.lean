import RatLang.Yaml.Scanner

/-!
# Comments and white space between tokens

A comment goes from a `#` to the end of the line. Outside flow collections a tab is white space only
where no key may begin; but comments that follow another comment may stand behind any white space.
The scanner looks at most 512 characters ahead for a comment.

Comments that follow one another are one comment. It belongs to the token behind it, unless it stands
below a token with an empty line behind it, or its lines end where less is indented; then it belongs to
the token in front of it.
-/
namespace RatLang.Yaml.Scan

/-- How far the scanner looks for a comment. -/
def commentReach : Nat := 512

/-- Goes past everything up to the end of the line of the comment that begins at the index, and returns
the comment. -/
def readComment (start : Nat) : Scan (List Char) := do
  let read ← loop (fun read => do
    ensure 1
    let c ← char
    let begun := start ≤ (← get).mark.index
    if isLineEnd c then
      if begun then return .done read
      ensure 2
      let _ ← lineBreak
      return .again read
    else
      skip
      return .again (if begun then c :: read else read)) []
  return read.reverse

/-- Keeps a comment until it belongs to a token. -/
def addComment (place : CommentPlace) (owner : Nat) (start : Mark) (text : List Char) : Scan Unit :=
  modify fun s => { s with comments := s.comments ++ [⟨place, owner, start, text⟩] }

/-- Goes past a comment behind a token, if the token was the last thing on its line. -/
def lineComment (owner : Nat) : Scan Unit := do
  if (← get).breaks == 0 then
    let _ ← loop (fun n => do
      if commentReach ≤ n then return .done n
      unless ← reaches (n + 1) do return .done n
      let c ← char n
      if isBlank c then return .again (n + 1)
      if c == '#' then
        let mark := (← get).mark
        let start := { mark with index := mark.index + n, column := mark.column + n }
        addComment .beside owner start (← readComment start.index)
      return .done n) 0

/-! ### Comments on lines of their own -/

/-- The comments that are found in a row. -/
structure Row where
  /-- The number of characters looked past. -/
  ahead : Nat := 0
  line : Nat
  /-- The column of the character that is looked at, from one on. -/
  column : Nat
  /-- The comment so far, the last character first. -/
  text : List Char := []
  /-- Where it starts. -/
  start : Mark := {}
  /-- Whether no empty line was seen. -/
  unbroken : Bool
  /-- Whether the line before is empty. -/
  afterEmpty : Bool := false

namespace Row

/-- The row with the comment left to the token in front of it. -/
def leave (r : Row) : Scan Row := do
  if r.text.isEmpty then return r
  addComment .after r.start.index r.start r.text.reverse
  return { r with text := [] }

/-- The row at the next character. -/
def next (r : Row) : Row := { r with ahead := r.ahead + 1, column := r.column + 1 }

/-- The row with the comment left to the token in front of it if a line that begins here is indented
less than the blocks around. -/
def dedent (r : Row) (indent : Nat) : Scan Row :=
  if r.column ≤ indent && r.column != r.start.column then r.leave else return r

/-- The row in front of a line break or of the end. -/
def endLine (r : Row) (closes foot : Bool) (c : Char) : Scan Row :=
  if closes || !r.afterEmpty then
    if closes || (r.unbroken && foot) then r.leave
    else return { r with text := if r.text.isEmpty || isEnd c then r.text else '\n' :: r.text }
  else return r

end Row

/-- The line breaks that are not taken for white space between comments. -/
def isWideBreak (c : Char) : Bool := isBreak c && c != '\r' && c != '\n'

/-- The line on which a comment follows the token in front of it without a gap, if that token is on a
line that the scanner has seen the end of. The scanner began to look for the next token at `began`. -/
def footLine? (s : Scanner) (began : Mark) : Option Nat :=
  if began.column == 0 then none
  else some (s.mark.line + 1 - s.breaks + if s.breaks == 0 && 1 < s.mark.column then 1 else 0)

/-- The token in front of the place, or of the comma there. -/
def tokenBefore (s : Scanner) : Content :=
  match s.queue.reverse with
  | ⟨.flowEntry, _⟩ :: t :: _ | t :: _ => t.content
  | [] => .streamStart

/-- Goes past the comment at the current place and those that follow it with nothing but white space
between them. The scanner began to look for a token at `began`. -/
def comments (began : Mark) : Scan Unit := do
  let s ← get
  let indent := s.indent.toNat
  let isFoot (r : Row) : Bool :=
    (footLine? s began == some r.start.line && tokenBefore s != .value) || r.start.column ≤ indent
  let stop (r : Row) : Scan (Round Row) := do
    if r.ahead < commentReach then
      let _ ← reaches (r.ahead + 1)
    return .done (← r.dedent indent)
  let row ← loop (fun (r : Row) => do
    if commentReach ≤ r.ahead then return .done r
    unless ← reaches (r.ahead + 1) do return .done r
    let c ← char r.ahead
    if isBlank c then return .again r.next
    let closes := s.flow != 0 && (c == ']' || c == '}')
    if closes || isLineEnd c then
      let r ← r.endLine closes (isFoot r) c
      unless isBreak c do return .done r
      let r := { r with
        ahead := r.ahead + 1, line := r.line + 1, column := 1, unbroken := false, afterEmpty := true }
      if isWideBreak c then stop r else return .again r
    else
      let r ← r.dedent indent
      if c != '#' then return .done r
      let mark := (← get).mark
      let start := ⟨mark.index + r.ahead, r.line, r.column⟩
      let read ← readComment start.index
      let r : Row := { r with
        ahead := 1
        line := (← get).mark.line
        column := 1
        text := read.reverse ++ if r.text.isEmpty then [] else '\n' :: r.text
        start := if r.text.isEmpty then start else r.start
        afterEmpty := false }
      if isWideBreak (← char) then stop r else return .again r)
    { line := s.mark.line, column := s.mark.column + 1, unbroken := s.breaks ≤ 1 }
  unless row.text.isEmpty do addComment .before row.start.index row.start row.text.reverse

/-- A comment beside the beginning of a sequence, with the first entry on the next line, is taken for
one before that entry. -/
def reassign : Scan Unit := do
  let s ← get
  match s.comments.getLast?, s.queue.reverse with
  | some comment, ⟨.blockEntry, _⟩ :: ⟨.sequenceStart, _⟩ :: _ =>
    if comment.place == .beside && !isBreak (s.input.char 0) then
      let owner := if comment.start.line + 1 == s.mark.line then s.mark.index else comment.owner
      set { s with comments := s.comments.dropLast ++ [{ comment with place := .before, owner }] }
  | _, _ => return

/-- Goes past the white space and the comments in front of a token. A line break outside flow
collections allows a key. Where a line begins, a byte order mark that the characters in memory begin
with takes a character with it. -/
def toNextToken : Scan Unit := do
  let began := (← get).mark
  loop (fun _ => do
    ensure 1
    let s ← get
    if s.mark.column == 0 && s.input.marked then skip
    let s ← get
    let tabs := s.flow != 0 || !s.keyAllowed
    let _ ← takeWhile fun c => c == ' ' || (tabs && c == '\t')
    reassign
    if (← char) == '#' then comments began
    if isBreak (← char) then
      skipLine
      modify fun s => { s with keyAllowed := s.keyAllowed || s.flow == 0 }
      return .again ()
    else return .done ()) ()

/-! ### The comments of a token -/

/-- The comments that belong to a token that is looked at, added to those before it, and the comments
that are left. The end of a block has none before it. -/
def claim (t : Token) (remark : List Char) : List Comment → List Char × List Comment
  | [] => (remark, [])
  | c :: rest =>
    if t.start.index < c.owner || (c.place == .before && t.content == .blockEnd) then
      (remark, c :: rest)
    else if c.place == .before then
      claim t (if remark.isEmpty then c.text else remark ++ '\n' :: c.text) rest
    else claim t remark rest

/-- Forgets the comments before a token, because they were seen. -/
def forgetRemark : Scan Unit := modify fun s => { s with remark := [] }

/-- The comment behind the last empty line of a comment. -/
def lastParagraph (cs : List Char) : List Char :=
  match cs.reverse with
  | '\n' :: _ => []
  | reversed => (go reversed).reverse
where
  go : List Char → List Char
    | '\n' :: '\n' :: _ => []
    | c :: rest => c :: go rest
    | [] => []

/-- Forgets the comments before a token up to the last empty line in them, because they belong to the
document. -/
def keepLastParagraph : Scan Unit := modify fun s => { s with remark := lastParagraph s.remark }

end RatLang.Yaml.Scan
