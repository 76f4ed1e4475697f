import RatLang.Yaml.Token.Comment
import RatLang.Yaml.Token.Tag

/-!
# YAML scalars

Plain, quoted and block scalars. Inside a plain or quoted scalar a single line break reads as a
space, and of several the first is dropped; a block scalar keeps its lines (`|`) or joins them (`>`).
-/
namespace RatLang.Yaml

/-! ### Gaps between words -/

/-- The white space between two words of a scalar. -/
structure Gap where
  /-- Blanks before the first line break. -/
  blanks : List Char := []
  /-- The first line break; an escaped one is there without characters. -/
  firstBreak : Option (List Char) := none
  /-- The line breaks after it. -/
  moreBreaks : List Char := []
  deriving DecidableEq, Repr

namespace Gap

/-- The gap with one more blank. Blanks after a line break do not count. -/
def addBlank (g : Gap) (c : Char) : Gap :=
  if g.firstBreak.isSome then g else { g with blanks := g.blanks ++ [c] }

/-- The gap with one more line break. -/
def addBreak (g : Gap) (cs : List Char) : Gap :=
  match g.firstBreak with
  | none => { firstBreak := some cs }
  | some _ => { g with moreBreaks := g.moreBreaks ++ cs }

/-- What the gap reads as. -/
def text (g : Gap) : List Char :=
  match g.firstBreak with
  | none => g.blanks
  | some ['\n'] => if g.moreBreaks.isEmpty then [' '] else g.moreBreaks
  | some first => first ++ g.moreBreaks

end Gap

/-- A scalar in the middle of being scanned. -/
structure Words where
  /-- The characters so far, the last one first. -/
  read : List Char := []
  /-- The white space behind them. -/
  gap : Gap := {}
  deriving Repr

namespace Words

/-- Adds characters and the white space before them. -/
def add (w : Words) (cs : List Char) : Words :=
  { read := cs.reverse ++ (w.gap.text.reverse ++ w.read) }

/-- The scalar up to the end of the white space. -/
def close (w : Words) : Words := w.add []

end Words

namespace Scan

/-- Goes past white space. Where lines have to be indented, a tab before that is refused. -/
def gap (g : Gap) (tabStop : Option (Mark × Int)) : Scan Gap := do
  ensure 1
  loop (fun g => do
    let c ← char
    if isBlank c then
      if let some (start, indent) := tabStop then
        if c == '\t' && g.firstBreak.isSome && (← get).mark.column < indent then
          fail start .tabInPlain
      skip
      ensure 1
      return .again (g.addBlank c)
    else if isBreak c then
      ensure 2
      let cs ← lineBreak
      ensure 1
      return .again (g.addBreak cs)
    else return .done g) g

/-! ### Plain scalars -/

/-- The characters that end a plain scalar inside a flow collection. -/
def isFlowIndicator (c : Char) : Bool :=
  c == ',' || c == '?' || c == '[' || c == ']' || c == '{' || c == '}'

/-- The words of a plain scalar up to white space or to its end. -/
def plainWord (flow : Bool) (w : Words) : Scan Words :=
  loop (fun w => do
    let c ← char
    if isGap c || (c == ':' && isGap (← char 1)) || (flow && isFlowIndicator c) then
      return .done w
    skip
    ensure 2
    return .again (w.add [c])) w

/-- A plain scalar, and whether a line break follows it. -/
def plainScalar : Scan (List Char × Bool) := do
  let s ← get
  let indent := s.indent + 1
  let w ← loop (fun w => do
    ensure 4
    if (← atDocumentMark) || (← char) == '#' then return .done w
    let w ← plainWord (s.flow != 0) w
    let c ← char
    unless isBlank c || isBreak c do return .done w
    let w := { w with gap := ← gap w.gap (some (s.mark, indent)) }
    if s.flow == 0 && (← get).mark.column < indent then return .done w
    return .again w) ({} : Words)
  return (w.read.reverse, w.gap.firstBreak.isSome)

/-! ### Quoted scalars -/

/-- The character that a backslash and a letter stand for. -/
def escaped? (c : Char) : Option Char :=
  match c with
  | '0' => some '\x00'
  | 'a' => some '\x07'
  | 'b' => some '\x08'
  | 't' | '\t' => some '\t'
  | 'n' => some '\n'
  | 'v' => some '\x0b'
  | 'f' => some '\x0c'
  | 'r' => some '\r'
  | 'e' => some '\x1b'
  | ' ' | '"' | '\'' | '\\' => some c
  | 'N' => some '\u0085'
  | '_' => some '\u00a0'
  | 'L' => some '\u2028'
  | 'P' => some '\u2029'
  | _ => none

/-- The number of digits after a backslash and a letter. -/
def escapeWidth? (c : Char) : Option Nat :=
  match c with
  | 'x' => some 2
  | 'u' => some 4
  | 'U' => some 8
  | _ => none

/-- The character whose number is written in the given number of hexadecimal digits. -/
def numberedChar (start : Mark) (width : Nat) : Scan Char := do
  ensure width
  let digits := ((← get).input.ahead.take width).map hexValue?
  match digits.foldl (fun n d => do return (← n) * 16 + (← d)) (some 0) with
  | some code =>
    if (0xd800 ≤ code && code ≤ 0xdfff) || 0x10ffff < code then fail start .escapeCode
    digits.forM fun _ => skip
    return Char.ofNat code
  | none => fail start .escapeDigits

/-- The character that a backslash and what follows it stand for. -/
def escapedQuoted (start : Mark) : Scan Char := do
  let c ← char 1
  match escaped? c, escapeWidth? c with
  | some e, _ =>
    skip
    skip
    return e
  | none, some width =>
    skip
    skip
    numberedChar start width
  | none, none => fail start .unknownEscape

/-- The words of a quoted scalar up to white space or to the last quote. A backslash before a line
break takes the break away. -/
def quotedWord (single : Bool) (start : Mark) (w : Words) : Scan Words :=
  loop (fun w => do
    let c ← char
    let next ← char 1
    if isGap c || (single && c == '\'' && next != '\'') || (!single && c == '"') then
      return .done w
    else if !single && c == '\\' && isBreak next then
      ensure 3
      skip
      let _ ← lineBreak
      return .done { w.close with gap := { firstBreak := some [] } }
    else
      let cs ←
        if single && c == '\'' then do
          skip
          skip
          pure ['\'']
        else if !single && c == '\\' then do pure [← escapedQuoted start]
        else do
          skip
          pure [c]
      ensure 2
      return .again (w.add cs)) w

/-- A quoted scalar. -/
def quotedScalar (single : Bool) : Scan (List Char) := do
  let start := (← get).mark
  skip
  let w ← loop (fun w => do
    ensure 4
    if ← atDocumentMark then fail start .documentMark
    if isEnd (← char) then fail start .unclosedQuote
    let w ← quotedWord single start w
    ensure 1
    if (← char) == (if single then '\'' else '"') then return .done w
    return .again { w with gap := ← gap w.gap none }) ({} : Words)
  skip
  return w.close.read.reverse

/-! ### Block scalars -/

/-- What happens to the line breaks at the end of a block scalar. -/
inductive Chomping where
  | strip
  | clip
  | keep
  deriving DecidableEq, Repr

/-- A sign that says what happens to the line breaks at the end. -/
def chomping? : Scan (Option Chomping) := do
  ensure 1
  match ← char with
  | '+' =>
    skip
    return some .keep
  | '-' =>
    skip
    return some .strip
  | _ => return none

/-- A digit that gives the indentation of the lines. -/
def indentation? (start : Mark) : Scan (Option Nat) := do
  ensure 1
  let c ← char
  if c == '0' then fail start .zeroIndentation
  if c.isDigit then
    skip
    return some (c.toNat - 0x30)
  else return none

/-- The two optional indicators after `|` or `>`, in either order. -/
def blockIndicators (start : Mark) : Scan (Chomping × Option Nat) := do
  match ← chomping? with
  | some chomping => return (chomping, ← indentation? start)
  | none =>
    match ← indentation? start with
    | some n => return ((← chomping?).getD .clip, some n)
    | none => return (.clip, none)

/-- The lines of a block scalar in the middle of being scanned. -/
structure Block where
  /-- The indentation of its lines, once it is known. -/
  indent : Option Nat
  /-- The characters so far, the last one first. -/
  read : List Char := []
  /-- The end of the last line. -/
  lineBreak : List Char := []
  /-- The empty lines after it. -/
  emptyLines : List Char := []
  /-- Whether the last line began with a blank. -/
  blankStart : Bool := false
  deriving Repr

namespace Block

/-- Begins a line, which itself begins with a blank or not. Folding joins two lines by a space unless
one of them begins with a blank. -/
def beginLine (b : Block) (literal blank : Bool) : Block :=
  let folds := !literal && !b.blankStart && !blank && b.lineBreak == ['\n']
  let joined :=
    if folds then if b.emptyLines.isEmpty then [' '] else []
    else b.lineBreak
  { b with
    read := b.emptyLines.reverse ++ joined.reverse ++ b.read
    lineBreak := []
    emptyLines := []
    blankStart := blank }

/-- The text of a block scalar. -/
def text (b : Block) (chomping : Chomping) : List Char :=
  b.read.reverse ++
    match chomping with
    | .strip => []
    | .clip => b.lineBreak
    | .keep => b.lineBreak ++ b.emptyLines

end Block

/-- Goes past empty lines and indentation. The first line that is not empty shows the indentation if
it is not known: it is the widest seen, and at least one more than that of the block around. -/
def blockGap (start : Mark) (b : Block) : Scan Block := do
  let (b, widest) ← loop (fun ((b, widest) : Block × Nat) => do
    ensure 1
    let _ ← loop (fun _ => do
      let s ← get
      if b.indent.all (s.mark.column < ·) && s.input.char 0 == ' ' then
        skip
        ensure 1
        return .again ()
      else return .done ()) ()
    let s ← get
    let c := s.input.char 0
    let widest := max widest s.mark.column
    if b.indent.all (s.mark.column < ·) && c == '\t' then fail start .tabInIndentation
    if isBreak c then
      ensure 2
      return .again ({ b with emptyLines := b.emptyLines ++ (← lineBreak) }, widest)
    else return .done (b, widest)) (b, 0)
  let outer := (← get).indent
  return { b with indent := b.indent.getD (max widest (max 1 (outer + 1).toNat)) }

/-- The lines of a block scalar, up to the first that is not indented enough. -/
def blockLines (literal : Bool) (start : Mark) (b : Block) : Scan Block := do
  let b ← blockGap start b
  ensure 1
  loop (fun b => do
    let c ← char
    if b.indent == some (← get).mark.column && !isEnd c then
      let b := b.beginLine literal (isBlank c)
      let cs ← takeWhile (!isLineEnd ·)
      ensure 2
      let ending ← lineBreak
      return .again (← blockGap start { b with read := cs.reverse ++ b.read, lineBreak := ending })
    else return .done b) b

/-- A block scalar. -/
def blockScalar (literal : Bool) : Scan (List Char) := do
  let start := (← get).mark
  skip
  let (chomping, increment) ← blockIndicators start
  skipBlanks
  if (← char) == '#' then
    lineComment start.index
    let _ ← takeWhile (!isLineEnd ·)
  unless isLineEnd (← char) do fail start .blockHeading
  skipLine
  let outer := (max 0 (← get).indent).toNat
  let b ← blockLines literal start { indent := increment.map (outer + ·) }
  return b.text chomping

end Scan

end RatLang.Yaml
