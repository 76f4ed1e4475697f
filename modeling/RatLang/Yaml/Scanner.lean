import Std.Data.HashMap
import RatLang.Yaml.Input
import RatLang.Yaml.Token

/-!
# The state of a scanner

A scanner goes through the characters of a text and keeps the tokens that it has found and nobody has
taken yet. A step of it may fail, and what it has read by then stays read.
-/
namespace RatLang.Yaml

/-- A token that may become a key when a `:` follows it. -/
structure SimpleKey where
  /-- Whether it still may. -/
  possible : Bool := false
  /-- Whether the token can be nothing else, standing first in a line of a block mapping. -/
  required : Bool := false
  /-- Its number. -/
  token : Nat := 0
  mark : Mark := {}
  deriving DecidableEq, Repr

/-- A text in the middle of being scanned. -/
structure Scanner where
  input : Input
  mark : Mark := {}
  /-- The number of line breaks since the last character that is no blank. -/
  breaks : Nat := 0
  /-- Whether the scanner has begun. -/
  started : Bool := false
  /-- The tokens that are not taken yet. -/
  queue : List Token := []
  /-- The number of tokens that are taken. -/
  taken : Nat := 0
  /-- Whether the first token of the queue is known to be complete. -/
  ready : Bool := false
  /-- The number of flow collections around the place. -/
  flow : Nat := 0
  /-- The column of the innermost block collection. -/
  indent : Int := -1
  /-- The columns of the blocks around it, the nearest one first. -/
  indents : List Int := []
  /-- The number of those. -/
  depth : Nat := 0
  /-- Whether a key may begin at the place. -/
  keyAllowed : Bool := true
  /-- The possible key of the block and of each flow collection in it, the innermost one last. -/
  keys : Array SimpleKey := #[{}]
  /-- The places in `keys` of the tokens that are held back because they may become keys. -/
  awaited : Std.HashMap Nat Nat := ∅
  /-- The comments that do not belong to a token so far. -/
  comments : List Comment := []
  /-- The comments before the token that is looked at. -/
  remark : List Char := []
  /-- A fault of the text that was passed over. -/
  trouble : Option Error := none
  /-- The line of the last fault that had one. -/
  faultLine : Nat := 0
  /-- More steps than any loop over the characters takes. -/
  fuel : Nat := 0

/-- A step of a scanner. -/
abbrev Scan := ExceptT Error (StateM Scanner)

/-- A scanner at the beginning of a text. -/
def Scanner.ofText (t : Text) : Scanner := { input := { rest := t }, fuel := 2 * t.length + 64 }

namespace Scan

/-- Fails inside something that began at a place, of which the line is reported unless it is the
first. -/
def fail {α : Type} (began : Mark) (problem : Problem) : Scan α := do
  let s ← get
  let line := if began.line != 0 then began.line else s.mark.line
  set { s with faultLine := line }
  throw (.syntaxError (if line == 0 then 0 else line + 1) problem)

/-- Fails at the current place. -/
def failHere {α : Type} (problem : Problem) : Scan α := do
  fail (← get).mark problem

/-- What a loop does after a round. -/
inductive Round (σ : Type) where
  | again (s : σ)
  | done (s : σ)

/-- A loop over the characters of the text. -/
def loop {σ : Type} (round : σ → Scan (Round σ)) (s : σ) : Scan σ := do
  go (← get).fuel s
where
  go : Nat → σ → Scan σ
    | 0, s => return s
    | fuel + 1, s => do
      match ← round s with
      | .again s => go fuel s
      | .done s => return s

/-! ### Looking at characters -/

/-- Makes sure that there are `n` characters to look at. What is wrong with a character has no line of
its own. -/
def ensure (n : Nat) : Scan Unit := do
  let s ← get
  let (input, problem) := s.input.ensure n
  set { s with input }
  match problem with
  | some p => throw (.syntaxError s.faultLine p)
  | none => return

/-- Passes over a fault and keeps it for later. -/
def passOver {α : Type} (step : Scan α) : Scan (Option α) :=
  tryCatch (some <$> step) fun e => do
    modify fun s => { s with trouble := some e }
    return none

/-- Whether there are `n` characters to look at. -/
def reaches (n : Nat) : Scan Bool := return (← passOver (ensure n)).isSome

/-- The `n`th character from here on. -/
def char (n : Nat := 0) : Scan Char := return (← get).input.char n

/-- Whether the text goes on with `---` or `...` at the beginning of a line. -/
def atDocumentMark : Scan Bool := do
  let s ← get
  let c (n : Nat) : Char := s.input.char n
  return s.mark.column == 0 && Yaml.atDocumentMark (c 0) (c 1) (c 2) (c 3)

/-! ### Going on -/

/-- Goes past a character. -/
def skip : Scan Unit :=
  modify fun s =>
    { s with
      input := s.input.drop 1
      mark := { s.mark with index := s.mark.index + 1, column := s.mark.column + 1 }
      breaks := if isBlank (s.input.char 0) then s.breaks else 0 }

/-- Goes past a line break and returns what it reads as. A carriage return, with or without a line
feed, and the next-line character read as line feeds. -/
def lineBreak : Scan (List Char) := do
  let s ← get
  let c := s.input.char 0
  if isBreak c then
    let width := if c == '\r' && s.input.char 1 == '\n' then 2 else 1
    set
      { s with
        input := s.input.drop width
        mark := ⟨s.mark.index + width, s.mark.line + 1, 0⟩
        breaks := s.breaks + 1 }
    return if c == '\u2028' || c == '\u2029' then [c] else ['\n']
  else return []

/-- Goes past a line break, if there is one. -/
def skipLine : Scan Unit := do
  if isBreak (← char) then
    ensure 2
    let _ ← lineBreak

/-- Goes past the characters that satisfy the test and returns them. -/
def takeWhile (p : Char → Bool) : Scan (List Char) := do
  ensure 1
  let read ← loop (fun read => do
    let c ← char
    if p c then
      skip
      ensure 1
      return .again (c :: read)
    else return .done read) []
  return read.reverse

end Scan

end RatLang.Yaml
