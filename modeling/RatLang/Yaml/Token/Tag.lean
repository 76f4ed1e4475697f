import RatLang.Text.Numeral
import RatLang.Yaml.Scanner

/-!
# Anchors, tags and directives

An anchor gives a node a name, a tag gives it a type, and a directive in front of a document states
the version of YAML or introduces a handle, an abbreviation of what tags begin with. Tags are written
in the characters of URIs, where `%` and two hexadecimal digits stand for a byte of UTF-8.
-/
namespace RatLang.Yaml

/-- The value of a hexadecimal digit. -/
def hexValue? (c : Char) : Option Nat :=
  if c.toNat < 0x80 then
    match Numeral.digitValue? c.toNat.toUInt8 with
    | some d => if d < 16 then some d else none
    | none => none
  else none

/-- The characters of tags. -/
def isTagChar (c : Char) : Bool := isNameChar c || ";/?:@&=+$.!~*'()%,[]".toList.contains c

/-- Whether the name of an anchor can end before the character. -/
def endsName (c : Char) : Bool := isGap c || "?:,]\x7d%@`".toList.contains c

namespace Scan

/-- Goes past blanks. -/
def skipBlanks : Scan Unit := do
  let _ ← takeWhile isBlank

/-! ### Anchors -/

/-- The name after `&` or `*`. -/
def anchorName : Scan Text := do
  let start := (← get).mark
  skip
  let name ← takeWhile isNameChar
  if name.isEmpty || !endsName (← char) then fail start .anchorName
  return textOf name

/-! ### Tags -/

/-- A byte that is written as `%` and two digits. -/
def escapedOctet (start : Mark) : Scan UInt8 := do
  ensure 3
  match ← char, hexValue? (← char 1), hexValue? (← char 2) with
  | '%', some high, some low => return (high * 16 + low).toUInt8
  | _, _, _ => fail start .octetDigits

/-- Goes past a byte that is written as `%` and two digits. -/
def skipOctet : Scan Unit := do
  skip
  skip
  skip

/-- The bytes of a UTF-8 sequence after its first one. -/
def escapedTails (start : Mark) : Nat → Scan Text
  | 0 => return []
  | n + 1 => do
    let b ← escapedOctet start
    unless Point.isTail b do fail start .octetTail
    skipOctet
    return b :: (← escapedTails start n)

/-- A character of which every byte is written as `%` and two digits. -/
def escapedChar (start : Mark) : Scan Text := do
  let b ← escapedOctet start
  match Reading.announcedWidth b with
  | some width =>
    skipOctet
    return b :: (← escapedTails start (width - 1))
  | none => fail start .octetLead

/-- The longest run of tag characters, with the escaped ones in their own form. -/
def tagChars (start : Mark) : Scan Text := do
  ensure 1
  let read ← loop (fun read => do
    let c ← char
    if isTagChar c then
      let part ← if c == '%' then escapedChar start
        else do
          skip
          pure (textOf [c])
      ensure 1
      return .again (part :: read)
    else return .done read) []
  return read.reverse.flatten

/-- Tag characters, of which there must be some. -/
def tagText (start : Mark) : Scan Text := do
  let t ← tagChars start
  if t.isEmpty then fail start .tagName
  return t

/-- A word between exclamation marks, of which the last one may be missing. -/
def tagHandle (start : Mark) : Scan Text := do
  ensure 1
  if (← char) != '!' then fail start .tagMark
  skip
  let word := '!' :: (← takeWhile isNameChar)
  if (← char) == '!' then
    skip
    return textOf (word ++ ['!'])
  else return textOf word

/-- A handle and the rest of a tag: `!suffix`, `!handle!suffix` or, without a handle, `!<tag>`. The
tag `!` has no handle either. -/
def tag : Scan (Text × Text) := do
  let start := (← get).mark
  ensure 2
  let result ← if (← char 1) == '<' then do
      skip
      skip
      let t ← tagText start
      if (← char) != '>' then fail start .tagBracket
      skip
      pure ([], t)
    else do
      let word ← tagHandle start
      if 1 < word.length && word.getLast? == some 0x21 then pure (word, ← tagText start)
      else
        let suffix := word.drop 1 ++ (← tagChars start)
        pure (if suffix.isEmpty then ([], bytes "!") else (bytes "!", suffix))
  ensure 1
  unless isGap (← char) do fail start .tagEnd
  return result

/-! ### Directives -/

/-- A part of a version, of at most two digits. -/
def versionPart (start : Mark) : Scan Nat := do
  ensure 1
  let (value, length) ← loop (fun ((value, length) : Nat × Nat) => do
    let c ← char
    if c.isDigit then
      if length == 2 then fail start .versionLength
      skip
      ensure 1
      return .again (value * 10 + (c.toNat - 0x30), length + 1)
    else return .done (value, length)) (0, 0)
  if length == 0 then fail start .versionNumber
  return value

/-- What follows the name of a directive about the version. -/
def versionDirective (start : Mark) : Scan Content := do
  skipBlanks
  let major ← versionPart start
  if (← char) != '.' then fail start .versionPoint
  skip
  return .version major (← versionPart start)

/-- What follows the name of a directive about a handle. -/
def handleDirective (start : Mark) : Scan Content := do
  skipBlanks
  let handle ← tagHandle start
  if handle != bytes "!" && handle.getLast? != some 0x21 then fail start .tagMark
  ensure 1
  unless isBlank (← char) do fail start .tagGap
  skipBlanks
  let stem ← tagText start
  ensure 1
  unless isGap (← char) do fail start .tagEnd
  return .handle handle stem

/-- A line that begins with `%`. -/
def directive : Scan Content := do
  let start := (← get).mark
  skip
  let name ← takeWhile isNameChar
  if name.isEmpty then fail start .directiveName
  unless isGap (← char) do fail start .directiveEnd
  let content ←
    if name == ['Y', 'A', 'M', 'L'] then versionDirective start
    else if name == ['T', 'A', 'G'] then handleDirective start
    else fail start .unknownDirective
  skipBlanks
  if (← char) == '#' then
    let _ ← takeWhile (!isLineEnd ·)
  unless isLineEnd (← char) do fail start .blockHeading
  skipLine
  return content

end Scan

end RatLang.Yaml
