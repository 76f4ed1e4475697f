import RatLang.Text.CodePoint
import RatLang.Yaml.Character
import RatLang.Yaml.Error

/-!
# The encodings of YAML texts

A YAML text is UTF-8 or UTF-16. A byte order mark at its beginning says which, and does not belong to
the text; without one it is UTF-8. Bytes that spell no character, or none that a YAML text may hold,
are refused.
-/
namespace RatLang.Yaml

/-- An encoding of characters. -/
inductive Encoding where
  | utf8
  | utf16 (bigEndian : Bool)
  deriving DecidableEq, Repr

/-- What stands at the beginning of some bytes. -/
inductive Reading where
  | character (code width : Nat)
  /-- The bytes end inside a character, which is wrong if none follow. -/
  | cut (problem : Problem)
  | malformed (problem : Problem)
  deriving DecidableEq, Repr

namespace Reading

/-- A character that was spelled, if a text may hold it. -/
def ofCode (code width : Nat) : Reading :=
  if isAllowed code then character code width else malformed .controlCharacter

/-- The number of bytes that a first byte announces in UTF-8. -/
def announcedWidth (b : UInt8) : Option Nat :=
  if b < 0x80 then some 1
  else if b < 0xc0 then none
  else if b < 0xe0 then some 2
  else if b < 0xf0 then some 3
  else if b < 0xf8 then some 4
  else none

/-- The least number that needs a UTF-8 sequence of the given width. -/
def leastCode (width : Nat) : Nat :=
  if width == 2 then 0x80 else if width == 3 then 0x800 else if width == 4 then 0x10000 else 0

/-- The bits of its first byte that a UTF-8 sequence of the given width spells its number with. -/
def leadBits (width : Nat) (b : UInt8) : Nat :=
  b.toNat % (if width == 1 then 128 else if width == 2 then 32 else if width == 3 then 16 else 8)

/-- The first character in UTF-8. -/
def ofUtf8 (b : UInt8) (rest : Text) : Reading :=
  match announcedWidth b with
  | none => malformed .leadingOctet
  | some width =>
    let tails := rest.take (width - 1)
    let code := Point.assemble (leadBits width b) tails
    if tails.length + 1 < width then cut .incompleteSequence
    else if !tails.all Point.isTail then malformed .trailingOctet
    else if code < leastCode width then malformed .sequenceLength
    else if (0xd800 ≤ code && code ≤ 0xdfff) || 0x10ffff < code then malformed .invalidCharacter
    else ofCode code width

/-- The number that two bytes spell. -/
def unit (bigEndian : Bool) (a b : UInt8) : Nat :=
  if bigEndian then a.toNat * 256 + b.toNat else b.toNat * 256 + a.toNat

/-- The first character in UTF-16. -/
def ofUtf16 (bigEndian : Bool) : Text → Reading
  | a :: b :: rest =>
    let first := unit bigEndian a b
    if first / 0x400 == 0x37 then malformed .loneLowUnit
    else if first / 0x400 == 0x36 then
      match rest with
      | c :: d :: _ =>
        let second := unit bigEndian c d
        if second / 0x400 == 0x37 then
          ofCode (0x10000 + first % 0x400 * 0x400 + second % 0x400) 4
        else malformed .loneHighUnit
      | _ => cut .halfPair
    else ofCode first 2
  | _ => cut .halfUnit

end Reading

namespace Encoding

/-- The first character of a text that is not empty. -/
def first (e : Encoding) (b : UInt8) (rest : Text) : Reading :=
  match e with
  | utf8 => .ofUtf8 b rest
  | utf16 bigEndian => .ofUtf16 bigEndian (b :: rest)

/-- The characters of some bytes, with the bytes after them and what is wrong there. A character
that is cut off is wrong only at the end of the text. The fuel is the number of bytes. -/
def decode (e : Encoding) (atEnd : Bool) : Nat → Text → List Char × Text × Option Problem
  | fuel + 1, b :: rest =>
    match e.first b rest with
    | .malformed problem => ([], b :: rest, some problem)
    | .cut problem => ([], b :: rest, if atEnd then some problem else none)
    | .character code width =>
      let (cs, left, problem) := e.decode atEnd fuel (rest.drop (width - 1))
      (Char.ofNat code :: cs, left, problem)
  | _, t => ([], t, none)

/-- The encoding of a text and the text without the mark that tells it. -/
def detect (t : Text) : Encoding × Text :=
  if t.startsWith [0xff, 0xfe] then (utf16 false, t.drop 2)
  else if t.startsWith [0xfe, 0xff] then (utf16 true, t.drop 2)
  else if t.startsWith [0xef, 0xbb, 0xbf] then (utf8, t.drop 3)
  else (utf8, t)

end Encoding

end RatLang.Yaml
