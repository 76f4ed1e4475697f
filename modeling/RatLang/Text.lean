/-!
# Text

Sources, names, file names and all output are strings of bytes. A source may hold bytes that are
not UTF-8, and every byte of it counts, so texts are lists of bytes and code points are a view of
them.
-/
namespace RatLang

/-- A string of bytes. -/
abbrev Text := List UInt8

/-- The UTF-8 bytes of a string. -/
def bytes (s : String) : Text := s.toList.flatMap String.utf8EncodeChar

/-- `[0-9]` -/
def isDigit (b : UInt8) : Bool := 0x30 ≤ b && b ≤ 0x39

/-- `[A-Za-z]` -/
def isLetter (b : UInt8) : Bool := (0x41 ≤ b && b ≤ 0x5a) || (0x61 ≤ b && b ≤ 0x7a)

/-- `[0-9A-Za-z_]`, the bytes that words are made of. -/
def isWordByte (b : UInt8) : Bool := isDigit b || isLetter b || b == 0x5f

/-- A truth value in words. -/
def boolText (b : Bool) : Text := if b then bytes "true" else bytes "false"

namespace Text

/-- A line of text: the text and a newline. -/
def line (t : Text) : Text := t ++ [0x0a]

/-- The parts with `sep` between neighbours. -/
def join (sep : Text) (parts : List Text) : Text := List.intercalate sep parts

/-- The pieces between the occurrences of a byte; never the empty list. -/
def splitOn (sep : UInt8) : Text → List Text
  | [] => [[]]
  | b :: rest =>
    if b == sep then [] :: splitOn sep rest
    else match splitOn sep rest with
      | piece :: pieces => (b :: piece) :: pieces
      | [] => [[b]]

/-- Whether the text begins with `start`. -/
def startsWith (t start : Text) : Bool := start.isPrefixOf t

/-- The text without `tail` at its end, or the text itself when it ends otherwise. -/
def withoutEnding (t tail : Text) : Text :=
  if tail.isSuffixOf t then t.take (t.length - tail.length) else t

end Text

end RatLang
