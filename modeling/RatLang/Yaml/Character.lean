import RatLang.Text

/-!
# Characters of YAML texts

The classes of characters that the rules of YAML speak of. The NUL character, which no text may hold,
stands for the end of a text.
-/
namespace RatLang.Yaml

/-- The characters that a YAML text may hold. -/
def isAllowed (code : Nat) : Bool :=
  code == 0x09 || code == 0x0a || code == 0x0d || (0x20 ≤ code && code ≤ 0x7e) || code == 0x85 ||
  (0xa0 ≤ code && code ≤ 0xd7ff) || (0xe000 ≤ code && code ≤ 0xfffd) ||
  (0x10000 ≤ code && code ≤ 0x10ffff)

/-- The end of a text. -/
def isEnd (c : Char) : Bool := c == '\x00'

/-- The space and the tab. -/
def isBlank (c : Char) : Bool := c == ' ' || c == '\t'

/-- The characters that end a line. -/
def isBreak (c : Char) : Bool :=
  c == '\r' || c == '\n' || c == '\u0085' || c == '\u2028' || c == '\u2029'

/-- The end of a line or of the text. -/
def isLineEnd (c : Char) : Bool := isBreak c || isEnd c

/-- The end of a word. -/
def isGap (c : Char) : Bool := isBlank c || isLineEnd c

/-- The characters of names: ASCII letters, digits, `_` and `-`. -/
def isNameChar (c : Char) : Bool := c.isAlphanum || c == '_' || c == '-'

/-- Whether the text begins with `---` or `...` as a word of its own. -/
def atDocumentMark (a b c d : Char) : Bool :=
  a == b && b == c && (a == '-' || a == '.') && isGap d

/-- The byte order mark. -/
def byteOrderMark : Char := '\ufeff'

/-- Characters as UTF-8. -/
def textOf (cs : List Char) : Text := cs.flatMap String.utf8EncodeChar

end RatLang.Yaml
