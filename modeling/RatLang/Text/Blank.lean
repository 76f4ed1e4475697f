import RatLang.Text.CodePoint

/-!
# White space at the ends of a text

White space is the Unicode property: the ASCII blanks, the next-line control, the no-break space and
the spaces and separators of the general punctuation block and beyond. The zero-width space and the
byte order mark are not white space.
-/
namespace RatLang

/-- The white space characters of Unicode. -/
def isBlankCode (code : Nat) : Bool :=
  (0x09 ≤ code && code ≤ 0x0d) || code == 0x20 || code == 0x85 || code == 0xa0 || code == 0x1680 ||
  (0x2000 ≤ code && code ≤ 0x200a) || code == 0x2028 || code == 0x2029 || code == 0x202f ||
  code == 0x205f || code == 0x3000

namespace Point

/-- Whether the point is white space; a byte that is not UTF-8 is none. -/
def isBlank (p : Point) : Bool := p.code.any isBlankCode

end Point

/-- The text without the white space at its two ends. -/
def Text.trimmed (t : Text) : Text :=
  (((t.points.dropWhile Point.isBlank).reverse.dropWhile Point.isBlank).reverse).flatMap Point.bytes

end RatLang
