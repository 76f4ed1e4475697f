import RatLang.Token

/-!
# Scanning

A source is cut into spans from left to right. At each place the rules are tried in a fixed order and
the first one that matches takes its span; the last rule takes any one character, so the spans tile
the whole source. Words and numbers must not run into a following word byte, but nothing is asked of
what precedes them: digits in front of a letter are therefore taken one at a time as stray characters,
and a reserved word glued to them reads as an identifier.

The tokens are the spans of the token rules, the skips are the stray characters. Strict scanning
fails at the first stray character.
-/
namespace RatLang

/-- The rules of the scanner. -/
inductive Rule where
  | comment
  | keyword
  | identifier
  | integer
  | assign
  | operator
  | delimiter
  | whitespace
  | stray
  deriving DecidableEq, Repr

namespace Rule

/-- The order in which the rules are tried. -/
def order : List Rule :=
  [comment, keyword, identifier, integer, assign, operator, delimiter, whitespace, stray]

/-- Tab, line feed, form feed, carriage return and space. -/
def isSpace (b : UInt8) : Bool := b == 0x09 || b == 0x0a || b == 0x0c || b == 0x0d || b == 0x20

/-- `[;{},()]` -/
def isDelimiter (b : UInt8) : Bool :=
  b == 0x3b || b == 0x7b || b == 0x7d || b == 0x2c || b == 0x28 || b == 0x29

/-- The operator bytes that an equals sign may follow. -/
def isOperatorByte (b : UInt8) : Bool :=
  b == 0x2b || b == 0x2d || b == 0x2a || b == 0x2f || b == 0x3c || b == 0x3e

/-- Whether a word may end in front of this text. -/
def wordEnds : Text → Bool
  | [] => true
  | b :: _ => !isWordByte b

/-- The length of a comment's body and its closing `*]`. -/
def commentTail? : Text → Option Nat
  | [] => none
  | b :: rest =>
    match b, rest with
    | 0x2a, 0x5d :: _ => some 2
    | _, _ => (commentTail? rest).map (· + 1)

/-- The length of the span that a rule takes at the beginning of a text, if it matches there. -/
def length? (rule : Rule) (t : Text) : Option Nat :=
  match rule, t with
  | comment, 0x5b :: 0x2a :: rest => (commentTail? rest).map (· + 2)
  | keyword, _ =>
    (keywords.find? fun k => t.startsWith k && wordEnds (t.drop k.length)).map List.length
  | identifier, b :: rest =>
    if isLetter b || b == 0x5f then some (1 + (rest.takeWhile isWordByte).length) else none
  | integer, b :: rest =>
    if isDigit b && wordEnds (rest.dropWhile isDigit) then
      some (1 + (rest.takeWhile isDigit).length)
    else none
  | assign, 0x3d :: _ => some 1
  | operator, 0x21 :: 0x3d :: _ => some 2
  | operator, b :: rest =>
    if isOperatorByte b then some (if rest.head? = some 0x3d then 2 else 1) else none
  | delimiter, b :: _ => if isDelimiter b then some 1 else none
  | whitespace, b :: rest => if isSpace b then some (1 + (rest.takeWhile isSpace).length) else none
  | stray, b :: rest => some (Point.first b rest).bytes.length
  | _, _ => none

/-- The first rule that matches, with the length of its span. -/
def pick (t : Text) : Rule × Nat :=
  (order.findSome? fun rule => (rule.length? t).map fun n => (rule, n)).getD (stray, 1)

/-- The kind of token that a rule makes. -/
def kind? : Rule → Option Kind
  | keyword => some .keyword
  | identifier => some .identifier
  | integer => some .integer
  | assign => some .assign
  | operator => some .operator
  | delimiter => some .delimiter
  | comment | whitespace | stray => none

end Rule

/-- A piece of the source: the rule that took it, its text, where it begins and the byte in front
of it. -/
structure Span where
  rule : Rule
  text : Text
  pos : Position
  before : Option UInt8
  deriving DecidableEq, Repr

/-- The spans of a text that begins at `pos` after the byte `before`. -/
def spans (pos : Position) (before : Option UInt8) : Text → List Span
  | [] => []
  | b :: rest =>
    let found := Rule.pick (b :: rest)
    let text := b :: rest.take (found.2 - 1)
    ⟨found.1, text, pos, before⟩ ::
      spans (pos.advance text) text.getLast? (rest.drop (found.2 - 1))
termination_by t => t.length
decreasing_by simp only [List.length_drop, List.length_cons]; omega

/-- A character of no token class. -/
structure Stray where
  pos : Position
  text : Text
  deriving DecidableEq, Repr

namespace Stray

/-- What is wrong with it, without the position. -/
def message (s : Stray) : Text := bytes "unrecognized character " ++ s.text.quoted

/-- The log entry of a character that was skipped. -/
def skipText (s : Stray) : Text := s.pos.text ++ bytes ": skipped " ++ s.text.quoted

end Stray

namespace Span

/-- The token of a span. A reserved word behind a word byte is an identifier. -/
def token? (s : Span) : Option Token :=
  s.rule.kind?.map fun kind =>
    ⟨if kind = .keyword && s.before.any isWordByte then .identifier else kind, s.text, s.pos⟩

/-- The token of a span, its kind taken from the rule alone. -/
def plainToken? (s : Span) : Option Token := s.rule.kind?.map fun kind => ⟨kind, s.text, s.pos⟩

/-- The stray character of a span. -/
def stray? (s : Span) : Option Stray := if s.rule = .stray then some ⟨s.pos, s.text⟩ else none

end Span

namespace Source

/-- The spans of a source file. -/
def spans (file src : Text) : List Span := RatLang.spans (.start file) none src

/-- The tokens of a source, stray characters dropped. -/
def tokens (file src : Text) : List Token := (spans file src).filterMap Span.token?

/-- The tokens of a source with the kinds that the rules give. -/
def plainTokens (file src : Text) : List Token := (spans file src).filterMap Span.plainToken?

/-- The position behind the last byte of a source. -/
def finish (file src : Text) : Position :=
  match (spans file src).getLast? with
  | some last => last.pos.advance last.text
  | none => .start file

/-- The stray characters of a source. -/
def strays (file src : Text) : List Stray := (spans file src).filterMap Span.stray?

/-- The tokens of a source; strict scanning refuses stray characters. -/
def tokenize (strict : Bool) (file src : Text) : Except Stray (List Token) :=
  match if strict then (strays file src).head? else none with
  | some stray => .error stray
  | none => .ok (tokens file src)

/-- The stray characters that scanning drops: none in strict mode, which fails instead. -/
def skips (strict : Bool) (file src : Text) : List Stray := if strict then [] else strays file src

end Source

end RatLang
