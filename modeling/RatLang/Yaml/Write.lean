import RatLang.Text.CodePoint
import RatLang.Yaml.Base64
import RatLang.Yaml.Value

/-!
# Writing scalars

A string is written plain if it reads back as itself, in quotes if it would read as something else or
not at all, and as a block of lines if it holds a line feed. Text that is not UTF-8 is written in
base 64 under a tag of its own.
-/
namespace RatLang.Yaml

/-! ### Analysis -/

/-- The ways to write a scalar. -/
inductive Style where
  | plain
  | singleQuoted
  | doubleQuoted
  | literal
  deriving DecidableEq, Repr

/-- The characters that are written as they are. -/
def isShown (code : Nat) : Bool :=
  code == 0x0a || (0x20 ≤ code && code ≤ 0x7e) || (0xa0 ≤ code && code ≤ 0xd7ff) ||
  (0xe000 ≤ code && code ≤ 0xfffd && code != 0xfeff)

/-- The space. -/
def isSpaceCode (code : Nat) : Bool := code == 0x20

/-- The characters that end a line. -/
def isBreakCode (code : Nat) : Bool :=
  code == 0x0a || code == 0x0d || code == 0x85 || code == 0x2028 || code == 0x2029

/-- The characters that separate words. -/
def isGapCode (code : Nat) : Bool := isSpaceCode code || code == 0x09 || isBreakCode code

/-- Whether two neighbours satisfy the tests. -/
def anyNeighbours (p q : Nat → Bool) (codes : List Nat) : Bool :=
  (codes.zip (codes.drop 1)).any fun (a, b) => p a && q b

/-- The characters that a plain scalar cannot begin with. -/
def isIndicator (code : Nat) : Bool :=
  "#,[]\x7b\x7d&*!|>'\"%@`".toList.any fun c => c.toNat == code

/-- Whether a text would not read back as a plain scalar because of a character with a meaning. -/
def hasIndicators (codes : List Nat) : Bool :=
  let ends (rest : List Nat) : Bool := rest.head?.all fun c => c == 0x20 || c == 0x09
  let start := match codes with
    | c :: rest => isIndicator c || ((c == 0x3f || c == 0x2d) && ends rest)
    | [] => false
  start || [0x2d, 0x2d, 0x2d].isPrefixOf codes || [0x2e, 0x2e, 0x2e].isPrefixOf codes ||
    codes.getLast? == some 0x3a || anyNeighbours (· == 0x3a) (fun c => c == 0x20 || c == 0x09) codes ||
    anyNeighbours isGapCode (· == 0x23) codes

/-- Whether the first or the last character satisfies the test. -/
def anyEnd (p : Nat → Bool) (codes : List Nat) : Bool :=
  codes.head?.any p || codes.getLast?.any p

/-- Whether no way to write a text but double quotes keeps it. -/
def needsEscapes (codes : List Nat) : Bool :=
  codes.any (fun c => c != 0x09 && !isShown c) || anyNeighbours isSpaceCode isBreakCode codes

/-- Whether a text can stand in a document without quotes. -/
def allowsPlain (codes : List Nat) : Bool :=
  !hasIndicators codes && !anyEnd isSpaceCode codes && !codes.any isBreakCode &&
  !codes.contains 0x09 && !needsEscapes codes

/-- Whether a text can stand in single quotes. -/
def allowsSingle (codes : List Nat) : Bool :=
  !anyNeighbours isBreakCode isSpaceCode codes && !codes.contains 0x09 && !needsEscapes codes

/-- Whether a text can stand in a block of lines. -/
def allowsLiteral (codes : List Nat) : Bool :=
  !codes.isEmpty && codes.getLast? != some 0x20 && !needsEscapes codes

/-- How a text is written that is a string or has a tag. -/
def Style.ofCodes (string : Bool) (codes : List Nat) : Style :=
  if codes.contains 0x0a then if allowsLiteral codes then .literal else .doubleQuoted
  else if !string then .doubleQuoted
  else if allowsPlain codes then .plain
  else if allowsSingle codes then .singleQuoted
  else .doubleQuoted

/-! ### Writing -/

/-- The letter that stands for a character after a backslash. -/
def escapeLetter? (code : Nat) : Option UInt8 :=
  [(0x00, 0x30), (0x07, 0x61), (0x08, 0x62), (0x09, 0x74), (0x0a, 0x6e), (0x0b, 0x76), (0x0c, 0x66),
    (0x0d, 0x72), (0x1b, 0x65), (0x22, 0x22), (0x5c, 0x5c), (0x85, 0x4e), (0xa0, 0x5f),
    (0x2028, 0x4c), (0x2029, 0x50)].lookup code

/-- A character behind a backslash. -/
def escapedChar (code : Nat) : Text :=
  0x5c :: match escapeLetter? code with
    | some letter => [letter]
    | none =>
      if code ≤ 0xff then 0x78 :: hexDigitsUpper 2 code
      else if code ≤ 0xffff then 0x75 :: hexDigitsUpper 4 code
      else 0x55 :: hexDigitsUpper 8 code

/-- A character inside double quotes. -/
def doubleQuotedChar (code : Nat) : Text :=
  if isShown code && !isBreakCode code && code != 0x22 && code != 0x5c then pointBytes code
  else escapedChar code

/-- The inside of double quotes. After a byte order mark at the beginning every character is
escaped. -/
def doubleQuotedText (codes : List Nat) : Text :=
  codes.flatMap (if codes.head? == some 0xfeff then escapedChar else doubleQuotedChar)

/-- The beginning of a line inside a scalar. -/
def newLine (indent : Nat) : Text := 0x0a :: List.replicate indent 0x20

/-- The inside of single quotes. A quote is doubled, and what follows a line break is indented. -/
def singleQuotedText (indent : Nat) (afterBreak : Bool) : List Nat → Text
  | [] => []
  | c :: rest =>
    if isBreakCode c then pointBytes c ++ singleQuotedText indent true rest
    else
      (if afterBreak then List.replicate indent 0x20 else []) ++
        (if c == 0x27 then [0x27, 0x27] else pointBytes c) ++ singleQuotedText indent false rest

/-- The lines of a block. The first one needs the end of the heading, the others are in the text. -/
def literalText (indent : Nat) (heading afterBreak : Bool) : List Nat → Text
  | [] => []
  | c :: rest =>
    if isBreakCode c then
      (if c == 0x0a then [0x0a] else pointBytes c) ++ literalText indent false true rest
    else
      (if heading then newLine indent else if afterBreak then List.replicate indent 0x20 else []) ++
        pointBytes c ++ literalText indent false false rest

/-- What follows the `|` of a block: the indentation if the text begins with white space, and how it
ends. -/
def literalIndicators (codes : List Nat) : Text :=
  let hint : Text := if codes.head?.any fun c => isSpaceCode c || isBreakCode c then [0x34] else []
  let ending : Text := match codes.reverse with
    | [] => [0x2d]
    | [c] => if isBreakCode c then [0x2b] else [0x2d]
    | c :: d :: _ => if !isBreakCode c then [0x2d] else if isBreakCode d then [0x2b] else []
  hint ++ ending

/-- A text in the given style; `indent` is the column of its lines. The end of the line is included. -/
def writeAs (indent : Nat) (codes : List Nat) : Style → Text
  | .plain => Text.line (codes.flatMap pointBytes)
  | .singleQuoted => Text.line ([0x27] ++ singleQuotedText indent false codes ++ [0x27])
  | .doubleQuoted => Text.line ([0x22] ++ doubleQuotedText codes ++ [0x22])
  | .literal =>
    let block := [0x7c] ++ literalIndicators codes ++ literalText indent true true codes
    if codes.getLast?.any isBreakCode then block else Text.line block

/-- A string as the value of a key, to the end of the line. -/
def writeString (indent : Nat) (t : Text) : Text :=
  let codes (t : Text) : List Nat := t.points.map fun p => p.code.getD 0
  if t.isUtf8 then
    let string := Value.ofPlain t == .string && !Value.isSexagesimal t && (Value.oldBool? t).isNone
    writeAs indent (codes t) (.ofCodes string (codes t))
  else
    let encoded := Base64.wrap 70 (Base64.encode t)
    bytes "!!binary " ++ writeAs indent (codes encoded) (.ofCodes true (codes encoded))

end RatLang.Yaml
