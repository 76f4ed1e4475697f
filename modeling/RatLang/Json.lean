import RatLang.Text.CodePoint
import RatLang.Text.Numeral

/-!
# JSON text

JSON values and their text, either without any white space or indented by two spaces. Strings are
escaped so that the text can stand inside a web page: besides quote, backslash and control characters
the signs `<`, `>` and `&` and the two Unicode line separators are escaped. A byte that is not UTF-8
is written as the replacement character.
-/
namespace RatLang

/-- A JSON value; the fields of an object are written in their order. -/
inductive Json where
  | null
  | number (n : Int)
  | string (t : Text)
  | array (items : List Json)
  | object (fields : List (Text × Json))

namespace Json

/-- One character inside a JSON string. -/
def escapePoint (p : Point) : Text :=
  match p.code with
  | none => [0xef, 0xbf, 0xbd]
  | some code =>
    if code = 0x22 || code = 0x5c then 0x5c :: p.bytes
    else if code = 0x08 then bytes "\\b"
    else if code = 0x0c then bytes "\\f"
    else if code = 0x0a then bytes "\\n"
    else if code = 0x0d then bytes "\\r"
    else if code = 0x09 then bytes "\\t"
    else if code < 0x20 || code = 0x3c || code = 0x3e || code = 0x26 || code = 0x2028 ||
      code = 0x2029 then bytes "\\u" ++ hexDigits 4 code
    else p.bytes

/-- A text as a JSON string. -/
def quote (t : Text) : Text := [0x22] ++ t.points.flatMap escapePoint ++ [0x22]

mutual

/-- The text without white space. -/
def compact : Json → Text
  | null => bytes "null"
  | number n => decimal n
  | string t => quote t
  | array items => bytes "[" ++ compactItems items ++ bytes "]"
  | object fields => bytes "\x7b" ++ compactFields fields ++ bytes "\x7d"

/-- Items with commas between them. -/
def compactItems : List Json → Text
  | [] => []
  | [item] => item.compact
  | item :: items => item.compact ++ bytes "," ++ compactItems items

/-- Fields with commas between them. -/
def compactFields : List (Text × Json) → Text
  | [] => []
  | [(key, value)] => quote key ++ bytes ":" ++ value.compact
  | (key, value) :: fields => quote key ++ bytes ":" ++ value.compact ++ bytes "," ++ compactFields fields

end

/-- A new line at the given depth. -/
def newLine (depth : Nat) : Text := 0x0a :: List.replicate (2 * depth) 0x20

mutual

/-- The text with each item and field on a line of its own, nested parts indented by two spaces. -/
def indented (depth : Nat) : Json → Text
  | null => bytes "null"
  | number n => decimal n
  | string t => quote t
  | array [] => bytes "[]"
  | array (item :: items) =>
    bytes "[" ++ newLine (depth + 1) ++ item.indented (depth + 1) ++ indentedItems (depth + 1) items ++
      newLine depth ++ bytes "]"
  | object [] => bytes "\x7b\x7d"
  | object ((key, value) :: fields) =>
    bytes "\x7b" ++ newLine (depth + 1) ++ quote key ++ bytes ": " ++ value.indented (depth + 1) ++
      indentedFields (depth + 1) fields ++ newLine depth ++ bytes "\x7d"

/-- The items after the first. -/
def indentedItems (depth : Nat) : List Json → Text
  | [] => []
  | item :: items =>
    bytes "," ++ newLine depth ++ item.indented depth ++ indentedItems depth items

/-- The fields after the first. -/
def indentedFields (depth : Nat) : List (Text × Json) → Text
  | [] => []
  | (key, value) :: fields =>
    bytes "," ++ newLine depth ++ quote key ++ bytes ": " ++ value.indented depth ++
      indentedFields depth fields

end

end Json

end RatLang
