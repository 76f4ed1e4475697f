import RatLang.Position
import RatLang.Text.Quoted

/-!
# Tokens

A token is a kind, the text it was read from and the position of its first byte. Token lists may come
from elsewhere than the scanner, so a kind can be any number; the six known ones have names.
-/
namespace RatLang

/-- The class of a token. -/
inductive Kind where
  | keyword
  | identifier
  | integer
  | assign
  | operator
  | delimiter
  /-- A number that names no class. -/
  | unknown (code : Int64)
  deriving DecidableEq, Repr

namespace Kind

/-- The kind with a given number. -/
def ofCode (code : Int64) : Kind :=
  if code = 0 then keyword
  else if code = 1 then identifier
  else if code = 2 then integer
  else if code = 3 then assign
  else if code = 4 then operator
  else if code = 5 then delimiter
  else unknown code

/-- The name that messages and listings use. -/
def name : Kind → Text
  | keyword => bytes "KEYWORD"
  | identifier => bytes "IDENTIFIER"
  | integer => bytes "INTEGER"
  | assign => bytes "ASSIGN"
  | operator => bytes "OPERATOR"
  | delimiter => bytes "DELIMITER"
  | unknown code => bytes "Kind(" ++ decimal code.toInt ++ bytes ")"

end Kind

/-- The reserved words. -/
def keywords : List Text :=
  ["if", "else", "while", "get", "put", "integer", "boolean", "real", "true", "false"].map bytes

/-- A token of the language. -/
structure Token where
  kind : Kind
  lexeme : Text
  pos : Position
  deriving DecidableEq, Repr

namespace Token

/-- Whether the token has this kind and this text; the empty text stands for any. -/
def is (t : Token) (kind : Kind) (lexeme : Text) : Bool :=
  t.kind = kind && (lexeme.isEmpty || t.lexeme = lexeme)

/-- The position just past the token. Tokens of the language are ASCII on one line, so offset and
column both grow by the number of bytes. -/
def stop (t : Token) : Position :=
  let size := Int64.ofNat t.lexeme.length
  { t.pos with offset := t.pos.offset + size, column := t.pos.column + size }

/-- The kind and the quoted text. -/
def text (t : Token) : Text := t.kind.name ++ bytes " " ++ t.lexeme.quoted

end Token

end RatLang
