import RatLang.Text

/-!
# YAML tokens

The marks of structure and the scalars of a YAML text, each with the place it begins at. The scanner
inserts tokens for what indentation says: where block collections begin and end, and which scalars
turned out to be keys. Comments are no tokens, but each belongs to one.
-/
namespace RatLang.Yaml

/-- A place in a text. Lines and columns count from zero. -/
structure Mark where
  index : Nat := 0
  line : Nat := 0
  column : Nat := 0
  deriving DecidableEq, Repr, Inhabited

/-- What a token says. -/
inductive Content where
  | streamStart
  | streamEnd
  /-- The version of YAML that a document is written in. -/
  | version (major minor : Nat)
  /-- A handle and what tags that begin with it begin with in full. -/
  | handle (name stem : Text)
  | documentStart
  | documentEnd
  | sequenceStart
  | mappingStart
  | blockEnd
  | flowSequenceStart
  | flowSequenceEnd
  | flowMappingStart
  | flowMappingEnd
  | blockEntry
  | flowEntry
  | key
  | value
  | reference (name : Text)
  | anchor (name : Text)
  | tag (handle suffix : Text)
  | scalar (plain : Bool) (value : Text)
  deriving DecidableEq, Repr, Inhabited

/-- A token and the place it begins at. -/
structure Token where
  content : Content
  start : Mark
  deriving DecidableEq, Repr, Inhabited

/-- The line that a token begins on. -/
def Token.line (t : Token) : Nat := t.start.line

/-- Where a comment stands as seen from the token that it belongs to. -/
inductive CommentPlace where
  | before
  | beside
  | after
  deriving DecidableEq, Repr

/-- A comment. -/
structure Comment where
  place : CommentPlace
  /-- The index from which on a token may be the one it belongs to. -/
  owner : Nat
  start : Mark
  text : List Char
  deriving DecidableEq, Repr

end RatLang.Yaml
