import RatLang.FileTree
import RatLang.Text.Numeral
import RatLang.Text.Quoted

/-!
# Errors in YAML texts

A text may break the rules of YAML, which ends the reading at once, or hold values of the wrong type
for the fields they are meant for, of which all are reported together.
-/
namespace RatLang.Yaml

/-- A rule of YAML that a text breaks. -/
inductive Problem where
  | leadingOctet
  | incompleteSequence
  | trailingOctet
  | sequenceLength
  | invalidCharacter
  | halfUnit
  | halfPair
  | loneLowUnit
  | loneHighUnit
  | controlCharacter
  | unexpectedCharacter
  | missingColon
  | entryNotAllowed
  | keyNotAllowed
  | valueNotAllowed
  | anchorName
  | tagName
  | tagEnd
  | tagBracket
  | tagMark
  | tagGap
  | octetDigits
  | octetLead
  | octetTail
  | zeroIndentation
  | blockHeading
  | tabInIndentation
  | tabInPlain
  | documentMark
  | unclosedQuote
  | unknownEscape
  | escapeDigits
  | escapeCode
  | unknownDirective
  | directiveName
  | directiveEnd
  | versionNumber
  | versionPoint
  | versionLength
  | depth
  | nodeContent
  | dashExpected
  | keyExpected
  | sequenceComma
  | mappingComma
  | documentStart
  | undefinedHandle
  | repeatedVersion
  | unknownVersion
  | repeatedHandle
  deriving DecidableEq, Repr

/-- The problem in words. -/
def Problem.text : Problem → Text
  | leadingOctet => bytes "invalid leading UTF-8 octet"
  | incompleteSequence => bytes "incomplete UTF-8 octet sequence"
  | trailingOctet => bytes "invalid trailing UTF-8 octet"
  | sequenceLength => bytes "invalid length of a UTF-8 sequence"
  | invalidCharacter => bytes "invalid Unicode character"
  | halfUnit => bytes "incomplete UTF-16 character"
  | halfPair => bytes "incomplete UTF-16 surrogate pair"
  | loneLowUnit => bytes "unexpected low surrogate area"
  | loneHighUnit => bytes "expected low surrogate area"
  | controlCharacter => bytes "control characters are not allowed"
  | unexpectedCharacter => bytes "found character that cannot start any token"
  | missingColon => bytes "could not find expected ':'"
  | entryNotAllowed => bytes "block sequence entries are not allowed in this context"
  | keyNotAllowed => bytes "mapping keys are not allowed in this context"
  | valueNotAllowed => bytes "mapping values are not allowed in this context"
  | anchorName => bytes "did not find expected alphabetic or numeric character"
  | tagName => bytes "did not find expected tag URI"
  | tagEnd => bytes "did not find expected whitespace or line break"
  | tagBracket => bytes "did not find the expected '>'"
  | tagMark => bytes "did not find expected '!'"
  | tagGap => bytes "did not find expected whitespace"
  | octetDigits => bytes "did not find URI escaped octet"
  | octetLead => bytes "found an incorrect leading UTF-8 octet"
  | octetTail => bytes "found an incorrect trailing UTF-8 octet"
  | zeroIndentation => bytes "found an indentation indicator equal to 0"
  | blockHeading => bytes "did not find expected comment or line break"
  | tabInIndentation => bytes "found a tab character where an indentation space is expected"
  | tabInPlain => bytes "found a tab character that violates indentation"
  | documentMark => bytes "found unexpected document indicator"
  | unclosedQuote => bytes "found unexpected end of stream"
  | unknownEscape => bytes "found unknown escape character"
  | escapeDigits => bytes "did not find expected hexdecimal number"
  | escapeCode => bytes "found invalid Unicode character escape code"
  | unknownDirective => bytes "found unknown directive name"
  | directiveName => bytes "could not find expected directive name"
  | directiveEnd => bytes "found unexpected non-alphabetical character"
  | versionNumber => bytes "did not find expected version number"
  | versionPoint => bytes "did not find expected digit or '.' character"
  | versionLength => bytes "found extremely long version number"
  | depth => bytes "exceeded max depth of 10000"
  | nodeContent => bytes "did not find expected node content"
  | dashExpected => bytes "did not find expected '-' indicator"
  | keyExpected => bytes "did not find expected key"
  | sequenceComma => bytes "did not find expected ',' or ']'"
  | mappingComma => bytes "did not find expected ',' or '\x7d'"
  | documentStart => bytes "did not find expected <document start>"
  | undefinedHandle => bytes "found undefined tag handle"
  | repeatedVersion => bytes "found duplicate %YAML directive"
  | unknownVersion => bytes "found incompatible YAML document"
  | repeatedHandle => bytes "found duplicate %TAG directive"

/-- A value that its field cannot take. -/
inductive FieldFault where
  /-- The value is of another type than the field. -/
  | wrongType (line : Nat) (tag value type : Text)
  /-- A mapping has two entries for one key. -/
  | repeatedKey (line : Nat) (key : Text) (first : Nat)
  /-- Two keys of a mapping, written differently, name one field. -/
  | repeatedField (line : Nat) (name type : Text)
  deriving DecidableEq, Repr

/-- A value in an error line: long ones are cut to their beginning. -/
def excerpt (value : Text) : Text :=
  if 10 < value.length then value.take 7 ++ bytes "..." else value

/-- A value behind its tag. The tags of collections stand for the value, so that nothing marks it
off there. -/
def taggedExcerpt (tag value : Text) : Text :=
  if tag == bytes "!!seq" || tag == bytes "!!map" then tag ++ value
  else tag ++ bytes " `" ++ excerpt value ++ bytes "`"

/-- The fault in words. -/
def FieldFault.text : FieldFault → Text
  | wrongType line tag value type =>
    bytes "line " ++ natDigits line ++ bytes ": cannot unmarshal " ++ taggedExcerpt tag value ++
      bytes " into " ++ type
  | repeatedKey line key first =>
    bytes "line " ++ natDigits line ++ bytes ": mapping key " ++ key.quoted ++
      bytes " already defined at line " ++ natDigits first
  | repeatedField line name type =>
    bytes "line " ++ natDigits line ++ bytes ": field " ++ name ++ bytes " already set in type " ++
      type

/-- Why a YAML text could not be used. -/
inductive Error where
  /-- The file could not be read. -/
  | unreadable (e : FileError)
  /-- The text holds no document. -/
  | noDocument
  /-- The text breaks a rule; line 0 stands for an unknown line. -/
  | syntaxError (line : Nat) (problem : Problem)
  /-- A node refers to another one by a name that is not known. -/
  | unknownAnchor (name : Text)
  /-- A node refers to itself. -/
  | cyclicAnchor (name : Text)
  /-- A scalar is not what its tag says. -/
  | mistagged (found value wanted : Text)
  /-- A scalar that is tagged so is not in base 64. -/
  | badBinary
  /-- A merge key has no mapping to take over. -/
  | badMerge
  /-- Nearly all of a document consists of nodes that other nodes refer to. -/
  | excessiveReferences
  /-- A collection is a key of a mapping with a merge key. -/
  | collectionKey (type : Text)
  /-- A collection is a key of a mapping that is a key itself. -/
  | nestedKey (key : Text)
  /-- Values do not fit their fields. -/
  | fields (faults : List FieldFault)
  deriving DecidableEq, Repr

/-- The error text. -/
def Error.text : Error → Text
  | unreadable e => bytes "yaml: input error: " ++ e.text
  | noDocument => bytes "EOF"
  | syntaxError line problem =>
    let place := if line == 0 then [] else bytes "line " ++ natDigits line ++ bytes ": "
    bytes "yaml: " ++ place ++ problem.text
  | unknownAnchor name => bytes "yaml: unknown anchor '" ++ name ++ bytes "' referenced"
  | cyclicAnchor name => bytes "yaml: anchor '" ++ name ++ bytes "' value contains itself"
  | mistagged found value wanted =>
    bytes "yaml: cannot decode " ++ found ++ bytes " `" ++ value ++ bytes "` as a " ++ wanted
  | badBinary => bytes "yaml: !!binary value contains invalid base64 data"
  | badMerge => bytes "yaml: map merge requires map or sequence of maps as the value"
  | excessiveReferences => bytes "yaml: document contains excessive aliasing"
  | collectionKey type => bytes "yaml: runtime error: hash of unhashable type " ++ type
  | nestedKey key => bytes "yaml: invalid map key: " ++ key
  | fields faults =>
    bytes "yaml: unmarshal errors:" ++ faults.flatMap fun f => bytes "\n  " ++ f.text

end RatLang.Yaml
