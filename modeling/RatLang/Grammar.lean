import RatLang.Token

/-!
# The grammar

The productions of the language as data. Their text is the documentation of the language, and the
tail of a production that was not matched tells what a refused program lacks.
-/
namespace RatLang

/-- A part of a production. -/
inductive Term where
  /-- A fixed text. -/
  | word (text : String)
  /-- A token of a class. -/
  | token (name : String)
  /-- Another production. -/
  | rule (name : String)
  /-- Another production, any number of times. -/
  | many (name : String)
  /-- A group of two parts, any number of times. -/
  | repeated (first second : Term)
  /-- A group of two parts that may be missing. -/
  | optional (first second : Term)
  deriving DecidableEq, Repr

namespace Term

/-- The part as it is written. -/
def text : Term → Text
  | word w => (bytes w).quoted
  | token name => bytes "<" ++ bytes name ++ bytes ">"
  | rule name => bytes name
  | many name => bytes name ++ bytes "*"
  | repeated first second => bytes "(" ++ first.text ++ bytes " " ++ second.text ++ bytes ")*"
  | optional first second => bytes "(" ++ first.text ++ bytes " " ++ second.text ++ bytes ")?"

/-- Parts in sequence. -/
def sequence (terms : List Term) : Text := Text.join (bytes " ") (terms.map text)

end Term

/-- A production: a name and its alternatives. -/
structure Production where
  name : String
  alternatives : List (List Term)

namespace Production

/-- The production as a line of the grammar. -/
def text (p : Production) : Text :=
  bytes p.name ++ bytes " = " ++ Text.join (bytes " | ") (p.alternatives.map Term.sequence) ++ bytes " ."

end Production

namespace Grammar

/-- `"integer" <identifier> ("," <identifier>)* ";"` -/
def declaration : List Term :=
  [.word "integer", .token "identifier", .repeated (.word ",") (.token "identifier"), .word ";"]

/-- `"while" "(" Expression ")" "{" Statement* "}"` -/
def loop : List Term :=
  [.word "while", .word "(", .rule "Expression", .word ")", .word "\x7b", .many "Statement",
    .word "\x7d"]

/-- `"put" "(" Expression ")" ";"` -/
def output : List Term := [.word "put", .word "(", .rule "Expression", .word ")", .word ";"]

/-- `<identifier> "=" Expression ";"` -/
def assignment : List Term := [.token "identifier", .word "=", .rule "Expression", .word ";"]

/-- All productions, the first being the start. -/
def productions : List Production :=
  [⟨"Program", [[.many "Statement"]]⟩,
    ⟨"Statement", [[.rule "Declaration"], [.rule "While"], [.rule "Output"], [.rule "Assignment"]]⟩,
    ⟨"Declaration", [declaration]⟩,
    ⟨"While", [loop]⟩,
    ⟨"Expression", [[.rule "Operand", .optional (.token "operator") (.rule "Expression")]]⟩,
    ⟨"Operand", [[.token "integer"], [.token "identifier"]]⟩,
    ⟨"Output", [output]⟩,
    ⟨"Assignment", [assignment]⟩]

/-- The grammar, one production a line. -/
def text : Text := Text.join [0x0a] (productions.map Production.text)

/-- The reserved words between single quotes, with bars between them. -/
def keywordText : Text :=
  Text.join (bytes " | ") (keywords.map fun k => bytes "'" ++ k ++ bytes "'")

end Grammar

end RatLang
