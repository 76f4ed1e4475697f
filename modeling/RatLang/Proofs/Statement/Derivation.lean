import RatLang.Proofs.Text.Numeral
import RatLang.Statement
import RatLang.Token

/-!
# Derivations

The grammar of the language as derivation trees over tokens:

    program     := statement*
    statement   := declaration | assignment | while | output
    declaration := "integer" identifier ("," identifier)* ";"
    assignment  := identifier "=" expression ";"
    while       := "while" "(" expression ")" "{" statement* "}"
    output      := "put" "(" expression ")" ";"
    expression  := (integer | identifier) (operator expression)?

A derivation keeps every token it is made of, in nodes that hold only tokens of the right kind and text; how the
text of an integer is read is left open. `yield` lists the tokens, and `tree` is the syntax tree that the
derivation stands for.
-/
namespace RatLang.Derivation

/-! ### Single tokens -/

/-- A token of one kind, whatever its text. -/
structure Lexical (kind : Kind) where
  token : Token
  kind_eq : token.kind = kind

/-- A token of one kind and one text. -/
structure Terminal (kind : Kind) (lexeme : Text) where
  token : Token
  kind_eq : token.kind = kind
  lexeme_eq : token.lexeme = lexeme

/-- A delimiter. -/
abbrev Delimiter (lexeme : String) := Terminal .delimiter (bytes lexeme)

@[ext] theorem Lexical.ext {kind : Kind} {s t : Lexical kind} (h : s.token = t.token) : s = t := by
  cases s
  cases t
  cases h
  rfl

@[ext] theorem Terminal.ext {kind : Kind} {lexeme : Text} {s t : Terminal kind lexeme}
    (h : s.token = t.token) : s = t := by
  cases s
  cases t
  cases h
  rfl

instance (kind : Kind) : Inhabited (Lexical kind) := ⟨⟨⟨kind, [], default⟩, rfl⟩⟩

instance (kind : Kind) (lexeme : Text) : Inhabited (Terminal kind lexeme) :=
  ⟨⟨⟨kind, lexeme, default⟩, rfl, rfl⟩⟩

/-! ### Expressions -/

/-- An integer that can be read, or an identifier. -/
inductive Operand (reads : Numeral.Reading) where
  | integer (literal : Lexical .integer) (value : Int64) (read : reads literal.token.lexeme value)
  | identifier (name : Lexical .identifier)

/-- An operand, alone or with an operator and the rest of the expression. -/
inductive Expression (reads : Numeral.Reading) where
  | leaf (operand : Operand reads)
  | chain (operand : Operand reads) (operator : Lexical .operator) (rest : Expression reads)

variable {reads : Numeral.Reading}

instance : Inhabited (Operand reads) := ⟨.identifier default⟩

instance : Inhabited (Expression reads) := ⟨.leaf default⟩

/-- The token of an operand. -/
def Operand.token : Operand reads → Token
  | integer literal .. => literal.token
  | identifier name => name.token

/-- The leaf of an operand. -/
def Operand.tree : Operand reads → Expr
  | integer literal value _ => .literal literal.token.pos value
  | identifier name => .identifier name.token.pos name.token.lexeme

/-- The tokens of an expression. -/
def Expression.yield : Expression reads → List Token
  | leaf operand => [operand.token]
  | chain operand operator rest => operand.token :: operator.token :: rest.yield

/-- The tree of an expression, nested to the right. -/
def Expression.tree : Expression reads → Expr
  | leaf operand => operand.tree
  | chain operand operator rest =>
    .binary operator.token.pos operator.token.lexeme operand.tree rest.tree

/-! ### Statements -/

/-- One or more identifiers with commas between them. -/
inductive Names where
  | last (name : Lexical .identifier)
  | more (name : Lexical .identifier) (comma : Delimiter ",") (rest : Names)

instance : Inhabited Names := ⟨.last default⟩

/-- The tokens of a list of names. -/
def Names.yield : Names → List Token
  | last name => [name.token]
  | more name comma rest => name.token :: comma.token :: rest.yield

/-- The names of a list of names. -/
def Names.texts : Names → List Text
  | last name => [name.token.lexeme]
  | more name _ rest => name.token.lexeme :: rest.texts

mutual

/-- A statement. -/
inductive Statement (reads : Numeral.Reading) where
  | declaration (keyword : Terminal .keyword (bytes "integer")) (names : Names)
      (semicolon : Delimiter ";")
  | assignment (target : Lexical .identifier) (sign : Terminal .assign (bytes "="))
      (value : Expression reads) (semicolon : Delimiter ";")
  | loop (keyword : Terminal .keyword (bytes "while")) (left : Delimiter "(")
      (condition : Expression reads) (right : Delimiter ")") (opening : Delimiter "\x7b")
      (body : Statements reads) (closing : Delimiter "\x7d")
  | output (keyword : Terminal .keyword (bytes "put")) (left : Delimiter "(") (value : Expression reads)
      (right : Delimiter ")") (semicolon : Delimiter ";")

/-- Any number of statements. -/
inductive Statements (reads : Numeral.Reading) where
  | none
  | more (first : Statement reads) (rest : Statements reads)

end

/-- A whole program. -/
abbrev Program (reads : Numeral.Reading) := Statements reads

instance : Inhabited (Statement reads) := ⟨.declaration default default default⟩

instance : Inhabited (Statements reads) := ⟨.none⟩

mutual

/-- The tokens of a statement. -/
def Statement.yield : Statement reads → List Token
  | .declaration keyword names semicolon => keyword.token :: (names.yield ++ [semicolon.token])
  | .assignment target sign value semicolon =>
    target.token :: sign.token :: (value.yield ++ [semicolon.token])
  | .loop keyword left condition right opening body closing =>
    keyword.token :: left.token ::
      (condition.yield ++ right.token :: opening.token :: (body.yield ++ [closing.token]))
  | .output keyword left value right semicolon =>
    keyword.token :: left.token :: (value.yield ++ [right.token, semicolon.token])

/-- The tokens of a list of statements. -/
def Statements.yield : Statements reads → List Token
  | .none => []
  | .more first rest => first.yield ++ rest.yield

end

mutual

/-- The tree of a statement. -/
def Statement.tree : Statement reads → Stmt
  | .declaration keyword names _ => .declaration keyword.token.pos keyword.token.lexeme names.texts
  | .assignment target _ value _ => .assignment target.token.pos target.token.lexeme value.tree
  | .loop keyword _ condition _ _ body _ => .loop keyword.token.pos condition.tree body.trees
  | .output keyword _ value _ _ => .output keyword.token.pos value.tree

/-- The trees of a list of statements. -/
def Statements.trees : Statements reads → List Stmt
  | .none => []
  | .more first rest => first.tree :: rest.trees

end

/-! ### What the tokens determine -/

theorem Operand.eq_of_token {a b : Operand Numeral.Decimal} (h : a.token = b.token) : a = b := by
  cases a with
  | integer s v hv =>
    cases b with
    | integer t w hw =>
      obtain rfl : s = t := Lexical.ext h
      obtain rfl := hv.unique hw
      rfl
    | identifier t =>
      have hkind := s.kind_eq
      rw [show s.token = t.token from h, t.kind_eq] at hkind
      cases hkind
  | identifier s =>
    cases b with
    | integer t w hw =>
      have hkind := s.kind_eq
      rw [show s.token = t.token from h, t.kind_eq] at hkind
      cases hkind
    | identifier t =>
      obtain rfl : s = t := Lexical.ext h
      rfl

/-- The length tells a leaf from a chain, so no lookahead is needed here. -/
theorem Expression.eq_of_yield {a : Expression Numeral.Decimal} : ∀ {b : Expression Numeral.Decimal},
    a.yield = b.yield → a = b := by
  induction a with
  | leaf s =>
    intro b h
    cases b with
    | leaf t =>
      obtain rfl := Operand.eq_of_token (List.cons.inj h).1
      rfl
    | chain => simp [yield] at h
  | chain s op rest ih =>
    intro b h
    cases b with
    | leaf => simp [yield] at h
    | chain t op' rest' =>
      simp only [yield, List.cons.injEq] at h
      obtain ⟨hoperand, hoperator, hrest⟩ := h
      obtain rfl := Operand.eq_of_token hoperand
      obtain rfl := Lexical.ext hoperator
      obtain rfl := ih hrest
      rfl

theorem Names.eq_of_yield {a : Names} : ∀ {b : Names}, a.yield = b.yield → a = b := by
  induction a with
  | last s =>
    intro b h
    cases b with
    | last t =>
      obtain rfl := Lexical.ext (List.cons.inj h).1
      rfl
    | more => simp [yield] at h
  | more s comma rest ih =>
    intro b h
    cases b with
    | last => simp [yield] at h
    | more t comma' rest' =>
      simp only [yield, List.cons.injEq] at h
      obtain ⟨hname, hcomma, hrest⟩ := h
      obtain rfl := Lexical.ext hname
      obtain rfl := Terminal.ext hcomma
      obtain rfl := ih hrest
      rfl

end RatLang.Derivation
