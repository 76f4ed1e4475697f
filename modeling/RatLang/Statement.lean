import RatLang.Position

/-!
# Statements

The syntax trees of the language. Every node carries the position of its first token, a binary
expression that of its operator. There is no precedence: an operator's right operand is the whole
rest of the expression.
-/
namespace RatLang

/-- An expression. Operators are texts, known or not. -/
inductive Expr where
  | literal (pos : Position) (value : Int64)
  | identifier (pos : Position) (name : Text)
  | binary (pos : Position) (operator : Text) (left right : Expr)
  deriving DecidableEq, Repr, Inhabited

/-- A statement. -/
inductive Stmt where
  | declaration (pos : Position) (dataType : Text) (names : List Text)
  | assignment (pos : Position) (target : Text) (value : Expr)
  | output (pos : Position) (value : Expr)
  | loop (pos : Position) (condition : Expr) (body : List Stmt)
  deriving Repr, Inhabited

end RatLang
