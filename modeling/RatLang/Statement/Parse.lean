import RatLang.Statement
import RatLang.Token.Scan

/-!
# Parsing

Recursive descent over a list of tokens with one token of lookahead. Every step hands on the tokens
it left, with the fact that they are fewer, and the recursion ends by that. A parse fails at the
first token that no program can have there; when the tokens run out, the failure is placed just past
the last one.
-/
namespace RatLang

/-- What the parser was looking for. -/
inductive Expectation where
  | statement
  | expression
  /-- An integer that fits a 64-bit word. -/
  | literal
  /-- A token of this kind, and of this text unless it is empty. -/
  | token (kind : Kind) (lexeme : Text)
  deriving DecidableEq, Repr

namespace Expectation

/-- The expectation in words. -/
def text : Expectation → Text
  | statement => bytes "statement"
  | expression => bytes "expression"
  | literal => bytes "integer literal within 64 bits"
  | token kind lexeme =>
    if lexeme.isEmpty then kind.name else kind.name ++ bytes " " ++ lexeme.quoted

end Expectation

/-- A failed parse: what was expected, the token in its place (none at the end) and where. -/
structure SyntaxError where
  expected : Expectation
  found : Option Token
  pos : Position
  deriving DecidableEq, Repr

namespace SyntaxError

/-- What is wrong, without the position. -/
def message (e : SyntaxError) : Text :=
  bytes "expected " ++ e.expected.text ++ bytes " but found " ++
    match e.found with
    | some t => t.lexeme.quoted
    | none => bytes "end of input"

end SyntaxError

/-- The result of a parsing step on `n` tokens: a value and fewer tokens. -/
structure Parsed (α : Type) (n : Nat) where
  value : α
  rest : List Token
  fewer : rest.length < n

namespace Parsed

/-- The same step with another value. -/
def map {α β : Type} {n : Nat} (f : α → β) (p : Parsed α n) : Parsed β n :=
  ⟨f p.value, p.rest, p.fewer⟩

/-- The same step seen from more tokens. -/
def within {α : Type} {n m : Nat} (p : Parsed α n) (h : n ≤ m) : Parsed α m :=
  ⟨p.value, p.rest, Nat.lt_of_lt_of_le p.fewer h⟩

end Parsed

namespace Parse

/-- The failure at the beginning of the given tokens, `eof` being the place behind the last token. -/
def failure (eof : Position) (expected : Expectation) : List Token → SyntaxError
  | [] => ⟨expected, none, eof⟩
  | t :: _ => ⟨expected, some t, t.pos⟩

/-- A token of a kind, and of a text unless that is empty. -/
def expect (eof : Position) (kind : Kind) (lexeme : Text) (ts : List Token) :
    Except SyntaxError (Parsed Token ts.length) :=
  match ts with
  | t :: rest =>
    if t.is kind lexeme then .ok ⟨t, rest, by simp⟩
    else .error (failure eof (.token kind lexeme) (t :: rest))
  | [] => .error (failure eof (.token kind lexeme) [])

/-- A delimiter. -/
def delimiter (eof : Position) (lexeme : String) (ts : List Token) :
    Except SyntaxError (Parsed Token ts.length) :=
  expect eof .delimiter (bytes lexeme) ts

/-- The leaf that a token spells, or what was expected instead. -/
def operand (t : Token) : Except Expectation Expr :=
  match t.kind with
  | .integer =>
    match Numeral.readDecimal t.lexeme with
    | .ok value => .ok (.literal t.pos value)
    | .error _ => .error .literal
  | .identifier => .ok (.identifier t.pos t.lexeme)
  | _ => .error .expression

/-- An operand and, if an operator follows, the rest of the expression as its right side. -/
def expression (eof : Position) (ts : List Token) : Except SyntaxError (Parsed Expr ts.length) :=
  match ts with
  | [] => .error (failure eof .expression [])
  | t :: rest =>
    match operand t with
    | .error expected => .error (failure eof expected (t :: rest))
    | .ok left =>
      match rest with
      | [] => .ok ⟨left, [], by simp⟩
      | op :: more =>
        if op.kind = .operator then
          match expression eof more with
          | .error e => .error e
          | .ok right =>
            .ok ((right.map fun e => .binary op.pos op.lexeme left e).within (by simp only [List.length_cons]; omega))
        else .ok ⟨left, op :: more, by simp⟩
termination_by structural ts

/-- One or more names with commas between them, up to the closing semicolon. -/
def names (eof : Position) (ts : List Token) : Except SyntaxError (Parsed (List Text) ts.length) :=
  match ts with
  | [] => .error (failure eof (.token .identifier []) [])
  | t :: rest =>
    if t.kind = .identifier then
      match rest with
      | [] => .error (failure eof (.token .delimiter (bytes ";")) [])
      | sep :: more =>
        if sep.is .delimiter (bytes ",") then
          match names eof more with
          | .error e => .error e
          | .ok others => .ok ((others.map (t.lexeme :: ·)).within (by simp only [List.length_cons]; omega))
        else if sep.is .delimiter (bytes ";") then .ok ⟨[t.lexeme], more, by simp only [List.length_cons]; omega⟩
        else .error (failure eof (.token .delimiter (bytes ";")) (sep :: more))
    else .error (failure eof (.token .identifier []) (t :: rest))
termination_by structural ts

/-- What follows `integer` in a declaration. -/
def declaration (eof : Position) (kw : Token) (ts : List Token) :
    Except SyntaxError (Parsed Stmt ts.length) := do
  let list ← names eof ts
  return list.map fun ns => .declaration kw.pos kw.lexeme ns

/-- What follows the target of an assignment. -/
def assignment (eof : Position) (target : Token) (ts : List Token) :
    Except SyntaxError (Parsed Stmt ts.length) := do
  let sign ← expect eof .assign (bytes "=") ts
  let value ← expression eof sign.rest
  let last ← delimiter eof ";" value.rest
  return ⟨.assignment target.pos target.lexeme value.value, last.rest, by
    have := sign.fewer; have := value.fewer; have := last.fewer; omega⟩

/-- What follows `put` in an output. -/
def output (eof : Position) (kw : Token) (ts : List Token) :
    Except SyntaxError (Parsed Stmt ts.length) := do
  let left ← delimiter eof "(" ts
  let value ← expression eof left.rest
  let right ← delimiter eof ")" value.rest
  let last ← delimiter eof ";" right.rest
  return ⟨.output kw.pos value.value, last.rest, by
    have := left.fewer; have := value.fewer; have := right.fewer; have := last.fewer; omega⟩

/-- What follows `while` up to the opening brace: the condition. -/
def condition (eof : Position) (ts : List Token) : Except SyntaxError (Parsed Expr ts.length) := do
  let left ← delimiter eof "(" ts
  let value ← expression eof left.rest
  let right ← delimiter eof ")" value.rest
  let brace ← delimiter eof "\x7b" right.rest
  return ⟨value.value, brace.rest, by
    have := left.fewer; have := value.fewer; have := right.fewer; have := brace.fewer; omega⟩

mutual

/-- One statement, told by its first token. -/
def statement (eof : Position) (ts : List Token) : Except SyntaxError (Parsed Stmt ts.length) :=
  match ts with
  | [] => .error (failure eof .statement [])
  | t :: rest =>
    if t.is .keyword (bytes "integer") then
      (declaration eof t rest).map (·.within (by simp))
    else if t.kind = .identifier then
      (assignment eof t rest).map (·.within (by simp))
    else if t.is .keyword (bytes "while") then
      match condition eof rest with
      | .error e => .error e
      | .ok cond =>
        match body eof cond.rest with
        | .error e => .error e
        | .ok stmts =>
          .ok ⟨.loop t.pos cond.value stmts.value, stmts.rest, by
            have := cond.fewer; have := stmts.fewer; simp; omega⟩
    else if t.is .keyword (bytes "put") then
      (output eof t rest).map (·.within (by simp))
    else .error (failure eof .statement (t :: rest))
termination_by 2 * ts.length
decreasing_by
  have := cond.fewer
  simp only [List.length_cons]
  omega

/-- The statements of a loop and the brace that closes it. -/
def body (eof : Position) (ts : List Token) : Except SyntaxError (Parsed (List Stmt) ts.length) :=
  match ts with
  | [] => .error (failure eof (.token .delimiter (bytes "\x7d")) [])
  | t :: rest =>
    if t.is .delimiter (bytes "\x7d") then .ok ⟨[], rest, by simp⟩
    else
      match statement eof (t :: rest) with
      | .error e => .error e
      | .ok first =>
        match body eof first.rest with
        | .error e => .error e
        | .ok others =>
          .ok ⟨first.value :: others.value, others.rest, by
            have := first.fewer; have := others.fewer; omega⟩
termination_by 2 * ts.length + 1
decreasing_by
  · omega
  · have := first.fewer
    omega

end

/-- Statements to the end of the tokens. -/
def statements (eof : Position) (ts : List Token) : Except SyntaxError (List Stmt) :=
  match ts with
  | [] => .ok []
  | t :: rest =>
    match statement eof (t :: rest) with
    | .error e => .error e
    | .ok first =>
      match statements eof first.rest with
      | .error e => .error e
      | .ok others => .ok (first.value :: others)
termination_by ts.length
decreasing_by exact first.fewer

/-- The place just past the last token, the first byte when there is none. -/
def endPosition (ts : List Token) : Position :=
  match ts.getLast? with
  | some t => t.stop
  | none => .start []

end Parse

/-- The statements that a list of tokens spells. -/
def parse (ts : List Token) : Except SyntaxError (List Stmt) :=
  Parse.statements (Parse.endPosition ts) ts

end RatLang
