import RatLang.Grammar
import RatLang.Statement.Parse

/-!
# Acceptance by the grammar

A reader that follows the productions with one token of lookahead and is independent of the
translator's parser. It works on the kinds that the scanner's rules give, and it reads an integer in
the base that its digits announce, as soon as it meets it.

Where a production breaks off, the reader names the part of it that is still missing. An operator or
a comma that nothing fitting follows is not taken, and inside a loop neither is a statement of which
only the first token fits; the complaint is then about that token.
-/
namespace RatLang.Grammar

/-- An operand: a number or a name. -/
inductive Operand where
  | literal (value : Int64)
  | identifier (name : Text)
  deriving DecidableEq, Repr

/-- An operand, alone or with an operator and the rest of the expression. -/
inductive Expression where
  | leaf (operand : Operand)
  | chain (operand : Operand) (operator : Text) (rest : Expression)
  deriving DecidableEq, Repr

/-- A statement. -/
inductive Statement where
  | declaration (names : List Text)
  | assignment (target : Text) (value : Expression)
  | output (value : Expression)
  | loop (condition : Expression) (body : List Statement)
  deriving Repr

/-- Why a source is refused. -/
inductive Rejection where
  /-- A token that does not fit, with the missing part of the production and the number of tokens
  from it on. -/
  | unexpected (found : Option Token) (pos : Position) (missing : List Term) (left : Nat)
  /-- An integer that cannot be read. -/
  | numeral (lexeme : Text) (cause : NumeralError)
  deriving DecidableEq, Repr

namespace Rejection

/-- Where; a numeral's place is not kept. -/
def pos : Rejection → Position
  | unexpected _ pos .. => pos
  | numeral .. => {}

/-- What is wrong, without the position. -/
def message : Rejection → Text
  | unexpected found _ missing _ =>
    bytes "unexpected token " ++ (found.elim (bytes "<EOF>") (·.lexeme)).quoted ++
      if missing.isEmpty then []
      else bytes " (expected " ++ Term.sequence missing ++ bytes ")"
  | numeral lexeme cause =>
    bytes "Operand.Literal: strconv.ParseInt: parsing " ++ lexeme.quoted ++
      match cause with
      | .malformed => bytes ": invalid syntax"
      | .outOfRange => bytes ": value out of range"

/-- The whole error line. -/
def text (r : Rejection) : Text := r.pos.label ++ r.message

end Rejection

/-- The rejection of the first of the given tokens, `eof` being the end of the source. -/
def unexpected (eof : Position) (missing : List Term) : List Token → Rejection
  | [] => .unexpected none eof missing 0
  | t :: rest => .unexpected (some t) t.pos missing (rest.length + 1)

/-- A fixed text, the first of the missing parts. -/
def word (eof : Position) (missing : List Term) (w : String) (ts : List Token) :
    Except Rejection (Parsed Unit ts.length) :=
  match ts with
  | t :: rest =>
    if t.lexeme = bytes w then .ok ⟨(), rest, Nat.lt_succ_self _⟩
    else .error (unexpected eof missing (t :: rest))
  | [] => .error (unexpected eof missing [])

/-- The operand that a token spells, if it spells one. -/
def operand? (t : Token) : Except Rejection (Option Operand) :=
  match t.kind with
  | .integer =>
    match Numeral.readInteger t.lexeme with
    | .ok value => .ok (some (.literal value))
    | .error cause => .error (.numeral t.lexeme cause)
  | .identifier => .ok (some (.identifier t.lexeme))
  | _ => .ok none

/-- The longest expression at the beginning of the tokens, if there is one. -/
def expression? (ts : List Token) : Except Rejection (Option (Parsed Expression ts.length)) :=
  match ts with
  | [] => .ok none
  | t :: rest =>
    match operand? t with
    | .error e => .error e
    | .ok none => .ok none
    | .ok (some left) =>
      match rest with
      | [] => .ok (some ⟨.leaf left, [], Nat.zero_lt_succ _⟩)
      | op :: more =>
        if op.kind = .operator then
          match expression? more with
          | .error e => .error e
          | .ok none => .ok (some ⟨.leaf left, op :: more, Nat.lt_succ_self _⟩)
          | .ok (some right) =>
            .ok (some ((right.map (.chain left op.lexeme)).within (Nat.le_add_right _ 2)))
        else .ok (some ⟨.leaf left, op :: more, Nat.lt_succ_self _⟩)
termination_by structural ts

/-- An expression, the first of the missing parts. -/
def expression (eof : Position) (missing : List Term) (ts : List Token) :
    Except Rejection (Parsed Expression ts.length) :=
  match expression? ts with
  | .error e => .error e
  | .ok none => .error (unexpected eof missing ts)
  | .ok (some e) => .ok e

/-- The names after a declaration's first, as far as commas and names alternate. -/
def moreNames : List Token → List Text × List Token
  | comma :: name :: rest =>
    if comma.lexeme = bytes "," && name.kind = .identifier then
      let (names, last) := moreNames rest
      (name.lexeme :: names, last)
    else ([], comma :: name :: rest)
  | ts => ([], ts)

theorem length_moreNames (ts : List Token) : (moreNames ts).2.length ≤ ts.length := by
  fun_induction moreNames ts with
  | case1 comma name rest _ names last h ih => simp [h] at ih ⊢; omega
  | case2 => simp
  | case3 => simp

/-- What follows the first word of a declaration. -/
def declarationTail (eof : Position) (ts : List Token) : Except Rejection (Parsed Statement ts.length) :=
  match ts with
  | [] => .error (unexpected eof (declaration.drop 1) [])
  | t :: rest =>
    if t.kind = .identifier then
      match word eof (declaration.drop 3) ";" (moreNames rest).2 with
      | .error e => .error e
      | .ok last =>
        .ok ⟨.declaration (t.lexeme :: (moreNames rest).1), last.rest, by
          have := last.fewer; have := length_moreNames rest; simp; omega⟩
    else .error (unexpected eof (declaration.drop 1) (t :: rest))

/-- What follows the target of an assignment. -/
def assignmentTail (eof : Position) (target : Text) (ts : List Token) :
    Except Rejection (Parsed Statement ts.length) := do
  let sign ← word eof (assignment.drop 1) "=" ts
  let value ← expression eof (assignment.drop 2) sign.rest
  let last ← word eof (assignment.drop 3) ";" value.rest
  return ⟨.assignment target value.value, last.rest, by
    have := sign.fewer; have := value.fewer; have := last.fewer; omega⟩

/-- What follows the first word of an output. -/
def outputTail (eof : Position) (ts : List Token) : Except Rejection (Parsed Statement ts.length) := do
  let left ← word eof (output.drop 1) "(" ts
  let value ← expression eof (output.drop 2) left.rest
  let right ← word eof (output.drop 3) ")" value.rest
  let last ← word eof (output.drop 4) ";" right.rest
  return ⟨.output value.value, last.rest, by
    have := left.fewer; have := value.fewer; have := right.fewer; have := last.fewer; omega⟩

/-- What follows the first word of a loop, up to the brace. -/
def condition (eof : Position) (ts : List Token) : Except Rejection (Parsed Expression ts.length) := do
  let left ← word eof (loop.drop 1) "(" ts
  let value ← expression eof (loop.drop 2) left.rest
  let right ← word eof (loop.drop 3) ")" value.rest
  let brace ← word eof (loop.drop 4) "\x7b" right.rest
  return ⟨value.value, brace.rest, by
    have := left.fewer; have := value.fewer; have := right.fewer; have := brace.fewer; omega⟩

/-- The complaint of a loop body about a statement that failed: the statement's own if
more than its first token fitted, and otherwise that the first token does not end the loop. -/
def bodyRejection (eof : Position) (ts : List Token) : Rejection → Rejection
  | .unexpected found pos missing left =>
    if left + 1 < ts.length then .unexpected found pos missing left
    else unexpected eof (loop.drop 6) ts
  | r => r

mutual

/-- The statement at the beginning of the tokens, if its first token begins one. -/
def statement? (eof : Position) (ts : List Token) :
    Except Rejection (Option (Parsed Statement ts.length)) :=
  match ts with
  | [] => .ok none
  | t :: rest =>
    if t.lexeme = bytes "integer" then
      (declarationTail eof rest).map fun s => some (s.within (by simp))
    else if t.lexeme = bytes "while" then
      match condition eof rest with
      | .error e => .error e
      | .ok cond =>
        match body eof cond.rest with
        | .error e => .error e
        | .ok stmts =>
          .ok (some ⟨.loop cond.value stmts.value, stmts.rest, by
            have := cond.fewer; have := stmts.fewer; simp; omega⟩)
    else if t.lexeme = bytes "put" then (outputTail eof rest).map fun s => some (s.within (by simp))
    else if t.kind = .identifier then
      (assignmentTail eof t.lexeme rest).map fun s => some (s.within (by simp))
    else .ok none
termination_by 2 * ts.length
decreasing_by
  have := cond.fewer
  simp only [List.length_cons]
  omega

/-- The statements of a loop and the brace that closes it. -/
def body (eof : Position) (ts : List Token) : Except Rejection (Parsed (List Statement) ts.length) :=
  match statement? eof ts with
  | .error e => .error (bodyRejection eof ts e)
  | .ok none => (word eof (loop.drop 6) "\x7d" ts).map fun p => p.map fun _ => []
  | .ok (some first) =>
    match body eof first.rest with
    | .error e => .error e
    | .ok others =>
      .ok ⟨first.value :: others.value, others.rest, by
        have := first.fewer; have := others.fewer; omega⟩
termination_by 2 * ts.length + 1
decreasing_by
  · omega
  · have := first.fewer
    omega

end

/-- Statements to the end of the tokens. -/
def statements (eof : Position) (ts : List Token) : Except Rejection (List Statement) :=
  match statement? eof ts with
  | .error e => .error e
  | .ok none =>
    match ts with
    | [] => .ok []
    | t :: rest => .error (unexpected eof [] (t :: rest))
  | .ok (some first) =>
    match statements eof first.rest with
    | .error e => .error e
    | .ok others => .ok (first.value :: others)
termination_by ts.length
decreasing_by exact first.fewer

/-- The program that a source spells according to the grammar. -/
def accept (file src : Text) : Except Rejection (List Statement) :=
  statements (Source.finish file src) (Source.plainTokens file src)

end RatLang.Grammar
