import RatLang.Proofs.Program.Machine
import RatLang.Statement

/-!
# The meaning of programs

What statements mean, without a machine. A store gives every name a word, at first zero. Expressions
are evaluated as they are nested; a division without quotient has no value, and neither has an
expression around it. Declarations do nothing when a program runs. `Runs stmts s o s'` says that the
statements, begun in the store `s`, terminate with the output `o` in the store `s'`.
-/
namespace RatLang

/-- The words of all names. -/
abbrev Store := Text → Int64

/-- The store in which programs begin. -/
def Store.zero : Store := fun _ => 0

/-- The word that a source operator makes of its left and its right operand. -/
def operate? (operator : Text) (l r : Int64) : Option Int64 :=
  if operator = bytes "+" then some (l + r)
  else if operator = bytes "-" then some (l - r)
  else if operator = bytes "*" then some (l * r)
  else if operator = bytes "/" then Word.quotient? l r
  else if operator = bytes "<" then some (Word.ofBool (l < r))
  else if operator = bytes ">" then some (Word.ofBool (l > r))
  else if operator = bytes "<=" then some (Word.ofBool (l ≤ r))
  else if operator = bytes ">=" then some (Word.ofBool (l ≥ r))
  else if operator = bytes "!=" then some (Word.ofBool (l ≠ r))
  else none

/-- The value of an expression, if it has one. -/
def Expr.eval? (s : Store) : Expr → Option Int64
  | .literal _ value => some value
  | .identifier _ name => some (s name)
  | .binary _ operator left right =>
    match left.eval? s, right.eval? s with
    | some l, some r => operate? operator l r
    | _, _ => none

/-- Terminating runs, from a store to an output and a store. -/
inductive Runs : List Stmt → Store → List Int64 → Store → Prop
  | nil {s : Store} : Runs [] s [] s
  | declaration {pos dataType names rest s o s'} (hrest : Runs rest s o s') :
    Runs (.declaration pos dataType names :: rest) s o s'
  | assignment {pos target value rest s o s'} {v : Int64} (hv : Expr.eval? s value = some v)
    (hrest : Runs rest (Function.update s target v) o s') :
    Runs (.assignment pos target value :: rest) s o s'
  | output {pos value rest s o s'} {v : Int64} (hv : Expr.eval? s value = some v)
    (hrest : Runs rest s o s') : Runs (.output pos value :: rest) s (v :: o) s'
  /-- The condition is zero: the loop is left. -/
  | leave {pos condition body rest s o s'} (hv : Expr.eval? s condition = some 0)
    (hrest : Runs rest s o s') : Runs (.loop pos condition body :: rest) s o s'
  /-- The condition is not zero: the body runs, then the loop again. -/
  | again {pos condition body rest s o s' o' s''} {v : Int64} (hv : Expr.eval? s condition = some v)
    (hne : v ≠ 0) (hbody : Runs body s o s') (hrest : Runs (.loop pos condition body :: rest) s' o' s'') :
    Runs (.loop pos condition body :: rest) s (o ++ o') s''

/-- One row of the two tables of operators. -/
theorem operate?_row {c : Prop} [Decidable c] {op op' : Opcode} {rest : Option Opcode} {v others : Option Int64}
    {l r : Int64} (hv : v = op.combine? l r) (hrest : rest = some op' → others = op'.combine? l r)
    (h : (if c then some op else rest) = some op') : (if c then v else others) = op'.combine? l r := by
  by_cases hc : c
  · rw [if_pos hc] at h ⊢
    cases h
    exact hv
  · rw [if_neg hc] at h ⊢
    exact hrest h

/-- An operator and its operation agree. -/
theorem operate?_eq_combine? {operator : Text} {op : Opcode} (h : Opcode.ofOperator? operator = some op)
    (l r : Int64) : operate? operator l r = op.combine? l r := by
  unfold Opcode.ofOperator? at h
  unfold operate?
  revert h
  iterate 9 refine operate?_row rfl ?_
  intro h
  cases h

end RatLang
