import RatLang.Proofs.Outcome
import RatLang.Statement.Parse

/-!
# Operands and the values they need

Evaluating an expression keeps the left value while the right operand is evaluated, so the number of
values held at once (`Expr.need`) depends on how the expression nests. The parser nests to the right only:
what it returns are chains of operands (`parse_chain`), and a chain needs one value per operand
(`Expr.Chain.need_eq_operands`).
-/
namespace RatLang

namespace Expr

/-- The number of values held at once while an expression is evaluated. -/
def need : Expr → Nat
  | .literal .. | .identifier .. => 1
  | .binary _ _ left right => max left.need (1 + right.need)

/-- The number of literals and names in an expression. -/
def operands : Expr → Nat
  | .literal .. | .identifier .. => 1
  | .binary _ _ left right => left.operands + right.operands

/-- A literal or a name. -/
def IsLeaf : Expr → Prop
  | .binary .. => False
  | _ => True

/-- Every left operand is a leaf. -/
def Chain : Expr → Prop
  | .binary _ _ left right => left.IsLeaf ∧ right.Chain
  | _ => True

theorem one_le_need (e : Expr) : 1 ≤ e.need := by
  cases e with
  | literal => exact Nat.le_refl 1
  | identifier => exact Nat.le_refl 1
  | binary pos operator left right =>
    rw [need]
    omega

theorem IsLeaf.chain {e : Expr} (h : e.IsLeaf) : e.Chain := by
  cases e with
  | literal => trivial
  | identifier => trivial
  | binary => exact h.elim

theorem Chain.need_eq_operands {e : Expr} (h : e.Chain) : e.need = e.operands := by
  induction e with
  | literal => rfl
  | identifier => rfl
  | binary pos operator left right _ ihr =>
    have hright := ihr h.2
    have hone := right.one_le_need
    have hleft : left.need = 1 ∧ left.operands = 1 := by
      cases left with
      | literal => exact ⟨rfl, rfl⟩
      | identifier => exact ⟨rfl, rfl⟩
      | binary => exact h.1.elim
    rw [need, operands]
    omega

end Expr

mutual

/-- The values that a statement assigns, prints or tests, those of a loop's body included. -/
def Stmt.values : Stmt → List Expr
  | .declaration .. => []
  | .assignment _ _ value => [value]
  | .output _ value => [value]
  | .loop _ condition body => condition :: Stmt.valuesList body

/-- The values of a list of statements. -/
def Stmt.valuesList : List Stmt → List Expr
  | [] => []
  | s :: rest => s.values ++ Stmt.valuesList rest

end

namespace Parse

theorem operand_isLeaf {t : Token} {e : Expr} (h : operand t = .ok e) : e.IsLeaf := by
  unfold operand at h
  split at h
  · split at h
    · cases h
      trivial
    · cases h
  · cases h
    trivial
  · cases h

theorem expression_chain {eof : Position} {ts : List Token} {r : Parsed Expr ts.length}
    (h : expression eof ts = .ok r) : r.value.Chain := by
  fun_induction expression eof ts with
  | case1 => cases h
  | case2 => cases h
  | case3 t left hleft =>
    cases h
    exact (operand_isLeaf hleft).chain
  | case4 => cases h
  | case5 t left hleft op more hop right hright ih =>
    cases h
    exact ⟨operand_isLeaf hleft, ih hright⟩
  | case6 t left hleft op more hop =>
    cases h
    exact (operand_isLeaf hleft).chain

theorem declaration_chain {eof : Position} {kw : Token} {ts : List Token} {r : Parsed Stmt ts.length}
    (h : declaration eof kw ts = .ok r) : ∀ e ∈ r.value.values, e.Chain := by
  obtain ⟨list, -, h⟩ := exists_of_bind_eq_ok h
  cases h
  simp [Parsed.map, Stmt.values]

theorem assignment_chain {eof : Position} {target : Token} {ts : List Token} {r : Parsed Stmt ts.length}
    (h : assignment eof target ts = .ok r) : ∀ e ∈ r.value.values, e.Chain := by
  obtain ⟨sign, -, h⟩ := exists_of_bind_eq_ok h
  obtain ⟨value, hvalue, h⟩ := exists_of_bind_eq_ok h
  obtain ⟨last, -, h⟩ := exists_of_bind_eq_ok h
  cases h
  simpa [Stmt.values] using expression_chain hvalue

theorem output_chain {eof : Position} {kw : Token} {ts : List Token} {r : Parsed Stmt ts.length}
    (h : output eof kw ts = .ok r) : ∀ e ∈ r.value.values, e.Chain := by
  obtain ⟨left, -, h⟩ := exists_of_bind_eq_ok h
  obtain ⟨value, hvalue, h⟩ := exists_of_bind_eq_ok h
  obtain ⟨right, -, h⟩ := exists_of_bind_eq_ok h
  obtain ⟨last, -, h⟩ := exists_of_bind_eq_ok h
  cases h
  simpa [Stmt.values] using expression_chain hvalue

theorem condition_chain {eof : Position} {ts : List Token} {r : Parsed Expr ts.length}
    (h : condition eof ts = .ok r) : r.value.Chain := by
  obtain ⟨left, -, h⟩ := exists_of_bind_eq_ok h
  obtain ⟨value, hvalue, h⟩ := exists_of_bind_eq_ok h
  obtain ⟨right, -, h⟩ := exists_of_bind_eq_ok h
  obtain ⟨brace, -, h⟩ := exists_of_bind_eq_ok h
  cases h
  have hchain := expression_chain hvalue
  exact hchain

/-- What a statement was parsed as: by its first token, one of the four kinds. -/
theorem statement_cases {eof : Position} {t : Token} {rest : List Token} {r : Parsed Stmt (t :: rest).length}
    (h : statement eof (t :: rest) = .ok r) :
    (∃ r', (declaration eof t rest = .ok r' ∨ assignment eof t rest = .ok r' ∨ output eof t rest = .ok r') ∧
      r.value = r'.value ∧ r.rest = r'.rest) ∨
    ∃ cond stmts, condition eof rest = .ok cond ∧ body eof cond.rest = .ok stmts ∧
      r.value = .loop t.pos cond.value stmts.value ∧ r.rest = stmts.rest := by
  rw [statement] at h
  split at h
  · obtain ⟨r', hr', rfl⟩ := exists_of_map_eq_ok h
    exact Or.inl ⟨r', Or.inl hr', rfl, rfl⟩
  split at h
  · obtain ⟨r', hr', rfl⟩ := exists_of_map_eq_ok h
    exact Or.inl ⟨r', Or.inr (Or.inl hr'), rfl, rfl⟩
  split at h
  · split at h
    · cases h
    · rename_i cond hcond
      split at h
      · cases h
      · rename_i stmts hstmts
        cases h
        exact Or.inr ⟨cond, stmts, hcond, hstmts, rfl, rfl⟩
  split at h
  · obtain ⟨r', hr', rfl⟩ := exists_of_map_eq_ok h
    exact Or.inl ⟨r', Or.inr (Or.inr hr'), rfl, rfl⟩
  · cases h

/-- A body ends at once or begins with a statement. -/
theorem body_cases {eof : Position} {ts : List Token} {r : Parsed (List Stmt) ts.length}
    (h : body eof ts = .ok r) :
    r.value = [] ∨ ∃ first others, statement eof ts = .ok first ∧ body eof first.rest = .ok others ∧
      r.value = first.value :: others.value := by
  cases ts with
  | nil =>
    rw [body] at h
    cases h
  | cons t rest =>
    rw [body] at h
    split at h
    · cases h
      exact Or.inl rfl
    · split at h
      · cases h
      · rename_i first hfirst
        split at h
        · cases h
        · rename_i others hothers
          cases h
          exact Or.inr ⟨first, others, hfirst, hothers, rfl⟩

/-- Statements and loop bodies, by induction on the number of tokens: a loop's body is parsed from fewer,
and a body parses its first statement from the same. -/
theorem statement_body_chain (eof : Position) : ∀ (n : Nat) (ts : List Token), ts.length ≤ n →
    (∀ r, statement eof ts = .ok r → ∀ e ∈ r.value.values, e.Chain) ∧
      ∀ r, body eof ts = .ok r → ∀ e ∈ Stmt.valuesList r.value, e.Chain := by
  intro n
  induction n with
  | zero =>
    intro ts hts
    cases List.length_eq_zero_iff.1 (Nat.le_zero.1 hts)
    refine ⟨fun r h => ?_, fun r h => ?_⟩
    · rw [statement] at h
      cases h
    · rw [body] at h
      cases h
  | succ n ih =>
    intro ts hts
    have hstatement : ∀ r, statement eof ts = .ok r → ∀ e ∈ r.value.values, e.Chain := by
      intro r h
      cases ts with
      | nil =>
        rw [statement] at h
        cases h
      | cons t rest =>
        rcases statement_cases h with ⟨r', hr', hvalue, -⟩ | ⟨cond, stmts, hcond, hstmts, hvalue, -⟩
        · rw [hvalue]
          rcases hr' with hr' | hr' | hr'
          · exact declaration_chain hr'
          · exact assignment_chain hr'
          · exact output_chain hr'
        · have hfewer : cond.rest.length ≤ n := by
            have := cond.fewer
            simp only [List.length_cons] at hts
            omega
          rw [hvalue]
          intro e he
          rcases List.mem_cons.1 he with rfl | he
          · exact condition_chain hcond
          · exact (ih _ hfewer).2 stmts hstmts e he
    refine ⟨hstatement, fun r h => ?_⟩
    rcases body_cases h with hvalue | ⟨first, others, hfirst, hothers, hvalue⟩
    · rw [hvalue]
      simp [Stmt.valuesList]
    · have hfewer : first.rest.length ≤ n := by
        have := first.fewer
        omega
      rw [hvalue]
      intro e he
      rcases List.mem_append.1 he with he | he
      · exact hstatement first hfirst e he
      · exact (ih _ hfewer).2 others hothers e he

theorem statements_chain {eof : Position} {ts : List Token} {stmts : List Stmt}
    (h : statements eof ts = .ok stmts) : ∀ e ∈ Stmt.valuesList stmts, e.Chain := by
  fun_induction statements eof ts generalizing stmts with
  | case1 =>
    cases h
    simp [Stmt.valuesList]
  | case2 => cases h
  | case3 => cases h
  | case4 t rest first hfirst others hothers ih =>
    cases h
    intro e he
    rcases List.mem_append.1 he with he | he
    · exact (statement_body_chain eof _ _ (Nat.le_refl _)).1 first hfirst e he
    · exact ih hothers e he

end Parse

theorem parse_chain {tokens : List Token} {stmts : List Stmt} (h : parse tokens = .ok stmts) :
    ∀ e ∈ Stmt.valuesList stmts, e.Chain :=
  Parse.statements_chain h

end RatLang
