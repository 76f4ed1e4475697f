import RatLang.Proofs.Grammar.Image
import RatLang.Proofs.Statement.Acceptance
import RatLang.Translate

/-!
# Where the parser and the grammar agree

The parser and the grammar's reader are two front ends on one scanner. They part in two places. A reserved word
glued to a byte of a word is an identifier to the parser and a reserved word to the grammar; and an integer with
a leading zero is decimal to the parser and octal to the grammar.

These are the only ones: on a source that either front end accepts, the two agree exactly when no reserved word is
glued and every integer is plain (`front_ends_agree_iff`).
-/
namespace RatLang

open RatLang.Derivation (Lexical Terminal Delimiter Operand Expression Names Statement Statements)

/-! ### Corresponding trees -/

/-- The same chain of operands, with the same names, values and operators. -/
def Expr.Corresponds : Expr → Grammar.Expression → Prop
  | .literal _ value, .leaf (.literal value') => value = value'
  | .identifier _ name, .leaf (.identifier name') => name = name'
  | .binary _ operator left right, .chain operand operator' rest =>
    operator = operator' ∧ left.Corresponds (.leaf operand) ∧ right.Corresponds rest
  | _, _ => False

mutual

/-- The same kind of statement with corresponding parts. -/
def Stmt.Corresponds : Stmt → Grammar.Statement → Prop
  | .declaration _ _ names, .declaration names' => names = names'
  | .assignment _ target value, .assignment target' value' => target = target' ∧ value.Corresponds value'
  | .output _ value, .output value' => value.Corresponds value'
  | .loop _ condition body, .loop condition' body' =>
    condition.Corresponds condition' ∧ Stmt.AllCorrespond body body'
  | _, _ => False

/-- Statement by statement. -/
def Stmt.AllCorrespond : List Stmt → List Grammar.Statement → Prop
  | [], [] => True
  | s :: stmts, s' :: stmts' => s.Corresponds s' ∧ Stmt.AllCorrespond stmts stmts'
  | _, _ => False

end

/-- The two front ends accept the same sources, with corresponding trees. -/
structure FrontEndsAgree (file src : Text) : Prop where
  accept : (Source.parse false file src).isOk = (Grammar.accept file src).isOk
  trees : ∀ {stmts program}, Source.parse false file src = .ok stmts → Grammar.accept file src = .ok program →
    Stmt.AllCorrespond stmts program

/-! ### Glued words -/

/-- A reserved word that follows a byte of a word. -/
def Span.Glued (s : Span) : Prop := s.rule = .keyword ∧ s.before.any isWordByte

theorem Span.token?_eq_plainToken? {s : Span} (h : ¬s.Glued) : s.token? = s.plainToken? := by
  unfold token? plainToken?
  cases hkind : s.rule.kind? with
  | none => rfl
  | some kind =>
    have hplain : ¬(kind = .keyword && s.before.any isWordByte) := by
      simp only [Bool.and_eq_true, decide_eq_true_eq]
      rintro ⟨rfl, hbefore⟩
      refine h ⟨?_, hbefore⟩
      cases hrule : s.rule <;> simp [hrule, Rule.kind?] at hkind ⊢
    rw [Option.map_some, Option.map_some, if_neg hplain]

theorem Source.tokens_eq_plainTokens {file src : Text} (h : ∀ s ∈ spans file src, ¬s.Glued) :
    tokens file src = plainTokens file src :=
  List.filterMap_congr fun s hs => Span.token?_eq_plainToken? (h s hs)

/-- The kind of a glued word depends on whom one asks. -/
theorem Span.Glued.tokens {s : Span} (h : s.Glued) :
    ∃ t t', s.token? = some t ∧ s.plainToken? = some t' ∧ t.kind ≠ t'.kind := by
  obtain ⟨hrule, hbefore⟩ := h
  refine ⟨_, _, by rw [token?, hrule]; rfl, by rw [plainToken?, hrule]; rfl, ?_⟩
  simp [hbefore]

/-- Tokens that are related pairwise are related span by span. -/
theorem related_of_forall₂ {R : Token → Token → Prop} {spans : List Span}
    (h : List.Forall₂ R (spans.filterMap Span.token?) (spans.filterMap Span.plainToken?)) :
    ∀ s ∈ spans, ∀ t t', s.token? = some t → s.plainToken? = some t' → R t t' := by
  induction spans with
  | nil => exact fun _ hs => absurd hs (List.not_mem_nil)
  | cons first rest ih =>
    cases hkind : first.rule.kind? with
    | none =>
      have htoken : first.token? = none := by rw [Span.token?, hkind, Option.map_none]
      have hplain : first.plainToken? = none := by rw [Span.plainToken?, hkind, Option.map_none]
      rw [List.filterMap_cons_none htoken, List.filterMap_cons_none hplain] at h
      intro s hs t t' ht ht'
      rcases List.mem_cons.1 hs with rfl | hs
      · rw [htoken] at ht
        cases ht
      · exact ih h s hs t t' ht ht'
    | some kind =>
      obtain ⟨u, hu⟩ : ∃ u, first.token? = some u := ⟨_, by rw [Span.token?, hkind, Option.map_some]⟩
      obtain ⟨u', hu'⟩ : ∃ u', first.plainToken? = some u' := ⟨_, by rw [Span.plainToken?, hkind, Option.map_some]⟩
      rw [List.filterMap_cons_some hu, List.filterMap_cons_some hu', List.forall₂_cons] at h
      intro s hs t t' ht ht'
      rcases List.mem_cons.1 hs with rfl | hs
      · rw [hu] at ht
        rw [hu'] at ht'
        cases ht
        cases ht'
        exact h.1
      · exact ih h.2 s hs t t' ht ht'

/-! ### From corresponding trees to tokens -/

/-- Two tokens that play the same part: they have one kind, and integers have one value in the two readings. -/
def Token.Alike (t t' : Token) : Prop :=
  t.kind = t'.kind ∧ (t'.kind = .integer → ∃ v, Numeral.Decimal t.lexeme v ∧ Numeral.Announced t'.lexeme v)

namespace Derivation

variable {kind : Kind} {lexeme : Text}

theorem Lexical.alike (t t' : Lexical kind) (h : kind ≠ .integer) : t.token.Alike t'.token :=
  ⟨t.kind_eq.trans t'.kind_eq.symm, fun hinteger => absurd (t'.kind_eq.symm.trans hinteger) h⟩

theorem Terminal.alike (t t' : Terminal kind lexeme) (h : kind ≠ .integer) : t.token.Alike t'.token :=
  ⟨t.kind_eq.trans t'.kind_eq.symm, fun hinteger => absurd (t'.kind_eq.symm.trans hinteger) h⟩

theorem Operand.alike {o : Operand Numeral.Decimal} {o' : Operand Numeral.Announced}
    (h : o.tree.Corresponds (.leaf o'.image)) : o.token.Alike o'.token := by
  cases o with
  | integer literal value read =>
    cases o' with
    | integer literal' value' read' =>
      obtain rfl : value = value' := h
      exact ⟨literal.kind_eq.trans literal'.kind_eq.symm, fun _ => ⟨value, read, read'⟩⟩
    | identifier => exact h.elim
  | identifier name =>
    cases o' with
    | integer => exact h.elim
    | identifier name' => exact name.alike name' (by decide)

theorem Expression.alike {d : Expression Numeral.Decimal} : ∀ {d' : Expression Numeral.Announced},
    d.tree.Corresponds d'.image → List.Forall₂ Token.Alike d.yield d'.yield := by
  induction d with
  | leaf o =>
    intro d' h
    cases d' with
    | leaf o' => exact .cons (Operand.alike h) .nil
    | chain o' op' rest' => cases o <;> exact h.elim
  | chain o op rest ih =>
    intro d' h
    cases d' with
    | leaf o' => cases o' <;> exact h.elim
    | chain o' op' rest' =>
      obtain ⟨-, ho, hrest⟩ := h
      exact .cons (Operand.alike ho) (.cons (op.alike op' (by decide)) (ih hrest))

theorem Names.alike {d : Names} : ∀ {d' : Names}, d.texts = d'.texts → List.Forall₂ Token.Alike d.yield d'.yield := by
  induction d with
  | last name =>
    intro d' h
    cases d' with
    | last name' => exact .cons (name.alike name' (by decide)) .nil
    | more name' comma' rest' => cases rest' <;> simp [texts] at h
  | more name comma rest ih =>
    intro d' h
    cases d' with
    | last name' => cases rest <;> simp [texts] at h
    | more name' comma' rest' =>
      simp only [texts, List.cons.injEq] at h
      exact .cons (name.alike name' (by decide)) (.cons (comma.alike comma' (by decide)) (ih h.2))

mutual

theorem Statement.alike : ∀ {d : Statement Numeral.Decimal} {d' : Statement Numeral.Announced},
    d.tree.Corresponds d'.image → List.Forall₂ Token.Alike d.yield d'.yield
  | .declaration keyword names semicolon, .declaration keyword' names' semicolon', h =>
    .cons (keyword.alike keyword' (by decide))
      (List.rel_append (Names.alike h) (.cons (semicolon.alike semicolon' (by decide)) .nil))
  | .assignment target sign value semicolon, .assignment target' sign' value' semicolon', h =>
    .cons (target.alike target' (by decide)) (.cons (sign.alike sign' (by decide))
      (List.rel_append (Expression.alike h.2) (.cons (semicolon.alike semicolon' (by decide)) .nil)))
  | .loop keyword left condition right opening body closing,
    .loop keyword' left' condition' right' opening' body' closing', h =>
    .cons (keyword.alike keyword' (by decide)) (.cons (left.alike left' (by decide))
      (List.rel_append (Expression.alike h.1) (.cons (right.alike right' (by decide))
        (.cons (opening.alike opening' (by decide))
          (List.rel_append (Statements.alike h.2) (.cons (closing.alike closing' (by decide)) .nil))))))
  | .output keyword left value right semicolon, .output keyword' left' value' right' semicolon', h =>
    .cons (keyword.alike keyword' (by decide)) (.cons (left.alike left' (by decide))
      (List.rel_append (Expression.alike h)
        (.cons (right.alike right' (by decide)) (.cons (semicolon.alike semicolon' (by decide)) .nil))))
  | .declaration .., .assignment .., h | .declaration .., .loop .., h | .declaration .., .output .., h
  | .assignment .., .declaration .., h | .assignment .., .loop .., h | .assignment .., .output .., h
  | .loop .., .declaration .., h | .loop .., .assignment .., h | .loop .., .output .., h
  | .output .., .declaration .., h | .output .., .assignment .., h | .output .., .loop .., h => h.elim

theorem Statements.alike : ∀ {d : Statements Numeral.Decimal} {d' : Statements Numeral.Announced},
    Stmt.AllCorrespond d.trees d'.images → List.Forall₂ Token.Alike d.yield d'.yield
  | .none, .none, _ => .nil
  | .none, .more .., h => h.elim
  | .more .., .none, h => h.elim
  | .more .., .more .., h => List.rel_append (Statement.alike h.1) (Statements.alike h.2)

end

/-! ### The two trees of one derivation -/

variable {reads : Numeral.Reading}

theorem Expression.corresponds (d : Expression reads) : d.tree.Corresponds d.image := by
  have hoperand : ∀ o : Operand reads, o.tree.Corresponds (.leaf o.image) := by
    intro o
    cases o with
    | integer => rfl
    | identifier => rfl
  induction d with
  | leaf o => exact hoperand o
  | chain o op rest ih => exact ⟨rfl, hoperand o, ih⟩

mutual

/-- The tree and the image of one derivation correspond. -/
theorem Statement.corresponds : ∀ d : Statement reads, d.tree.Corresponds d.image
  | .declaration .. => rfl
  | .assignment _ _ value _ => ⟨rfl, value.corresponds⟩
  | .loop _ _ condition _ _ body _ => ⟨condition.corresponds, body.corresponds⟩
  | .output _ _ value _ _ => value.corresponds

theorem Statements.corresponds : ∀ d : Statements reads, Stmt.AllCorrespond d.trees d.images
  | .none => trivial
  | .more first rest => ⟨first.corresponds, rest.corresponds⟩

end

end Derivation

/-! ### Agreement -/

theorem Source.parse_eq_ok_iff {file src : Text} {stmts : List Stmt} :
    Source.parse false file src = .ok stmts ↔
      ∃ d : Derivation.Program Numeral.Decimal, d.yield = tokens file src ∧ d.trees = stmts := by
  rw [← RatLang.parse_eq_ok_iff]
  simp only [Source.parse, tokenize, Bool.false_eq_true, if_false]
  cases RatLang.parse (tokens file src) <;> simp

/-- No reserved word is glued and every integer is plain. -/
def Source.Unmistakable (file src : Text) : Prop :=
  (∀ s ∈ spans file src, ¬s.Glued) ∧ ∀ t ∈ plainTokens file src, t.kind = .integer → Numeral.Plain t.lexeme

/-- Front ends that return corresponding trees had tokens that play the same parts. -/
theorem unmistakable_of_corresponds {file src : Text} {stmts : List Stmt} {program : List Grammar.Statement}
    (hparse : Source.parse false file src = .ok stmts) (haccept : Grammar.accept file src = .ok program)
    (h : Stmt.AllCorrespond stmts program) : Source.Unmistakable file src := by
  obtain ⟨d, hyield, rfl⟩ := Source.parse_eq_ok_iff.1 hparse
  obtain ⟨d', hyield', rfl⟩ := Grammar.accept_eq_ok_iff.1 haccept
  have halike := Derivation.Statements.alike h
  rw [hyield, hyield'] at halike
  have hspans := related_of_forall₂ halike
  have hglued : ∀ s ∈ Source.spans file src, ¬s.Glued := by
    intro s hs hglued
    obtain ⟨t, t', ht, ht', hne⟩ := hglued.tokens
    exact hne (hspans s hs t t' ht ht').1
  refine ⟨hglued, fun t ht hinteger => ?_⟩
  obtain ⟨hne, hdigits⟩ := Source.digits_of_mem_plainTokens ht hinteger
  obtain ⟨s, hs, hst⟩ := List.mem_filterMap.1 ht
  have hst' : s.token? = some t := (Span.token?_eq_plainToken? (hglued s hs)).trans hst
  exact (Numeral.exists_decimal_and_announced_iff hne hdigits).1 ((hspans s hs t t hst' hst).2 hinteger)

namespace Source.Unmistakable

variable {file src : Text} (h : Unmistakable file src)

include h

/-- Of an integer that is plain, both readings make the same. -/
theorem exists_value {t : Token} (ht : t ∈ plainTokens file src) (hinteger : t.kind = .integer) :
    ∃ v, Numeral.Decimal t.lexeme v ∧ Numeral.Announced t.lexeme v := by
  obtain ⟨hne, hdigits⟩ := digits_of_mem_plainTokens ht hinteger
  exact (Numeral.exists_decimal_and_announced_iff hne hdigits).2 (h.2 t ht hinteger)

theorem readable_decimal : ∀ t ∈ plainTokens file src, t.Readable Numeral.Decimal :=
  fun _ ht hinteger => (h.exists_value ht hinteger).imp fun _ => And.left

theorem readable_announced : ∀ t ∈ plainTokens file src, t.Readable Numeral.Announced :=
  fun _ ht hinteger => (h.exists_value ht hinteger).imp fun _ => And.right

theorem values_eq :
    Token.values Numeral.readDecimal (plainTokens file src) =
      Token.values Numeral.readInteger (plainTokens file src) := by
  refine List.filterMap_congr fun t ht => ?_
  by_cases hinteger : t.kind = .integer
  · obtain ⟨v, hdecimal, hannounced⟩ := h.exists_value ht hinteger
    rw [Token.value?, Token.value?, Numeral.decimal_by _ v hdecimal, Numeral.announced_by _ v hannounced]
  · rw [Token.value?, Token.value?, if_neg hinteger, if_neg hinteger]

end Source.Unmistakable

theorem agree_of_unmistakable {file src : Text} (h : Source.Unmistakable file src) : FrontEndsAgree file src := by
  have htokens : Source.tokens file src = Source.plainTokens file src := Source.tokens_eq_plainTokens h.1
  constructor
  · rw [Bool.eq_iff_iff, isOk_iff, isOk_iff]
    simp only [Source.parse_eq_ok_iff, Grammar.accept_eq_ok_iff, htokens]
    constructor
    · rintro ⟨_, d, hyield, -⟩
      obtain ⟨d', hyield', -⟩ :=
        d.exists_restated Numeral.decimal_by (Token.restates_self (hyield ▸ h.readable_announced))
      exact ⟨_, d', hyield'.trans hyield, rfl⟩
    · rintro ⟨_, d, hyield, -⟩
      obtain ⟨d', hyield', -⟩ :=
        d.exists_restated Numeral.announced_by (Token.restates_self (hyield ▸ h.readable_decimal))
      exact ⟨_, d', hyield'.trans hyield, rfl⟩
  · intro stmts program hparse haccept
    obtain ⟨d, hyield, rfl⟩ := Source.parse_eq_ok_iff.1 hparse
    obtain ⟨d', hyield', rfl⟩ := Grammar.accept_eq_ok_iff.1 haccept
    rw [htokens] at hyield
    -- there is only one derivation in decimal, so its tree has the images of both for an image
    obtain ⟨e, hyielde, hgives⟩ := d.exists_restated Numeral.decimal_by (Token.restates_self d.readable)
    obtain ⟨e', hyielde', hgives'⟩ :=
      d'.exists_restated Numeral.announced_by (Token.restates_self (hyield' ▸ h.readable_decimal))
    obtain rfl : e = d := Derivation.Statements.eq_of_yield hyielde
    obtain rfl : e' = e := Derivation.Statements.eq_of_yield (hyielde'.trans (hyield'.trans hyield.symm))
    have himages : d'.images = e'.images := by
      have hrun := hgives []
      rw [hyield, h.values_eq, ← hyield', hgives' []] at hrun
      exact congrArg Prod.fst (Option.some.inj hrun)
    rw [himages]
    exact e'.corresponds

/-- On a source that either front end accepts, the two agree exactly when no reserved word is glued to a byte of
a word and no leading zero changes an integer; what neither accepts they agree on. -/
theorem front_ends_agree_iff (file src : Text) :
    FrontEndsAgree file src ↔
      ((Source.parse false file src).isOk ∨ (Grammar.accept file src).isOk → Source.Unmistakable file src) := by
  constructor
  · intro hagree hsome
    have hboth : (Source.parse false file src).isOk ∧ (Grammar.accept file src).isOk := by
      rw [hagree.accept] at hsome ⊢
      exact ⟨hsome.elim id id, hsome.elim id id⟩
    obtain ⟨stmts, hparse⟩ := isOk_iff.1 hboth.1
    obtain ⟨program, haccept⟩ := isOk_iff.1 hboth.2
    exact unmistakable_of_corresponds hparse haccept (hagree.trees hparse haccept)
  · intro h
    by_cases hsome : (Source.parse false file src).isOk ∨ (Grammar.accept file src).isOk
    · exact agree_of_unmistakable (h hsome)
    · rw [not_or, Bool.not_eq_true, Bool.not_eq_true] at hsome
      refine ⟨hsome.1.trans hsome.2.symm, fun hparse _ => ?_⟩
      exact absurd (isOk_iff.2 ⟨_, hparse⟩) (by simp [hsome.1])

/-- A leading zero and a glued word, one source for each way to part. -/
theorem front_ends_disagree : ¬FrontEndsAgree [] (bytes "x = 08;") ∧ ¬FrontEndsAgree [] (bytes "1put(5);") := by
  constructor
  · exact fun h => absurd h.accept (by decide +kernel)
  · exact fun h => absurd h.accept (by decide +kernel)

end RatLang
