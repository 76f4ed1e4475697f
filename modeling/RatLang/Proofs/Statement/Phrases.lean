import RatLang.Proofs.Statement.Derivation

/-!
# The phrases of the grammar

A language says which tokens make a phrase and what the phrase means. The phrases of the grammar are the tokens
of its derivations; what they mean is left open, as long as the meaning of a statement is put together from
the meanings of its parts (`Meaning`).

A statement is determined by its first token and what stands behind that (`behind_iff`), a loop's body by
whether it ends at once (`bodyPhrases_iff`).
-/
namespace RatLang.Parse

open RatLang.Derivation (Lexical Terminal Delimiter Operand Expression Names Statement Statements)

/-! ### Languages -/

section Languages

variable {α β : Type}

/-- A language: which tokens make a phrase, and what the phrase means. -/
abbrev Phrases (α : Type) := List Token → α → Prop

/-- A phrase, and then another. -/
def Phrases.seq (l : Phrases α) (m : α → Phrases β) : Phrases β := fun ts b =>
  ∃ front back a, ts = front ++ back ∧ l front a ∧ m a back b

/-- The same phrases with another meaning. -/
def Phrases.map (f : α → β) (l : Phrases α) : Phrases β := fun ts b => ∃ a, l ts a ∧ f a = b

theorem Phrases.exists_map {f : α → β} {l : Phrases α} (h : ∃ ts a, l ts a) : ∃ ts b, l.map f ts b := by
  obtain ⟨ts, a, ha⟩ := h
  exact ⟨ts, f a, a, ha, rfl⟩

theorem Phrases.exists_seq {l : Phrases α} {m : α → Phrases β} (hl : ∃ ts a, l ts a)
    (hm : ∀ a, ∃ ts b, m a ts b) : ∃ ts b, l.seq m ts b := by
  obtain ⟨front, a, ha⟩ := hl
  obtain ⟨back, b, hb⟩ := hm a
  exact ⟨front ++ back, b, front, back, a, rfl, ha, hb⟩

theorem Phrases.map_map {γ : Type} (f : α → β) (g : β → γ) (l : Phrases α) :
    (l.map f).map g = l.map fun a => g (f a) := by
  funext ts c
  refine propext ⟨?_, ?_⟩
  · rintro ⟨_, ⟨a, ha, rfl⟩, rfl⟩
    exact ⟨a, ha, rfl⟩
  · rintro ⟨a, ha, rfl⟩
    exact ⟨_, ⟨a, ha, rfl⟩, rfl⟩

theorem Phrases.seq_map {γ : Type} (f : α → β) (l : Phrases α) (m : β → Phrases γ) :
    (l.map f).seq m = l.seq fun a => m (f a) := by
  funext ts c
  refine propext ⟨?_, ?_⟩
  · rintro ⟨front, back, _, hsplit, ⟨a, ha, rfl⟩, hm⟩
    exact ⟨front, back, a, hsplit, ha, hm⟩
  · rintro ⟨front, back, a, hsplit, ha, hm⟩
    exact ⟨front, back, _, hsplit, ⟨a, ha, rfl⟩, hm⟩

/-- Nothing is asked of what follows. -/
def anything (_ : Option Token) : Prop := True

/-- An expression goes on when an operator follows. -/
def noOperator (next : Option Token) : Prop := ∀ t ∈ next, t.kind ≠ .operator

/-- The phrases of one token of a kind and a text. -/
def terminal (kind : Kind) (lexeme : Text) : Phrases Token := fun ts t =>
  ∃ d : Terminal kind lexeme, [d.token] = ts ∧ d.token = t

theorem exists_terminal (kind : Kind) (lexeme : Text) : ∃ ts t, terminal kind lexeme ts t :=
  ⟨_, _, default, rfl, rfl⟩

/-- An expression may be followed by a delimiter. -/
theorem noOperator_terminal {lexeme : Text} {back rest : List Token} {t : Token}
    (h : terminal .delimiter lexeme back t) : noOperator (back ++ rest).head? := by
  obtain ⟨d, rfl, -⟩ := h
  intro t ht
  cases ht
  rw [d.kind_eq]
  exact Kind.noConfusion

/-- The phrases that are lists of names with a semicolon. -/
def namesPhrases : Phrases (List Text) := fun ts texts =>
  ∃ (d : Names) (semicolon : Delimiter ";"), d.yield ++ [semicolon.token] = ts ∧ d.texts = texts

end Languages

/-! ### Meanings -/

/-- A meaning of derivations in which the meaning of a statement is put together from those of its parts. -/
structure Meaning (reads : Numeral.Reading) (E S : Type) where
  expression : Expression reads → E
  statement : Statement reads → S
  statements : Statements reads → List S
  declaration : Token → List Text → S
  assignment : Token → E → S
  loop : Token → E → List S → S
  output : Token → E → S
  statement_declaration : ∀ {keyword names semicolon},
    statement (.declaration keyword names semicolon) = declaration keyword.token names.texts
  statement_assignment : ∀ {target sign value semicolon},
    statement (.assignment target sign value semicolon) = assignment target.token (expression value)
  statement_loop : ∀ {keyword left condition right opening body closing},
    statement (.loop keyword left condition right opening body closing) =
      loop keyword.token (expression condition) (statements body)
  statement_output : ∀ {keyword left value right semicolon},
    statement (.output keyword left value right semicolon) = output keyword.token (expression value)
  statements_none : statements .none = []
  statements_more : ∀ {first rest}, statements (.more first rest) = statement first :: statements rest

namespace Meaning

variable {reads : Numeral.Reading} {E S α : Type} (m : Meaning reads E S)

/-- The phrases that are expressions. -/
def expressionPhrases : Phrases E := fun ts e => ∃ d : Expression reads, d.yield = ts ∧ m.expression d = e

/-- An expression and a delimiter that closes it. -/
def closedPhrases (lexeme : String) (f : E → α) : Phrases α :=
  m.expressionPhrases.seq fun value => (terminal .delimiter (bytes lexeme)).map fun _ => f value

/-- An expression and two delimiters behind it. -/
def enclosedPhrases (right last : String) (f : E → α) : Phrases α :=
  m.expressionPhrases.seq fun value =>
    (terminal .delimiter (bytes right)).seq fun _ => (terminal .delimiter (bytes last)).map fun _ => f value

/-- The phrases that are statements. -/
def statementPhrases : Phrases S := fun ts s => ∃ d : Statement reads, d.yield = ts ∧ m.statement d = s

/-- The phrases that are statements with the brace that closes a loop. -/
def bodyPhrases : Phrases (List S) := fun ts stmts =>
  ∃ (d : Statements reads) (closing : Delimiter "\x7d"), d.yield ++ [closing.token] = ts ∧ m.statements d = stmts

/-- The phrases that make a statement behind its first token. -/
def behind (first : Token) : Phrases S := fun ts s => m.statementPhrases (first :: ts) s

/-! ### Every language has a phrase -/

theorem exists_expressionPhrases : ∃ ts e, m.expressionPhrases ts e := ⟨_, _, default, rfl, rfl⟩

theorem exists_closedPhrases (lexeme : String) (f : E → α) : ∃ ts a, m.closedPhrases lexeme f ts a :=
  Phrases.exists_seq m.exists_expressionPhrases fun _ => Phrases.exists_map (exists_terminal ..)

theorem exists_enclosedPhrases (right last : String) (f : E → α) : ∃ ts a, m.enclosedPhrases right last f ts a :=
  Phrases.exists_seq m.exists_expressionPhrases fun _ =>
    Phrases.exists_seq (exists_terminal ..) fun _ => Phrases.exists_map (exists_terminal ..)

theorem exists_statementPhrases : ∃ ts s, m.statementPhrases ts s := ⟨_, _, default, rfl, rfl⟩

theorem exists_bodyPhrases : ∃ ts stmts, m.bodyPhrases ts stmts := ⟨_, _, default, default, rfl, rfl⟩

/-! ### The parts of a phrase -/

variable {m}

theorem closedPhrases_iff {lexeme : String} {f : E → α} {ts : List Token} {a : α} :
    m.closedPhrases lexeme f ts a ↔
      ∃ (value : Expression reads) (last : Delimiter lexeme),
        value.yield ++ [last.token] = ts ∧ f (m.expression value) = a := by
  constructor
  · rintro ⟨_, _, _, rfl, ⟨value, rfl, rfl⟩, _, ⟨last, rfl, rfl⟩, rfl⟩
    exact ⟨value, last, rfl, rfl⟩
  · rintro ⟨value, last, rfl, rfl⟩
    exact ⟨_, _, _, rfl, ⟨value, rfl, rfl⟩, _, ⟨last, rfl, rfl⟩, rfl⟩

theorem enclosedPhrases_iff {right last : String} {f : E → α} {ts : List Token} {a : α} :
    m.enclosedPhrases right last f ts a ↔
      ∃ (value : Expression reads) (r : Delimiter right) (l : Delimiter last),
        value.yield ++ [r.token, l.token] = ts ∧ f (m.expression value) = a := by
  constructor
  · rintro ⟨_, _, _, rfl, ⟨value, rfl, rfl⟩, _, _, _, rfl, ⟨r, rfl, rfl⟩, _, ⟨l, rfl, rfl⟩, rfl⟩
    exact ⟨value, r, l, rfl, rfl⟩
  · rintro ⟨value, r, l, rfl, rfl⟩
    exact ⟨_, _, _, rfl, ⟨value, rfl, rfl⟩, _, _, _, rfl, ⟨r, rfl, rfl⟩, _, ⟨l, rfl, rfl⟩, rfl⟩

/-- What a statement is made of behind its first token, by that token. -/
theorem behind_iff {t : Token} {ts : List Token} {s : S} :
    m.behind t ts s ↔
      t.kind = .keyword ∧ t.lexeme = bytes "integer" ∧ namesPhrases.map (m.declaration t) ts s ∨
      t.kind = .identifier ∧
        ((terminal .assign (bytes "=")).seq fun _ => m.closedPhrases ";" (m.assignment t)) ts s ∨
      t.kind = .keyword ∧ t.lexeme = bytes "while" ∧
        (((terminal .delimiter (bytes "(")).seq fun _ => m.enclosedPhrases ")" "\x7b" id).seq fun value =>
          m.bodyPhrases.map (m.loop t value)) ts s ∨
      t.kind = .keyword ∧ t.lexeme = bytes "put" ∧
        ((terminal .delimiter (bytes "(")).seq fun _ => m.enclosedPhrases ")" ";" (m.output t)) ts s := by
  constructor
  · rintro ⟨d, hd, rfl⟩
    cases d with
    | declaration keyword names semicolon =>
      cases hd
      exact Or.inl ⟨keyword.kind_eq, keyword.lexeme_eq, _, ⟨names, semicolon, rfl, rfl⟩,
        m.statement_declaration.symm⟩
    | assignment target sign value semicolon =>
      cases hd
      exact Or.inr (Or.inl ⟨target.kind_eq, _, _, _, rfl, ⟨sign, rfl, rfl⟩,
        closedPhrases_iff.2 ⟨value, semicolon, rfl, m.statement_assignment.symm⟩⟩)
    | loop keyword left condition right opening body closing =>
      cases hd
      refine Or.inr (Or.inr (Or.inl ⟨keyword.kind_eq, keyword.lexeme_eq,
        left.token :: (condition.yield ++ [right.token, opening.token]), body.yield ++ [closing.token], _, ?_,
        ⟨_, _, _, rfl, ⟨left, rfl, rfl⟩, enclosedPhrases_iff.2 ⟨condition, right, opening, rfl, rfl⟩⟩,
        _, ⟨body, closing, rfl, rfl⟩, m.statement_loop.symm⟩))
      simp
    | output keyword left value right semicolon =>
      cases hd
      exact Or.inr (Or.inr (Or.inr ⟨keyword.kind_eq, keyword.lexeme_eq, _, _, _, rfl, ⟨left, rfl, rfl⟩,
        enclosedPhrases_iff.2 ⟨value, right, semicolon, rfl, m.statement_output.symm⟩⟩))
  · rintro (⟨hkind, hlexeme, _, ⟨names, semicolon, rfl, rfl⟩, rfl⟩ |
      ⟨hkind, _, _, _, rfl, ⟨sign, rfl, rfl⟩, hvalue⟩ |
      ⟨hkind, hlexeme, _, _, _, rfl, ⟨_, _, _, rfl, ⟨left, rfl, rfl⟩, hcondition⟩, _, ⟨body, closing, rfl, rfl⟩, rfl⟩ |
      ⟨hkind, hlexeme, _, _, _, rfl, ⟨left, rfl, rfl⟩, hvalue⟩)
    · exact ⟨.declaration ⟨t, hkind, hlexeme⟩ names semicolon, rfl, m.statement_declaration⟩
    · obtain ⟨value, semicolon, rfl, rfl⟩ := closedPhrases_iff.1 hvalue
      exact ⟨.assignment ⟨t, hkind⟩ sign value semicolon, rfl, m.statement_assignment⟩
    · obtain ⟨condition, right, opening, rfl, rfl⟩ := enclosedPhrases_iff.1 hcondition
      refine ⟨.loop ⟨t, hkind, hlexeme⟩ left condition right opening body closing, ?_, m.statement_loop⟩
      simp [Statement.yield]
    · obtain ⟨value, right, semicolon, rfl, rfl⟩ := enclosedPhrases_iff.1 hvalue
      exact ⟨.output ⟨t, hkind, hlexeme⟩ left value right semicolon, rfl, m.statement_output⟩

/-- The kind of a token that begins a statement. -/
theorem kind_of_behind {t : Token} {ts : List Token} {s : S} (h : m.behind t ts s) :
    t.kind = .keyword ∨ t.kind = .identifier := by
  rcases behind_iff.1 h with ⟨hkind, -⟩ | ⟨hkind, -⟩ | ⟨hkind, -⟩ | ⟨hkind, -⟩
  · exact Or.inl hkind
  · exact Or.inr hkind
  · exact Or.inl hkind
  · exact Or.inl hkind

theorem statementPhrases_cons {ts : List Token} {s : S} (h : m.statementPhrases ts s) :
    ∃ t rest, ts = t :: rest ∧ m.behind t rest s := by
  obtain ⟨d, rfl, rfl⟩ := h
  cases d with
  | declaration => exact ⟨_, _, rfl, _, rfl, rfl⟩
  | assignment => exact ⟨_, _, rfl, _, rfl, rfl⟩
  | loop => exact ⟨_, _, rfl, _, rfl, rfl⟩
  | output => exact ⟨_, _, rfl, _, rfl, rfl⟩

theorem bodyPhrases_iff {ts : List Token} {stmts : List S} :
    m.bodyPhrases ts stmts ↔
      (∃ closing : Delimiter "\x7d", [closing.token] = ts ∧ [] = stmts) ∨
        (m.statementPhrases.seq fun s => m.bodyPhrases.map (s :: ·)) ts stmts := by
  constructor
  · rintro ⟨d, closing, rfl, rfl⟩
    cases d with
    | none => exact Or.inl ⟨closing, rfl, m.statements_none.symm⟩
    | more first rest =>
      refine Or.inr ⟨first.yield, rest.yield ++ [closing.token], _, ?_, ⟨first, rfl, rfl⟩,
        _, ⟨rest, closing, rfl, rfl⟩, m.statements_more.symm⟩
      rw [Statements.yield, List.append_assoc]
  · rintro (⟨closing, rfl, rfl⟩ | ⟨_, _, _, rfl, ⟨first, rfl, rfl⟩, _, ⟨rest, closing, rfl, rfl⟩, rfl⟩)
    · exact ⟨.none, closing, rfl, m.statements_none⟩
    · refine ⟨.more first rest, closing, ?_, m.statements_more⟩
      rw [Statements.yield, List.append_assoc]

end Meaning

/-- The words that begin statements are three. -/
theorem keywords_ne : bytes "integer" ≠ bytes "while" ∧ bytes "integer" ≠ bytes "put" ∧
    bytes "while" ≠ bytes "integer" ∧ bytes "while" ≠ bytes "put" ∧ bytes "put" ≠ bytes "integer" ∧
    bytes "put" ≠ bytes "while" := by decide

end RatLang.Parse
