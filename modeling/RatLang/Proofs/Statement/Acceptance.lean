import RatLang.Proofs.Statement.Recognition

/-!
# What the parser accepts, and where it fails

The parser accepts a list of tokens exactly when the grammar derives it, and returns the tree of the
derivation, of which there is at most one (`parse_accepts_exactly_grammar`). When it fails, the tokens in front
of the failure begin a program and no program has the token at the failure there
(`parse_fails_at_earliest_token`).
-/
namespace RatLang

open RatLang.Derivation (Lexical Terminal Delimiter Operand Expression Names Statement Statements)

/-! ### Unambiguity -/

namespace Derivation

/-- The kind of a statement's first token, with its text where that is fixed. -/
def Statement.opening : Statement Numeral.Decimal → Kind × Option Text
  | .declaration .. => (.keyword, some (bytes "integer"))
  | .assignment .. => (.identifier, none)
  | .loop .. => (.keyword, some (bytes "while"))
  | .output .. => (.keyword, some (bytes "put"))

/-- The first token tells what a statement is. -/
theorem Statement.exists_opening (d : Statement Numeral.Decimal) : ∃ t rest, d.yield = t :: rest ∧
    d.opening = (t.kind, if t.kind = .identifier then none else some t.lexeme) := by
  cases d with
  | declaration keyword => exact ⟨_, _, rfl, by simp [opening, keyword.kind_eq, keyword.lexeme_eq]⟩
  | assignment target => exact ⟨_, _, rfl, by simp [opening, target.kind_eq]⟩
  | loop keyword => exact ⟨_, _, rfl, by simp [opening, keyword.kind_eq, keyword.lexeme_eq]⟩
  | output keyword => exact ⟨_, _, rfl, by simp [opening, keyword.kind_eq, keyword.lexeme_eq]⟩

theorem Statement.opening_eq_of_yield {a b : Statement Numeral.Decimal} (h : a.yield = b.yield) :
    a.opening = b.opening := by
  obtain ⟨t, rest, hyield, hopening⟩ := a.exists_opening
  obtain ⟨t', rest', hyield', hopening'⟩ := b.exists_opening
  rw [hyield, hyield', List.cons.injEq] at h
  rw [hopening, hopening', h.1]

theorem Statement.yield_ne_nil (d : Statement Numeral.Decimal) : d.yield ≠ [] := by
  obtain ⟨t, rest, hyield, -⟩ := d.exists_opening
  simp [hyield]

/-- A condition ends where its closing parenthesis stands. -/
theorem Expression.eq_of_yield_append {a b : Expression Numeral.Decimal} {right right' : Delimiter ")"}
    {rest rest' : List Token} (h : a.yield ++ right.token :: rest = b.yield ++ right'.token :: rest') :
    a = b ∧ right = right' ∧ rest = rest' := by
  have hnext : ∀ (d : Delimiter ")") (ts : List Token), Parse.noOperator (d.token :: ts).head? := by
    intro d ts t ht
    cases ht
    rw [d.kind_eq]
    exact Kind.noConfusion
  obtain ⟨hyield, hrest, -⟩ := (Parse.reads_expression (a.yield.length + b.yield.length + 1) default).unique
    (by omega) (by omega) ⟨a, rfl, rfl⟩ ⟨b, rfl, rfl⟩ h (hnext _ _) (hnext _ _)
  obtain ⟨hright, hrest⟩ := List.cons.inj hrest
  exact ⟨Expression.eq_of_yield hyield, Terminal.ext hright, hrest⟩

/-- A statement ends where its grammar says, whatever follows. -/
theorem Statement.yield_eq_of_append {a b : Statement Numeral.Decimal} {rest rest' : List Token}
    (h : a.yield ++ rest = b.yield ++ rest') : a.yield = b.yield ∧ rest = rest' := by
  obtain ⟨hyield, hrest, -⟩ := ((Parse.recognizes_statement_body
    (a.yield.length + b.yield.length + 1)).1.reads default).unique (by omega) (by omega)
    ⟨a, rfl, rfl⟩ ⟨b, rfl, rfl⟩ h trivial trivial
  exact ⟨hyield, hrest⟩

/-- Two lists that end in one token each agree in the rest and in that token. -/
theorem Terminal.eq_of_append {kind : Kind} {lexeme : Text} {ts ts' : List Token} {a b : Terminal kind lexeme}
    (h : ts ++ [a.token] = ts' ++ [b.token]) : ts = ts' ∧ a = b := by
  obtain ⟨hts, hlast⟩ := List.append_inj' h rfl
  exact ⟨hts, Terminal.ext (List.cons.inj hlast).1⟩

mutual

theorem Statement.eq_of_yield : ∀ {a b : Statement Numeral.Decimal}, a.yield = b.yield → a = b
  | .declaration .., .declaration .., h => by
    simp only [Statement.yield, List.cons.injEq] at h
    obtain ⟨hkeyword, h⟩ := h
    obtain ⟨hnames, rfl⟩ := Terminal.eq_of_append h
    obtain rfl := Terminal.ext hkeyword
    obtain rfl := Names.eq_of_yield hnames
    rfl
  | .assignment .., .assignment .., h => by
    simp only [Statement.yield, List.cons.injEq] at h
    obtain ⟨htarget, hsign, h⟩ := h
    obtain ⟨hvalue, rfl⟩ := Terminal.eq_of_append h
    obtain rfl := Lexical.ext htarget
    obtain rfl := Terminal.ext hsign
    obtain rfl := Expression.eq_of_yield hvalue
    rfl
  | .loop _ _ _ _ _ body _, .loop _ _ _ _ _ body' _, h => by
    simp only [Statement.yield, List.cons.injEq] at h
    obtain ⟨hkeyword, hleft, h⟩ := h
    obtain ⟨rfl, rfl, hrest⟩ := Expression.eq_of_yield_append h
    obtain ⟨hopening, hrest⟩ := List.cons.inj hrest
    obtain ⟨hbody, rfl⟩ := Terminal.eq_of_append hrest
    obtain rfl := Terminal.ext hkeyword
    obtain rfl := Terminal.ext hleft
    obtain rfl := Terminal.ext hopening
    obtain rfl : body = body' := Statements.eq_of_yield hbody
    rfl
  | .output .., .output .., h => by
    simp only [Statement.yield, List.cons.injEq] at h
    obtain ⟨hkeyword, hleft, h⟩ := h
    obtain ⟨rfl, rfl, hrest⟩ := Expression.eq_of_yield_append h
    obtain rfl := Terminal.ext hkeyword
    obtain rfl := Terminal.ext hleft
    obtain rfl := Terminal.ext (List.cons.inj hrest).1
    rfl
  | .declaration .., .assignment .., h | .declaration .., .loop .., h | .declaration .., .output .., h
  | .assignment .., .declaration .., h | .assignment .., .loop .., h | .assignment .., .output .., h
  | .loop .., .declaration .., h | .loop .., .assignment .., h | .loop .., .output .., h
  | .output .., .declaration .., h | .output .., .assignment .., h | .output .., .loop .., h =>
    absurd (Statement.opening_eq_of_yield h) (by simp only [Statement.opening]; decide)

theorem Statements.eq_of_yield : ∀ {a b : Statements Numeral.Decimal}, a.yield = b.yield → a = b
  | .none, .none, _ => rfl
  | .none, .more first rest, h => absurd h.symm (by simp [Statements.yield, first.yield_ne_nil])
  | .more first rest, .none, h => absurd h (by simp [Statements.yield, first.yield_ne_nil])
  | .more first rest, .more first' rest', h => by
    obtain ⟨hfirst, hrest⟩ := Statement.yield_eq_of_append h
    obtain rfl : first = first' := Statement.eq_of_yield hfirst
    obtain rfl : rest = rest' := Statements.eq_of_yield hrest
    rfl

end

end Derivation

/-! ### Programs -/

namespace Parse

theorem statements_eq {eof : Position} {ts : List Token} (h : ts ≠ []) :
    statements eof ts =
      match statement eof ts with
      | .error e => .error e
      | .ok first => (statements eof first.rest).map (first.value :: ·) := by
  cases ts with
  | nil => exact absurd rfl h
  | cons t rest =>
    rw [statements]
    cases statement eof (t :: rest) with
    | error e => rfl
    | ok first =>
      simp only
      cases statements eof first.rest <;> rfl

/-- A statement in front of other tokens is parsed first. -/
theorem statements_append (eof : Position) (d : Statement Numeral.Decimal) (rest : List Token) :
    statements eof (d.yield ++ rest) = (statements eof rest).map (d.tree :: ·) := by
  obtain ⟨r, hr, hvalue, hrest⟩ := (recognizes_statement_body (d.yield.length + 1)).1.complete eof
    (Nat.lt_succ_self _) ⟨d, rfl, rfl⟩ rfl trivial
  have htree : d.tree = r.value := hvalue.symm
  rw [statements_eq (by simp [d.yield_ne_nil]), hr, htree]
  exact congrArg (fun ts => (statements eof ts).map (r.value :: ·)) hrest

theorem statements_sound {eof : Position} {ts : List Token} {stmts : List Stmt} (h : statements eof ts = .ok stmts) :
    ∃ d : Statements Numeral.Decimal, d.yield = ts ∧ d.trees = stmts := by
  fun_induction statements eof ts generalizing stmts with
  | case1 =>
    cases h
    exact ⟨.none, rfl, rfl⟩
  | case2 => cases h
  | case3 => cases h
  | case4 t rest first hfirst others hothers ih =>
    cases h
    obtain ⟨read, hsplit, d, rfl, hd⟩ := (recognizes_statement_body _).1.sound (Nat.lt_succ_self _) hfirst
    obtain ⟨ds, hyield, htrees⟩ := ih hothers
    refine ⟨.more d ds, ?_, ?_⟩
    · rw [Statements.yield, hyield]
      exact hsplit.symm
    · rw [Statements.trees, htrees]
      exact congrArg (· :: others) hd

theorem statements_complete (eof : Position) : ∀ d : Statements Numeral.Decimal, statements eof d.yield = .ok d.trees
  | .none => by
    rw [Statements.yield, statements]
    rfl
  | .more first rest => by
    rw [Statements.yield, statements_append, statements_complete eof rest]
    rfl

end Parse

theorem parse_eq_ok_iff {ts : List Token} {stmts : List Stmt} :
    parse ts = .ok stmts ↔ ∃ d : Derivation.Program Numeral.Decimal, d.yield = ts ∧ d.trees = stmts := by
  constructor
  · exact Parse.statements_sound
  · rintro ⟨d, rfl, rfl⟩
    exact Parse.statements_complete _ d

/-- The derivations of a list of tokens. -/
abbrev Derivation.Of (ts : List Token) := { d : Derivation.Program Numeral.Decimal // d.yield = ts }

/-- The parser returns the trees of the derivations of its tokens, and there is at most one derivation. -/
theorem parse_accepts_exactly_grammar (ts : List Token) :
    (∀ stmts, parse ts = .ok stmts ↔ ∃ d : Derivation.Of ts, d.val.trees = stmts) ∧
      Subsingleton (Derivation.Of ts) := by
  refine ⟨fun stmts => ?_, ⟨?_⟩⟩
  · rw [parse_eq_ok_iff]
    constructor
    · rintro ⟨d, hyield, htrees⟩
      exact ⟨⟨d, hyield⟩, htrees⟩
    · rintro ⟨⟨d, hyield⟩, htrees⟩
      exact ⟨d, hyield, htrees⟩
  · rintro ⟨a, ha⟩ ⟨b, hb⟩
    exact Subtype.ext (Derivation.Statements.eq_of_yield (ha.trans hb.symm))

/-! ### Failures -/

/-- The tokens begin a program. -/
def Derivation.Begins (ts : List Token) : Prop :=
  ∃ (more : List Token) (d : Derivation.Program Numeral.Decimal), d.yield = ts ++ more

theorem Derivation.Begins.of_statement {ts : List Token} (h : ∃ more s, Parse.trees.statementPhrases (ts ++ more) s) :
    Begins ts := by
  obtain ⟨more, _, d, hd, -⟩ := h
  exact ⟨more, .more d .none, by rw [Statements.yield, hd, Statements.yield, List.append_nil]⟩

theorem Derivation.Begins.append (d : Statement Numeral.Decimal) {ts : List Token} (h : Begins ts) :
    Begins (d.yield ++ ts) := by
  obtain ⟨more, ds, hds⟩ := h
  exact ⟨more, .more d ds, by rw [Statements.yield, hds, List.append_assoc]⟩

namespace Parse

/-- Where a program fails: at a token behind the beginning of a program, and then whatever follows that token; or
at the end of the tokens. -/
theorem statements_stops {eof : Position} {ts : List Token} {e : SyntaxError} (h : statements eof ts = .error e) :
    (∃ read t unread, ts = read ++ t :: unread ∧ Derivation.Begins read ∧ e.found = some t ∧ e.pos = t.pos ∧
      ∀ eof' unread', statements eof' (read ++ t :: unread') = .error e) ∨
    ts ≠ [] ∧ Derivation.Begins ts ∧ e.found = none ∧ e.pos = eof := by
  fun_induction statements eof ts with
  | case1 => cases h
  | case2 t rest e' he' =>
    cases h
    cases (recognizes_statement_body _).1.stops (Nat.lt_succ_self _) he' with
    | token read t' unread split begun found pos again =>
      refine Or.inl ⟨read, t', unread, split, .of_statement begun, found, pos, fun eof' unread' => ?_⟩
      rw [statements_eq (by simp), again eof' unread']
    | ended begun found pos => exact Or.inr ⟨by simp, .of_statement begun, found, pos⟩
  | case3 t rest first hfirst e' he' ih =>
    cases h
    obtain ⟨front, hsplit, d, rfl, hd⟩ := (recognizes_statement_body _).1.sound (Nat.lt_succ_self _) hfirst
    rw [hsplit]
    rcases ih he' with ⟨read, t', unread, hrest, hbegins, hfound, hpos, hagain⟩ | ⟨-, hbegins, hfound, hpos⟩
    · refine Or.inl ⟨d.yield ++ read, t', unread, ?_, hbegins.append d, hfound, hpos, fun eof' unread' => ?_⟩
      · rw [hrest, List.append_assoc]
      · rw [List.append_assoc, statements_append, hagain eof' unread']
        rfl
    · exact Or.inr ⟨by simp [d.yield_ne_nil], hbegins.append d, hfound, hpos⟩
  | case4 => cases h

theorem endPosition_of_ne_nil {ts : List Token} (h : ts ≠ []) : endPosition ts = (ts.getLast h).stop := by
  simp [endPosition, List.getLast?_eq_some_getLast h]

end Parse

theorem Derivation.Begins.exists_parse {ts : List Token} (h : Begins ts) :
    ∃ more stmts, parse (ts ++ more) = .ok stmts := by
  obtain ⟨more, d, hd⟩ := h
  exact ⟨more, d.trees, parse_eq_ok_iff.2 ⟨d, hd, rfl⟩⟩

/-- A failure is reported at the earliest token: what stands in front of it can still become a program, and
nothing behind it changes the failure. -/
theorem parse_fails_at_earliest_token {ts : List Token} {e : SyntaxError} (h : parse ts = .error e) :
    (∃ (k : Nat) (hk : k < ts.length), e.found = some ts[k] ∧ e.pos = ts[k].pos ∧
      (∃ more stmts, parse (ts.take k ++ more) = .ok stmts) ∧
      ∀ more, parse (ts.take (k + 1) ++ more) = .error e) ∨
    (∃ hne : ts ≠ [], e.found = none ∧ e.pos = (ts.getLast hne).stop ∧
      ∃ more stmts, parse (ts ++ more) = .ok stmts) := by
  rcases Parse.statements_stops h with
    ⟨read, t, unread, rfl, hbegins, hfound, hpos, hagain⟩ | ⟨hne, hbegins, hfound, hpos⟩
  · refine Or.inl ⟨read.length, by simp, ?_, ?_, ?_, fun more => ?_⟩
    · simpa using hfound
    · simpa using hpos
    · simpa using hbegins.exists_parse
    · have htake : (read ++ t :: unread).take (read.length + 1) = read ++ [t] := by
        simp [List.take_append, List.take_of_length_le]
      rw [htake, List.append_assoc]
      exact hagain _ more
  · rw [Parse.endPosition_of_ne_nil hne] at hpos
    exact Or.inr ⟨hne, hfound, hpos, hbegins.exists_parse⟩

/-- `while (x) { x = ;` with a value missing inside an open loop. -/
def valueMissing : List Token :=
  [⟨.keyword, bytes "while", ⟨[], 0, 1, 1⟩⟩, ⟨.delimiter, bytes "(", ⟨[], 6, 1, 7⟩⟩,
    ⟨.identifier, bytes "x", ⟨[], 7, 1, 8⟩⟩, ⟨.delimiter, bytes ")", ⟨[], 8, 1, 9⟩⟩,
    ⟨.delimiter, bytes "\x7b", ⟨[], 10, 1, 11⟩⟩, ⟨.identifier, bytes "x", ⟨[], 12, 1, 13⟩⟩,
    ⟨.assign, bytes "=", ⟨[], 14, 1, 15⟩⟩, ⟨.delimiter, bytes ";", ⟨[], 16, 1, 17⟩⟩]

/-- The failure at the semicolon. -/
def valueMissingError : SyntaxError :=
  ⟨.expression, some ⟨.delimiter, bytes ";", ⟨[], 16, 1, 17⟩⟩, ⟨[], 16, 1, 17⟩⟩

theorem valueMissing_fails_early :
    parse valueMissing = .error valueMissingError ∧
    ((∃ (k : Nat) (hk : k < valueMissing.length), valueMissingError.found = some valueMissing[k] ∧
      valueMissingError.pos = valueMissing[k].pos ∧
      (∃ more stmts, parse (valueMissing.take k ++ more) = .ok stmts) ∧
      ∀ more, parse (valueMissing.take (k + 1) ++ more) = .error valueMissingError) ∨
    (∃ hne : valueMissing ≠ [], valueMissingError.found = none ∧
      valueMissingError.pos = (valueMissing.getLast hne).stop ∧
      ∃ more stmts, parse (valueMissing ++ more) = .ok stmts)) := by
  have h : parse valueMissing = .error valueMissingError := by decide +kernel
  exact ⟨h, parse_fails_at_earliest_token h⟩

end RatLang
