import RatLang.Proofs.Statement.Derivation
import RatLang.Proofs.Statement.Step

/-!
# What the parser's steps recognize

Each step of the parser recognizes the phrases of its production. Expressions and lists of names are
proved along their recursion; assignments, outputs and conditions are steps in a row; statements and loop
bodies contain each other and are proved together, by induction on the number of tokens
(`recognizes_statement_body`).
-/
namespace RatLang.Parse

open RatLang.Derivation (Lexical Terminal Delimiter Operand Expression Names Statement Statements)

/-! ### Single tokens -/

theorem is_iff {t : Token} {kind : Kind} {lexeme : Text} (h : lexeme ≠ []) :
    t.is kind lexeme ↔ t.kind = kind ∧ t.lexeme = lexeme := by
  simp [Token.is, h]

theorem Terminal.is_token {kind : Kind} {lexeme : Text} (t : Terminal kind lexeme) :
    t.token.is kind lexeme := by
  simp [Token.is, t.kind_eq, t.lexeme_eq]

theorem reads_expect (n : Nat) (eof : Position) {kind : Kind} {lexeme : Text} (h : lexeme ≠ []) :
    Reads n (fun _ => True) (fun ts => expect eof kind lexeme ts) (terminal kind lexeme) anything where
  sound := by
    intro ts r _ _ hr
    cases ts with
    | nil => cases hr
    | cons t rest =>
      simp only [expect] at hr
      split at hr
      · rename_i his
        cases hr
        obtain ⟨hkind, hlexeme⟩ := (is_iff h).1 his
        exact ⟨[t], rfl, ⟨t, hkind, hlexeme⟩, rfl, rfl⟩
      · cases hr
  complete := by
    rintro _ ts rest _ - - ⟨d, rfl, rfl⟩ rfl -
    exact ⟨⟨d.token, rest, by simp⟩, by simp [expect, Terminal.is_token d], rfl, rfl⟩

theorem recognizes_expect (n : Nat) {kind : Kind} {lexeme : Text} (h : lexeme ≠ []) :
    Recognizes n (fun eof ts => expect eof kind lexeme ts) (terminal kind lexeme) anything where
  reads eof := reads_expect n eof h
  follows _ _ := trivial
  stops := by
    intro eof ts e _ he
    obtain ⟨more, t, hsome⟩ := exists_terminal kind lexeme
    cases ts with
    | nil =>
      cases he
      exact .ended ⟨more, t, hsome⟩ rfl rfl
    | cons t' rest =>
      simp only [expect] at he
      split at he
      · cases he
      · rename_i hnot
        cases he
        refine .token [] t' rest rfl ⟨more, t, hsome⟩ rfl rfl fun eof' unread' => ?_
        simp [expect, hnot, failure_cons]

theorem recognizes_delimiter (n : Nat) {lexeme : String} (h : bytes lexeme ≠ []) :
    Recognizes n (fun eof ts => delimiter eof lexeme ts) (terminal .delimiter (bytes lexeme)) anything :=
  recognizes_expect n h

/-! ### Expressions -/

/-- Derivations mean their syntax trees. -/
def trees : Meaning Numeral.Decimal Expr Stmt where
  expression := Expression.tree
  statement := Statement.tree
  statements := Statements.trees
  declaration kw names := .declaration kw.pos kw.lexeme names
  assignment target value := .assignment target.pos target.lexeme value
  loop kw condition body := .loop kw.pos condition body
  output kw value := .output kw.pos value
  statement_declaration := rfl
  statement_assignment := rfl
  statement_loop := rfl
  statement_output := rfl
  statements_none := rfl
  statements_more := rfl

theorem operand_eq_ok_iff {t : Token} {e : Expr} :
    operand t = .ok e ↔ ∃ o : Operand Numeral.Decimal, o.token = t ∧ o.tree = e := by
  constructor
  · intro h
    unfold operand at h
    split at h
    · rename_i hkind
      split at h
      · rename_i value hvalue
        cases h
        exact ⟨.integer ⟨t, hkind⟩ value (Numeral.readDecimal_eq_ok_iff.1 hvalue), rfl, rfl⟩
      · cases h
    · rename_i hkind
      cases h
      exact ⟨.identifier ⟨t, hkind⟩, rfl, rfl⟩
    · cases h
  · rintro ⟨o, rfl, rfl⟩
    cases o with
    | integer literal value read =>
      have hread := Numeral.readDecimal_eq_ok_iff.2 read
      simp only [operand, Operand.token, Operand.tree, literal.kind_eq, hread]
    | identifier name => simp only [operand, Operand.token, Operand.tree, name.kind_eq]

theorem expression_sound {eof : Position} {ts : List Token} {r : Parsed Expr ts.length}
    (h : expression eof ts = .ok r) :
    ∃ read, ts = read ++ r.rest ∧ trees.expressionPhrases read r.value ∧ noOperator r.rest.head? := by
  fun_induction expression eof ts with
  | case1 => cases h
  | case2 => cases h
  | case3 t left hleft =>
    cases h
    obtain ⟨o, htoken, htree⟩ := operand_eq_ok_iff.1 hleft
    exact ⟨[t], rfl, ⟨.leaf o, by rw [Expression.yield, htoken], htree⟩, by simp [noOperator]⟩
  | case4 => cases h
  | case5 t left hleft op more hop right hright ih =>
    cases h
    obtain ⟨o, rfl, rfl⟩ := operand_eq_ok_iff.1 hleft
    obtain ⟨read, hsplit, ⟨d, rfl, hd⟩, hnext⟩ := ih hright
    refine ⟨o.token :: op :: d.yield, congrArg (o.token :: op :: ·) hsplit,
      ⟨.chain o ⟨op, hop⟩ d, rfl, ?_⟩, hnext⟩
    exact congrArg (Expr.binary op.pos op.lexeme o.tree) hd
  | case6 t left hleft op more hop =>
    cases h
    obtain ⟨o, htoken, htree⟩ := operand_eq_ok_iff.1 hleft
    exact ⟨[t], rfl, ⟨.leaf o, by rw [Expression.yield, htoken], htree⟩, by simpa [noOperator] using hop⟩

theorem expression_complete (eof : Position) (d : Expression Numeral.Decimal) : ∀ {ts rest : List Token},
    ts = d.yield ++ rest → noOperator rest.head? → Takes (expression eof ts) d.tree rest := by
  induction d with
  | leaf o =>
    rintro _ rest rfl hrest
    have ho : operand o.token = .ok o.tree := operand_eq_ok_iff.2 ⟨o, rfl, rfl⟩
    cases rest with
    | nil =>
      simp only [Expression.yield, List.cons_append, List.nil_append, expression, ho]
      exact ⟨_, rfl, rfl, rfl⟩
    | cons next rest =>
      have hnext : next.kind ≠ .operator := hrest next rfl
      simp only [Expression.yield, List.cons_append, List.nil_append, expression, ho, hnext, if_false]
      exact ⟨_, rfl, rfl, rfl⟩
  | chain o op d ih =>
    rintro _ rest rfl hrest
    have ho : operand o.token = .ok o.tree := operand_eq_ok_iff.2 ⟨o, rfl, rfl⟩
    obtain ⟨r, hr, hvalue, hleft⟩ := ih rfl hrest
    simp only [Expression.yield, List.cons_append, expression, ho, op.kind_eq, if_true, hr]
    exact ⟨_, rfl, congrArg (Expr.binary op.token.pos op.token.lexeme o.tree) hvalue, hleft⟩

theorem expression_stops {eof : Position} {ts : List Token} {e : SyntaxError} (h : expression eof ts = .error e) :
    Stops expression trees.expressionPhrases eof ts e := by
  have hsome : ∃ more a, trees.expressionPhrases more a := ⟨_, _, default, rfl, rfl⟩
  fun_induction expression eof ts with
  | case1 =>
    cases h
    exact .ended hsome rfl rfl
  | case2 t rest expected hoperand =>
    cases h
    refine .token [] t rest rfl hsome rfl rfl fun eof' unread' => ?_
    simp [expression, hoperand, failure_cons]
  | case3 => cases h
  | case4 t left hleft op more hop e' he' ih =>
    cases h
    obtain ⟨o, rfl, rfl⟩ := operand_eq_ok_iff.1 hleft
    cases ih he' with
    | token read t unread split begun found pos again =>
      obtain ⟨more', a, d, hd, -⟩ := begun
      refine .token (o.token :: op :: read) t unread (by rw [split]; rfl)
        ⟨more', _, .chain o ⟨op, hop⟩ d, ?_, rfl⟩ found pos fun eof' unread' => ?_
      · rw [Expression.yield, hd]
        rfl
      · simp [expression, hleft, hop, again eof' unread']
    | ended begun found pos =>
      obtain ⟨more', a, d, hd, -⟩ := begun
      refine .ended ⟨more', _, .chain o ⟨op, hop⟩ d, ?_, rfl⟩ found pos
      rw [Expression.yield, hd]
      rfl
  | case5 => cases h
  | case6 => cases h

theorem reads_expression (n : Nat) (eof : Position) :
    Reads n (fun _ => True) (expression eof) trees.expressionPhrases noOperator where
  sound := by
    intro ts r _ _ h
    obtain ⟨read, hsplit, hread, -⟩ := expression_sound h
    exact ⟨read, hsplit, hread⟩
  complete := by
    rintro _ ts rest _ - - ⟨d, rfl, rfl⟩ hsplit hrest
    exact expression_complete eof d hsplit hrest

theorem recognizes_expression (n : Nat) : Recognizes n expression trees.expressionPhrases noOperator where
  reads eof := reads_expression n eof
  follows := by
    intro eof ts r _ h
    obtain ⟨-, -, -, hnext⟩ := expression_sound h
    exact hnext
  stops _ h := expression_stops h

/-! ### Names -/

theorem names_sound {eof : Position} {ts : List Token} {r : Parsed (List Text) ts.length}
    (h : names eof ts = .ok r) : ∃ read, ts = read ++ r.rest ∧ namesPhrases read r.value := by
  fun_induction names eof ts with
  | case1 => cases h
  | case2 => cases h
  | case3 => cases h
  | case4 t hname sep more hsep others hothers ih =>
    cases h
    obtain ⟨hkind, hlexeme⟩ := (is_iff (by decide)).1 hsep
    obtain ⟨read, hsplit, d, semicolon, rfl, hd⟩ := ih hothers
    refine ⟨t :: sep :: (d.yield ++ [semicolon.token]), congrArg (t :: sep :: ·) hsplit,
      .more ⟨t, hname⟩ ⟨sep, hkind, hlexeme⟩ d, semicolon, rfl, ?_⟩
    rw [Names.texts, hd]
    rfl
  | case5 t hname sep more hcomma hsep =>
    cases h
    obtain ⟨hkind, hlexeme⟩ := (is_iff (by decide)).1 hsep
    exact ⟨[t, sep], rfl, .last ⟨t, hname⟩, ⟨sep, hkind, hlexeme⟩, rfl, rfl⟩
  | case6 => cases h
  | case7 => cases h

theorem names_complete (eof : Position) (semicolon : Delimiter ";") (rest : List Token) (d : Names) :
    ∀ {ts : List Token}, ts = d.yield ++ semicolon.token :: rest → Takes (names eof ts) d.texts rest := by
  have hsemicolon : semicolon.token.is .delimiter (bytes ";") := Terminal.is_token semicolon
  have hcomma : ¬semicolon.token.is .delimiter (bytes ",") := by
    rw [is_iff (by decide), semicolon.lexeme_eq]
    exact fun h => absurd h.2 (by decide)
  induction d with
  | last name =>
    rintro _ rfl
    simp only [Names.yield, List.cons_append, List.nil_append, names, name.kind_eq, hcomma, hsemicolon,
      Bool.false_eq_true, if_true, if_false]
    exact ⟨_, rfl, rfl, rfl⟩
  | more name comma d ih =>
    rintro _ rfl
    have hsep := Terminal.is_token comma
    obtain ⟨r, hr, hvalue, hleft⟩ := ih rfl
    simp only [Names.yield, List.cons_append, names, name.kind_eq, hsep, if_true, hr]
    exact ⟨_, rfl, congrArg (name.token.lexeme :: ·) hvalue, hleft⟩

theorem names_stops {eof : Position} {ts : List Token} {e : SyntaxError} (h : names eof ts = .error e) :
    Stops names namesPhrases eof ts e := by
  have hsome : ∃ more a, namesPhrases more a := ⟨_, _, default, default, rfl, rfl⟩
  fun_induction names eof ts with
  | case1 =>
    cases h
    exact .ended hsome rfl rfl
  | case2 t hname =>
    cases h
    exact .ended ⟨_, _, .last ⟨t, hname⟩, default, rfl, rfl⟩ rfl rfl
  | case3 t hname sep more hsep e' he' ih =>
    cases h
    obtain ⟨hkind, hlexeme⟩ := (is_iff (by decide)).1 hsep
    cases ih he' with
    | token read t' unread split begun found pos again =>
      obtain ⟨more', a, d, semicolon, hd, -⟩ := begun
      refine .token (t :: sep :: read) t' unread (by rw [split]; rfl)
        ⟨more', _, .more ⟨t, hname⟩ ⟨sep, hkind, hlexeme⟩ d, semicolon, ?_, rfl⟩ found pos fun eof' unread' => ?_
      · rw [Names.yield, List.cons_append, List.cons_append, hd]
        rfl
      · simp [names, hname, hsep, again eof' unread']
    | ended begun found pos =>
      obtain ⟨more', a, d, semicolon, hd, -⟩ := begun
      refine .ended ⟨more', _, .more ⟨t, hname⟩ ⟨sep, hkind, hlexeme⟩ d, semicolon, ?_, rfl⟩ found pos
      rw [Names.yield, List.cons_append, List.cons_append, hd]
      rfl
  | case4 => cases h
  | case5 => cases h
  | case6 t hname sep more hcomma hsemicolon =>
    cases h
    refine .token [t] sep more rfl ⟨_, _, .last ⟨t, hname⟩, default, rfl, rfl⟩ rfl rfl fun eof' unread' => ?_
    simp [names, hname, hcomma, hsemicolon, failure_cons]
  | case7 t rest hname =>
    cases h
    refine .token [] t rest rfl hsome rfl rfl fun eof' unread' => ?_
    rw [names.eq_def]
    simp [hname, failure_cons]

theorem reads_names (n : Nat) (eof : Position) : Reads n (fun _ => True) (names eof) namesPhrases anything where
  sound _ _ h := names_sound h
  complete := by
    rintro _ ts rest _ - - ⟨d, semicolon, rfl, rfl⟩ hsplit -
    exact names_complete eof semicolon rest d (by rw [hsplit]; simp)

theorem recognizes_names (n : Nat) : Recognizes n names namesPhrases anything where
  reads eof := reads_names n eof
  follows _ _ := trivial
  stops _ h := names_stops h

/-! ### Steps in a row -/

theorem declaration_eq (kw : Token) :
    (fun eof ts => declaration eof kw ts) = Step.map (.declaration kw.pos kw.lexeme) names := by
  funext eof ts
  simp only [declaration, Step.map, Reader.map]
  cases names eof ts <;> rfl

theorem assignment_eq (target : Token) :
    (fun eof ts => assignment eof target ts) =
      Step.andThen (fun eof ts => expect eof .assign (bytes "=") ts) fun _ =>
        Step.andThen expression fun value =>
          Step.map (fun _ => .assignment target.pos target.lexeme value) fun eof ts =>
            delimiter eof ";" ts := by
  funext eof ts
  simp only [assignment, Step.andThen, Step.map, Reader.andThen, Reader.map, bind, Except.bind]
  cases expect eof .assign (bytes "=") ts with
  | error e => rfl
  | ok sign =>
    simp only
    cases expression eof sign.rest with
    | error e => rfl
    | ok value =>
      simp only
      cases delimiter eof ";" value.rest <;> rfl

theorem output_eq (kw : Token) :
    (fun eof ts => output eof kw ts) =
      Step.andThen (fun eof ts => delimiter eof "(" ts) fun _ =>
        Step.andThen expression fun value =>
          Step.andThen (fun eof ts => delimiter eof ")" ts) fun _ =>
            Step.map (fun _ => .output kw.pos value) fun eof ts => delimiter eof ";" ts := by
  funext eof ts
  simp only [output, Step.andThen, Step.map, Reader.andThen, Reader.map, bind, Except.bind]
  cases delimiter eof "(" ts with
  | error e => rfl
  | ok left =>
    simp only
    cases expression eof left.rest with
    | error e => rfl
    | ok value =>
      simp only
      cases delimiter eof ")" value.rest with
      | error e => rfl
      | ok right =>
        simp only
        cases delimiter eof ";" right.rest <;> rfl

theorem condition_eq :
    condition =
      Step.andThen (fun eof ts => delimiter eof "(" ts) fun _ =>
        Step.andThen expression fun value =>
          Step.andThen (fun eof ts => delimiter eof ")" ts) fun _ =>
            Step.map (fun _ => value) fun eof ts => delimiter eof "\x7b" ts := by
  funext eof ts
  simp only [condition, Step.andThen, Step.map, Reader.andThen, Reader.map, bind, Except.bind]
  cases delimiter eof "(" ts with
  | error e => rfl
  | ok left =>
    simp only
    cases expression eof left.rest with
    | error e => rfl
    | ok value =>
      simp only
      cases delimiter eof ")" value.rest with
      | error e => rfl
      | ok right =>
        simp only
        cases delimiter eof "\x7b" right.rest <;> rfl

theorem recognizes_closed {α : Type} (n : Nat) {lexeme : String} (h : bytes lexeme ≠ []) (f : Expr → α) :
    Recognizes n
      (Step.andThen expression fun value => Step.map (fun _ => f value) fun eof ts => delimiter eof lexeme ts)
      (trees.closedPhrases lexeme f) anything := by
  refine (recognizes_expression n).andThen (fun _ => (recognizes_delimiter _ h).map _) ?_
    fun _ => Phrases.exists_map (exists_terminal ..)
  rintro _ _ _ _ ⟨t, ht, -⟩ -
  exact noOperator_terminal ht

theorem recognizes_enclosed {α : Type} (n : Nat) {right last : String} (hright : bytes right ≠ [])
    (hlast : bytes last ≠ []) (f : Expr → α) :
    Recognizes n
      (Step.andThen expression fun value =>
        Step.andThen (fun eof ts => delimiter eof right ts) fun _ =>
          Step.map (fun _ => f value) fun eof ts => delimiter eof last ts)
      (trees.enclosedPhrases right last f) anything := by
  refine (recognizes_expression n).andThen (fun _ => ?_) ?_ fun _ =>
    Phrases.exists_seq (exists_terminal ..) fun _ => Phrases.exists_map (exists_terminal ..)
  · exact (recognizes_delimiter _ hright).andThen (fun _ => (recognizes_delimiter _ hlast).map _)
      (fun _ _ => trivial) fun _ => Phrases.exists_map (exists_terminal ..)
  · rintro _ _ _ rest ⟨front, back, t, rfl, ht, -⟩ -
    rw [List.append_assoc]
    exact noOperator_terminal ht

theorem recognizes_declaration (n : Nat) (kw : Token) :
    Recognizes n (fun eof ts => declaration eof kw ts) (namesPhrases.map (trees.declaration kw))
      anything := by
  rw [declaration_eq]
  exact (recognizes_names n).map _

theorem recognizes_assignment (n : Nat) (target : Token) :
    Recognizes n (fun eof ts => assignment eof target ts)
      ((terminal .assign (bytes "=")).seq fun _ => trees.closedPhrases ";" (trees.assignment target))
      anything := by
  rw [assignment_eq]
  exact (recognizes_expect n (by decide)).andThen (fun _ => recognizes_closed _ (by decide) _)
    (fun _ _ => trivial) fun _ => trees.exists_closedPhrases ..

theorem recognizes_output (n : Nat) (kw : Token) :
    Recognizes n (fun eof ts => output eof kw ts)
      ((terminal .delimiter (bytes "(")).seq fun _ => trees.enclosedPhrases ")" ";" (trees.output kw)) anything := by
  rw [output_eq]
  exact (recognizes_delimiter n (by decide)).andThen
    (fun _ => recognizes_enclosed _ (by decide) (by decide) (Stmt.output kw.pos)) (fun _ _ => trivial)
    fun _ => trees.exists_enclosedPhrases ..

theorem recognizes_condition (n : Nat) :
    Recognizes n condition
      ((terminal .delimiter (bytes "(")).seq fun _ => trees.enclosedPhrases ")" "\x7b" id) anything := by
  rw [condition_eq]
  exact (recognizes_delimiter n (by decide)).andThen
    (fun _ => recognizes_enclosed _ (by decide) (by decide) id) (fun _ _ => trivial)
    fun _ => trees.exists_enclosedPhrases ..

/-! ### Statements -/

/-- What follows `while`. -/
def loop (kw : Token) : Step Stmt := Step.andThen condition fun value => Step.map (.loop kw.pos value) body

/-- How a statement goes on behind its first token, if that token begins one. -/
def tail? (t : Token) : Option (Step Stmt) :=
  if t.is .keyword (bytes "integer") then some fun eof ts => declaration eof t ts
  else if t.kind = .identifier then some fun eof ts => assignment eof t ts
  else if t.is .keyword (bytes "while") then some (loop t)
  else if t.is .keyword (bytes "put") then some fun eof ts => output eof t ts
  else none

theorem statement_of_tail {eof : Position} {t : Token} {rest : List Token} {p : Step Stmt} (h : tail? t = some p) :
    statement eof (t :: rest) = (p eof rest).map (·.within (Nat.le_succ _)) := by
  unfold tail? at h
  rw [statement]
  split at h
  · cases h
    simp [*]
  split at h
  · cases h
    simp [*]
  split at h
  · cases h
    simp only [*, Bool.false_eq_true, if_false, if_true, loop, Step.andThen, Step.map, Reader.andThen,
      Reader.map]
    cases condition eof rest with
    | error e => rfl
    | ok value =>
      simp only
      cases body eof value.rest <;> rfl
  split at h
  · cases h
    simp [*]
  · cases h

theorem statement_of_no_tail {eof : Position} {t : Token} {rest : List Token} (h : tail? t = none) :
    statement eof (t :: rest) = .error ⟨.statement, some t, t.pos⟩ := by
  unfold tail? at h
  rw [statement]
  split at h
  · cases h
  split at h
  · cases h
  split at h
  · cases h
  split at h
  · cases h
  · simp [*, failure_cons]

theorem recognizes_loop {n : Nat} (hbody : Recognizes (n - 1) body trees.bodyPhrases anything) (kw : Token) :
    Recognizes n (loop kw)
      (((terminal .delimiter (bytes "(")).seq fun _ => trees.enclosedPhrases ")" "\x7b" id).seq fun value =>
        trees.bodyPhrases.map (trees.loop kw value)) anything :=
  (recognizes_condition n).andThen (fun _ => hbody.map _) (fun _ _ => trivial)
    fun _ => Phrases.exists_map ⟨_, _, default, default, rfl, rfl⟩

theorem recognizes_tail {n : Nat} (hbody : Recognizes (n - 1) body trees.bodyPhrases anything) {t : Token}
    {p : Step Stmt} (h : tail? t = some p) : Recognizes n p (trees.behind t) anything := by
  unfold tail? at h
  have hne := keywords_ne
  split at h
  · rename_i his
    cases h
    obtain ⟨hkind, hlexeme⟩ := (is_iff (by decide)).1 his
    exact (recognizes_declaration n t).congr fun ts s => by simp [Meaning.behind_iff, hkind, hlexeme, hne]
  split at h
  · rename_i hkind
    cases h
    exact (recognizes_assignment n t).congr fun ts s => by simp [Meaning.behind_iff, hkind]
  split at h
  · rename_i his
    cases h
    obtain ⟨hkind, hlexeme⟩ := (is_iff (by decide)).1 his
    exact (recognizes_loop hbody t).congr fun ts s => by simp [Meaning.behind_iff, hkind, hlexeme, hne]
  split at h
  · rename_i his
    cases h
    obtain ⟨hkind, hlexeme⟩ := (is_iff (by decide)).1 his
    exact (recognizes_output n t).congr fun ts s => by simp [Meaning.behind_iff, hkind, hlexeme, hne]
  · cases h

theorem exists_tail {t : Token} {ts : List Token} {s : Stmt} (h : trees.behind t ts s) : ∃ p, tail? t = some p := by
  unfold tail?
  split
  · exact ⟨_, rfl⟩
  rename_i hinteger
  split
  · exact ⟨_, rfl⟩
  rename_i hidentifier
  split
  · exact ⟨_, rfl⟩
  rename_i hwhile
  split
  · exact ⟨_, rfl⟩
  rename_i hput
  rw [is_iff (by decide)] at hinteger hwhile hput
  rcases Meaning.behind_iff.1 h with ⟨hkind, hlexeme, -⟩ | ⟨hkind, -⟩ | ⟨hkind, hlexeme, -⟩ | ⟨hkind, hlexeme, -⟩
  · exact absurd ⟨hkind, hlexeme⟩ hinteger
  · exact absurd hkind hidentifier
  · exact absurd ⟨hkind, hlexeme⟩ hwhile
  · exact absurd ⟨hkind, hlexeme⟩ hput

section Statement

variable {n : Nat} (htail : ∀ {t p}, tail? t = some p → Recognizes (n - 1) p (trees.behind t) anything)

include htail

theorem reads_statement (eof : Position) :
    Reads n (fun _ => True) (statement eof) trees.statementPhrases anything where
  sound := by
    intro ts r hts _ hr
    cases ts with
    | nil =>
      rw [statement] at hr
      cases hr
    | cons t rest =>
      simp only [List.length_cons] at hts
      cases htail? : tail? t with
      | none =>
        rw [statement_of_no_tail htail?] at hr
        cases hr
      | some p =>
        rw [statement_of_tail htail?] at hr
        obtain ⟨r', hr', rfl⟩ := exists_of_map_eq_ok hr
        obtain ⟨read, hsplit, hread⟩ := (htail htail?).sound (by omega) hr'
        exact ⟨t :: read, congrArg (t :: ·) hsplit, hread⟩
  complete := by
    rintro read ts rest s hread - hs rfl -
    obtain ⟨t, read, rfl, hbehind⟩ := Meaning.statementPhrases_cons hs
    obtain ⟨p, hp⟩ := exists_tail hbehind
    simp only [List.length_cons] at hread
    obtain ⟨r, hr, hvalue, hrest⟩ := (htail hp).complete eof (by omega) hbehind rfl trivial
    rw [List.cons_append, statement_of_tail hp, hr]
    exact ⟨_, rfl, hvalue, hrest⟩

theorem recognizes_statement : Recognizes n statement trees.statementPhrases anything where
  reads eof := reads_statement htail eof
  follows _ _ := trivial
  stops := by
    intro eof ts e hts he
    cases ts with
    | nil =>
      rw [statement] at he
      cases he
      exact .ended trees.exists_statementPhrases rfl rfl
    | cons t rest =>
      simp only [List.length_cons] at hts
      cases htail? : tail? t with
      | none =>
        rw [statement_of_no_tail htail?] at he
        cases he
        exact .token [] t rest rfl trees.exists_statementPhrases rfl rfl fun _ _ => statement_of_no_tail htail?
      | some p =>
        rw [statement_of_tail htail?] at he
        cases (htail htail?).stops (by omega) (eq_error_of_map_eq_error he) with
        | token read t' unread split begun found pos again =>
          obtain ⟨more, s, hs⟩ := begun
          refine .token (t :: read) t' unread (congrArg (t :: ·) split) ⟨more, s, hs⟩ found pos
            fun eof' unread' => ?_
          rw [List.cons_append, statement_of_tail htail?, again eof' unread']
          rfl
        | ended begun found pos =>
          obtain ⟨more, s, hs⟩ := begun
          exact .ended ⟨more, s, hs⟩ found pos

end Statement

/-! ### Loop bodies -/

/-- A loop's body that does not end at once: a statement and another body. -/
def continuedBody : Step (List Stmt) := Step.andThen statement fun s => Step.map (s :: ·) body

theorem body_nil (eof : Position) : body eof [] = .error ⟨.token .delimiter (bytes "\x7d"), none, eof⟩ := by
  rw [body]
  rfl

theorem body_closing (eof : Position) {t : Token} (rest : List Token) (h : t.is .delimiter (bytes "\x7d")) :
    Takes (body eof (t :: rest)) [] rest := by
  rw [body, if_pos h]
  exact ⟨_, rfl, rfl, rfl⟩

theorem body_continued {eof : Position} {t : Token} {rest : List Token} (h : ¬t.is .delimiter (bytes "\x7d")) :
    body eof (t :: rest) = continuedBody eof (t :: rest) := by
  rw [body, if_neg h]
  simp only [continuedBody, Step.andThen, Step.map, Reader.andThen, Reader.map]
  cases statement eof (t :: rest) with
  | error e => rfl
  | ok first =>
    simp only
    cases body eof first.rest <;> rfl

/-- No statement begins with the brace that closes a loop. -/
theorem not_closing_of_behind {t : Token} {ts : List Token} {s : Stmt} (h : trees.behind t ts s) :
    ¬t.is .delimiter (bytes "\x7d") := by
  rw [is_iff (by decide)]
  rintro ⟨hdelimiter, -⟩
  rcases Meaning.kind_of_behind h with hkind | hkind
  all_goals
    rw [hkind] at hdelimiter
    cases hdelimiter

section Body

variable {n : Nat}
  (hcontinued : Recognizes n continuedBody (trees.statementPhrases.seq fun s => trees.bodyPhrases.map (s :: ·))
    anything)

include hcontinued

theorem reads_body (eof : Position) : Reads n (fun _ => True) (body eof) trees.bodyPhrases anything where
  sound := by
    intro ts r hts _ hr
    cases ts with
    | nil =>
      rw [body_nil] at hr
      cases hr
    | cons t rest =>
      by_cases hclosing : t.is .delimiter (bytes "\x7d")
      · obtain ⟨r', hr', hvalue, hrest⟩ := body_closing eof rest hclosing
        rw [hr'] at hr
        cases hr
        obtain ⟨hkind, hlexeme⟩ := (is_iff (by decide)).1 hclosing
        refine ⟨[t], congrArg (t :: ·) hrest.symm, Meaning.bodyPhrases_iff.2 (Or.inl ?_)⟩
        exact ⟨⟨t, hkind, hlexeme⟩, rfl, hvalue.symm⟩
      · rw [body_continued hclosing] at hr
        obtain ⟨read, hsplit, hread⟩ := hcontinued.sound hts hr
        exact ⟨read, hsplit, Meaning.bodyPhrases_iff.2 (Or.inr hread)⟩
  complete := by
    rintro read _ rest stmts hread - hl rfl -
    rcases Meaning.bodyPhrases_iff.1 hl with ⟨closing, rfl, rfl⟩ | hseq
    · exact body_closing eof rest (Terminal.is_token closing)
    · have htakes : Takes (continuedBody eof (read ++ rest)) stmts rest :=
        hcontinued.complete eof hread hseq rfl trivial
      obtain ⟨_, back, _, rfl, hs, -⟩ := hseq
      obtain ⟨t, front, rfl, hbehind⟩ := Meaning.statementPhrases_cons hs
      rw [List.cons_append, List.cons_append, body_continued (not_closing_of_behind hbehind)]
      exact htakes

theorem recognizes_body : Recognizes n body trees.bodyPhrases anything where
  reads eof := reads_body hcontinued eof
  follows _ _ := trivial
  stops := by
    intro eof ts e hts he
    cases ts with
    | nil =>
      rw [body_nil] at he
      cases he
      exact .ended trees.exists_bodyPhrases rfl rfl
    | cons t rest =>
      by_cases hclosing : t.is .delimiter (bytes "\x7d")
      · obtain ⟨r', hr', -⟩ := body_closing eof rest hclosing
        rw [hr'] at he
        cases he
      · rw [body_continued hclosing] at he
        cases hcontinued.stops hts he with
        | token read t' unread split begun found pos again =>
          obtain ⟨more, stmts, hseq⟩ := begun
          refine .token read t' unread split ⟨more, stmts, Meaning.bodyPhrases_iff.2 (Or.inr hseq)⟩ found pos
            fun eof' unread' => ?_
          -- the first token is the same, so it closes no loop here either
          cases read with
          | nil =>
            cases split
            exact (body_continued hclosing).trans (again eof' unread')
          | cons first read =>
            cases split
            exact (body_continued hclosing).trans (again eof' unread')
        | ended begun found pos =>
          obtain ⟨more, stmts, hseq⟩ := begun
          exact .ended ⟨more, stmts, Meaning.bodyPhrases_iff.2 (Or.inr hseq)⟩ found pos

end Body

/-- Statements and loop bodies, by induction on the bound: a loop's body has fewer tokens than the loop, and what
follows the first statement of a body has fewer than the body. -/
theorem recognizes_statement_body (n : Nat) :
    Recognizes n statement trees.statementPhrases anything ∧ Recognizes n body trees.bodyPhrases anything := by
  induction n using Nat.strongRecOn with
  | ind n ih =>
    cases n with
    | zero => exact ⟨.zero, .zero⟩
    | succ n =>
      have hbody : Recognizes (n - 1) body trees.bodyPhrases anything := (ih (n - 1) (by omega)).2
      have hstatement : Recognizes (n + 1) statement trees.statementPhrases anything :=
        recognizes_statement fun h => recognizes_tail hbody h
      refine ⟨hstatement, recognizes_body (hstatement.andThen (fun _ => (ih n (by omega)).2.map _) ?_ ?_)⟩
      · exact fun _ _ => trivial
      · exact fun _ => Phrases.exists_map trees.exists_bodyPhrases

end RatLang.Parse
