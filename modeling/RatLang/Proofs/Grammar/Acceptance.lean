import RatLang.Grammar.Accept
import RatLang.Proofs.Statement.Step
import RatLang.Proofs.Token.Scan

/-!
# What the grammar's reader accepts

The reader that follows the productions tells fixed words by their text alone. Where the texts go with the kinds,
as in the tokens of a scanned source, it accepts exactly the programs that have a derivation in which integers
are read in the base they announce, and returns the image of the derivation (`Grammar.statements_eq_ok_iff`).

Its parts are treated as the parser's are: each reads the phrases of its production (`Parse.Reads`), and statements
and loop bodies follow by induction on the number of tokens.
-/
namespace RatLang

/-! ### Images of derivations -/

namespace Derivation

variable {reads : Numeral.Reading}

/-- The operand that a derivation stands for. -/
def Operand.image : Operand reads → Grammar.Operand
  | integer _ value _ => .literal value
  | identifier name => .identifier name.token.lexeme

/-- The expression that a derivation stands for. -/
def Expression.image : Expression reads → Grammar.Expression
  | leaf operand => .leaf operand.image
  | chain operand operator rest => .chain operand.image operator.token.lexeme rest.image

mutual

/-- The statement that a derivation stands for. -/
def Statement.image : Statement reads → Grammar.Statement
  | .declaration _ names _ => .declaration names.texts
  | .assignment target _ value _ => .assignment target.token.lexeme value.image
  | .loop _ _ condition _ _ body _ => .loop condition.image body.images
  | .output _ _ value _ _ => .output value.image

/-- The statements that a derivation stands for. -/
def Statements.images : Statements reads → List Grammar.Statement
  | .none => []
  | .more first rest => first.image :: rest.images

end

end Derivation

namespace Grammar

open Parse (Reader Reads Takes Phrases Meaning terminal namesPhrases noOperator anything)
open RatLang.Derivation (Terminal Delimiter Names)

/-- Derivations mean their images. -/
def images : Meaning Numeral.Announced Expression Statement where
  expression := Derivation.Expression.image
  statement := Derivation.Statement.image
  statements := Derivation.Statements.images
  declaration _ names := .declaration names
  assignment target value := .assignment target.lexeme value
  loop _ condition body := .loop condition body
  output _ value := .output value
  statement_declaration := rfl
  statement_assignment := rfl
  statement_loop := rfl
  statement_output := rfl
  statements_none := rfl
  statements_more := rfl

/-! ### Fixed words -/

theorem takes_word (eof : Position) (missing : List Term) {kind : Kind} {w : String} (d : Terminal kind (bytes w))
    {ts rest : List Token} (h : ts = d.token :: rest) : Takes (word eof missing w ts) () rest := by
  subst h
  exact ⟨⟨(), rest, by simp⟩, by simp [word, d.lexeme_eq], rfl, rfl⟩

theorem reads_word (n : Nat) (eof : Position) (missing : List Term) {kind : Kind} {w : String}
    (h : (kind, bytes w) ∈ fixedTexts) :
    Reads n Token.Coherent (fun ts => word eof missing w ts) ((terminal kind (bytes w)).map fun _ => ())
      anything where
  sound := by
    intro ts r _ hfit hr
    cases ts with
    | nil => cases hr
    | cons t rest =>
      simp only [word] at hr
      split at hr
      · rename_i hlexeme
        cases hr
        have hkind : t.kind = kind := hfit t (List.mem_cons_self ..) _ h hlexeme
        exact ⟨[t], rfl, t, ⟨⟨t, hkind, hlexeme⟩, rfl, rfl⟩, rfl⟩
      · cases hr
  complete := by
    rintro _ ts rest _ - - ⟨_, ⟨d, rfl, rfl⟩, rfl⟩ hsplit -
    exact takes_word eof missing d hsplit

/-! ### Expressions -/

theorem operand?_eq_ok_some_iff {t : Token} {o : Operand} :
    operand? t = .ok (some o) ↔ ∃ d : Derivation.Operand Numeral.Announced, d.token = t ∧ d.image = o := by
  constructor
  · intro h
    unfold operand? at h
    split at h
    · rename_i hkind
      split at h
      · rename_i value hvalue
        cases h
        exact ⟨.integer ⟨t, hkind⟩ value hvalue, rfl, rfl⟩
      · cases h
    · rename_i hkind
      cases h
      exact ⟨.identifier ⟨t, hkind⟩, rfl, rfl⟩
    · cases h
  · rintro ⟨d, rfl, rfl⟩
    cases d with
    | integer literal value read =>
      have hread : Numeral.readInteger literal.token.lexeme = .ok value := read
      simp only [operand?, Derivation.Operand.token, Derivation.Operand.image, literal.kind_eq, hread]
    | identifier name =>
      simp only [operand?, Derivation.Operand.token, Derivation.Operand.image, name.kind_eq]

theorem expression?_sound {ts : List Token} {r : Parsed Expression ts.length} (h : expression? ts = .ok (some r)) :
    ∃ read, ts = read ++ r.rest ∧ images.expressionPhrases read r.value := by
  have hleaf : ∀ {t : Token} {left : Operand}, operand? t = .ok (some left) →
      images.expressionPhrases [t] (.leaf left) := by
    intro t left hleft
    obtain ⟨d, rfl, rfl⟩ := operand?_eq_ok_some_iff.1 hleft
    exact ⟨.leaf d, rfl, rfl⟩
  fun_induction expression? ts with
  | case1 => cases h
  | case2 => cases h
  | case3 => cases h
  | case4 t left hleft =>
    cases h
    exact ⟨[t], rfl, hleaf hleft⟩
  | case5 => cases h
  | case6 t left hleft op more hop hmore ih =>
    cases h
    exact ⟨[t], rfl, hleaf hleft⟩
  | case7 t left hleft op more hop right hright ih =>
    cases h
    obtain ⟨o, rfl, rfl⟩ := operand?_eq_ok_some_iff.1 hleft
    obtain ⟨read, hsplit, d, rfl, hd⟩ := ih hright
    refine ⟨o.token :: op :: d.yield, congrArg (o.token :: op :: ·) hsplit, .chain o ⟨op, hop⟩ d, rfl, ?_⟩
    exact congrArg (Expression.chain o.image op.lexeme) hd
  | case8 t left hleft op more hop =>
    cases h
    exact ⟨[t], rfl, hleaf hleft⟩

theorem expression?_complete (d : Derivation.Expression Numeral.Announced) : ∀ {ts rest : List Token},
    ts = d.yield ++ rest → noOperator rest.head? →
      ∃ r, expression? ts = .ok (some r) ∧ r.value = d.image ∧ r.rest = rest := by
  induction d with
  | leaf o =>
    rintro _ rest rfl hrest
    have ho : operand? o.token = .ok (some o.image) := operand?_eq_ok_some_iff.2 ⟨o, rfl, rfl⟩
    cases rest with
    | nil =>
      simp only [Derivation.Expression.yield, List.cons_append, List.nil_append, expression?, ho]
      exact ⟨_, rfl, rfl, rfl⟩
    | cons next rest =>
      have hnext : next.kind ≠ .operator := hrest next rfl
      simp only [Derivation.Expression.yield, List.cons_append, List.nil_append, expression?, ho, hnext, if_false]
      exact ⟨_, rfl, rfl, rfl⟩
  | chain o op d ih =>
    rintro _ rest rfl hrest
    have ho : operand? o.token = .ok (some o.image) := operand?_eq_ok_some_iff.2 ⟨o, rfl, rfl⟩
    obtain ⟨r, hr, hvalue, hleft⟩ := ih rfl hrest
    simp only [Derivation.Expression.yield, List.cons_append, expression?, ho, op.kind_eq, if_true, hr]
    exact ⟨_, rfl, congrArg (Expression.chain o.image op.token.lexeme) hvalue, hleft⟩

theorem reads_expression (n : Nat) (eof : Position) (missing : List Term) :
    Reads n Token.Coherent (fun ts => expression eof missing ts) images.expressionPhrases noOperator where
  sound := by
    intro ts r _ _ hr
    unfold expression at hr
    split at hr
    · cases hr
    · cases hr
    · rename_i e he
      cases hr
      exact expression?_sound he
  complete := by
    rintro _ ts rest _ - - ⟨d, rfl, rfl⟩ hsplit hrest
    obtain ⟨r, hr, hvalue, hleft⟩ := expression?_complete d hsplit hrest
    exact ⟨r, by simp only [expression, hr], hvalue, hleft⟩

/-! ### Declarations -/

theorem moreNames_sound {t : Token} {ts : List Token} (h : t.kind = .identifier) (hts : ∀ c ∈ ts, c.Coherent) :
    ∃ d : Names, t :: ts = d.yield ++ (moreNames ts).2 ∧ d.texts = t.lexeme :: (moreNames ts).1 := by
  fun_induction moreNames ts generalizing t with
  | case1 comma name rest hnext names last hmore ih =>
    simp only [Bool.and_eq_true, decide_eq_true_eq] at hnext
    simp only [List.forall_mem_cons] at hts
    have hkind : comma.kind = .delimiter := hts.1 (.delimiter, bytes ",") (by decide) hnext.1
    obtain ⟨d, hsplit, htexts⟩ := ih hnext.2 hts.2.2
    rw [hmore] at hsplit htexts
    refine ⟨.more ⟨t, h⟩ ⟨comma, hkind, hnext.1⟩ d, ?_, ?_⟩
    · rw [hsplit]
      rfl
    · rw [Names.texts, htexts]
  | case2 comma name rest hnext => exact ⟨.last ⟨t, h⟩, rfl, rfl⟩
  | case3 ts hshort => exact ⟨.last ⟨t, h⟩, rfl, rfl⟩

theorem moreNames_complete {semicolon : Token} (h : semicolon.lexeme ≠ bytes ",") (rest : List Token) (d : Names) :
    ∃ t more, t.kind = .identifier ∧ d.yield = t :: more ∧
      moreNames (more ++ semicolon :: rest) = (d.texts.tail, semicolon :: rest) ∧
      d.texts = t.lexeme :: d.texts.tail := by
  induction d with
  | last name =>
    refine ⟨name.token, [], name.kind_eq, rfl, ?_, rfl⟩
    cases rest with
    | nil => rfl
    | cons next rest => simp [moreNames, h, Names.texts]
  | more name comma d ih =>
    obtain ⟨t, more, hkind, hyield, hmore, htexts⟩ := ih
    refine ⟨name.token, comma.token :: d.yield, name.kind_eq, rfl, ?_, rfl⟩
    rw [hyield]
    simp only [List.cons_append, moreNames, comma.lexeme_eq, hkind, hmore]
    simp [Names.texts, ← htexts]

theorem reads_declarationTail (n : Nat) (eof : Position) :
    Reads n Token.Coherent (declarationTail eof) (namesPhrases.map .declaration) anything where
  sound := by
    intro ts r hts hfit hr
    unfold declarationTail at hr
    split at hr
    · cases hr
    rename_i t rest
    split at hr
    · rename_i hkind
      split at hr
      · cases hr
      rename_i last hlast
      cases hr
      rw [List.forall_mem_cons] at hfit
      obtain ⟨d, hsplit, htexts⟩ := moreNames_sound hkind hfit.2
      have hrest : ∀ c ∈ (moreNames rest).2, c.Coherent := by
        intro c hc
        have hmem : c ∈ t :: rest := hsplit ▸ List.mem_append_right d.yield hc
        exact (List.mem_cons.1 hmem).elim (fun heq => heq ▸ hfit.1) (hfit.2 c)
      obtain ⟨_, hlast, _, ⟨semicolon, rfl, rfl⟩, -⟩ :=
        (reads_word _ eof _ (show (.delimiter, bytes ";") ∈ fixedTexts by decide)).sound (Nat.lt_succ_self _)
          hrest hlast
      refine ⟨d.yield ++ [semicolon.token], ?_, _, ⟨d, semicolon, rfl, rfl⟩, congrArg Statement.declaration htexts⟩
      rw [List.append_assoc]
      exact hsplit.trans (congrArg (d.yield ++ ·) hlast)
    · cases hr
  complete := by
    rintro _ ts rest _ - - ⟨_, ⟨d, semicolon, rfl, rfl⟩, rfl⟩ rfl -
    have hcomma : semicolon.token.lexeme ≠ bytes "," := by
      rw [semicolon.lexeme_eq]
      decide
    obtain ⟨t, more, hkind, hyield, hmore, htexts⟩ := moreNames_complete hcomma rest d
    have hsplit : d.yield ++ [semicolon.token] ++ rest = t :: (more ++ semicolon.token :: rest) := by simp [hyield]
    have hrest : (moreNames (more ++ semicolon.token :: rest)).2 = semicolon.token :: rest := by rw [hmore]
    obtain ⟨r, hr, -, hleft⟩ := takes_word eof (declaration.drop 3) semicolon hrest
    rw [hsplit]
    simp only [declarationTail, hkind, if_true, hr]
    refine ⟨_, rfl, ?_, hleft⟩
    simp only [hmore, ← htexts]

/-! ### Readers in a row -/

theorem assignmentTail_eq (eof : Position) (target : Text) :
    (fun ts => assignmentTail eof target ts) =
      Reader.andThen (fun ts => word eof (assignment.drop 1) "=" ts) fun _ =>
        Reader.andThen (fun ts => expression eof (assignment.drop 2) ts) fun value =>
          Reader.map (fun _ => .assignment target value) fun ts => word eof (assignment.drop 3) ";" ts := by
  funext ts
  simp only [assignmentTail, Reader.andThen, Reader.map, bind, Except.bind]
  cases word eof (assignment.drop 1) "=" ts with
  | error e => rfl
  | ok sign =>
    simp only
    cases expression eof (assignment.drop 2) sign.rest with
    | error e => rfl
    | ok value =>
      simp only
      cases word eof (assignment.drop 3) ";" value.rest <;> rfl

theorem outputTail_eq (eof : Position) :
    outputTail eof =
      Reader.andThen (fun ts => word eof (output.drop 1) "(" ts) fun _ =>
        Reader.andThen (fun ts => expression eof (output.drop 2) ts) fun value =>
          Reader.andThen (fun ts => word eof (output.drop 3) ")" ts) fun _ =>
            Reader.map (fun _ => .output value) fun ts => word eof (output.drop 4) ";" ts := by
  funext ts
  simp only [outputTail, Reader.andThen, Reader.map, bind, Except.bind]
  cases word eof (output.drop 1) "(" ts with
  | error e => rfl
  | ok left =>
    simp only
    cases expression eof (output.drop 2) left.rest with
    | error e => rfl
    | ok value =>
      simp only
      cases word eof (output.drop 3) ")" value.rest with
      | error e => rfl
      | ok right =>
        simp only
        cases word eof (output.drop 4) ";" right.rest <;> rfl

theorem condition_eq (eof : Position) :
    condition eof =
      Reader.andThen (fun ts => word eof (loop.drop 1) "(" ts) fun _ =>
        Reader.andThen (fun ts => expression eof (loop.drop 2) ts) fun value =>
          Reader.andThen (fun ts => word eof (loop.drop 3) ")" ts) fun _ =>
            Reader.map (fun _ => value) fun ts => word eof (loop.drop 4) "\x7b" ts := by
  funext ts
  simp only [condition, Reader.andThen, Reader.map, bind, Except.bind]
  cases word eof (loop.drop 1) "(" ts with
  | error e => rfl
  | ok left =>
    simp only
    cases expression eof (loop.drop 2) left.rest with
    | error e => rfl
    | ok value =>
      simp only
      cases word eof (loop.drop 3) ")" value.rest with
      | error e => rfl
      | ok right =>
        simp only
        cases word eof (loop.drop 4) "\x7b" right.rest <;> rfl

section Rows

variable {α : Type} (n : Nat) (eof : Position)

/-- A fixed word as the last part of a production. -/
theorem reads_last (missing : List Term) {kind : Kind} {w : String} (h : (kind, bytes w) ∈ fixedTexts) (a : α) :
    Reads n Token.Coherent (Reader.map (fun _ => a) fun ts => word eof missing w ts)
      ((terminal kind (bytes w)).map fun _ => a) anything := by
  have hmap := (reads_word n eof missing h).map fun _ => a
  rwa [Phrases.map_map] at hmap

/-- A fixed word and what comes behind it. -/
theorem reads_word_andThen (missing : List Term) {kind : Kind} {w : String} (h : (kind, bytes w) ∈ fixedTexts)
    {q : Reader Rejection α} {l : Phrases α} (hq : Reads (n - 1) Token.Coherent q l anything) :
    Reads n Token.Coherent (Reader.andThen (fun ts => word eof missing w ts) fun _ => q)
      ((terminal kind (bytes w)).seq fun _ => l) anything := by
  have hrow := (reads_word n eof missing h).andThen (fun _ => hq) (fun _ _ => trivial)
  rwa [Phrases.seq_map] at hrow

theorem reads_closed (missing missing' : List Term) {w : String} (h : (.delimiter, bytes w) ∈ fixedTexts)
    (f : Expression → α) :
    Reads n Token.Coherent
      (Reader.andThen (fun ts => expression eof missing ts) fun value =>
        Reader.map (fun _ => f value) fun ts => word eof missing' w ts)
      (images.closedPhrases w f) anything := by
  refine (reads_expression n eof missing).andThen (fun value => reads_last _ eof missing' h (f value)) ?_
  rintro _ _ _ _ ⟨t, ht, -⟩ -
  exact Parse.noOperator_terminal ht

theorem reads_enclosed (missing missing' missing'' : List Term) {right last : String}
    (hright : (.delimiter, bytes right) ∈ fixedTexts) (hlast : (.delimiter, bytes last) ∈ fixedTexts)
    (f : Expression → α) :
    Reads n Token.Coherent
      (Reader.andThen (fun ts => expression eof missing ts) fun value =>
        Reader.andThen (fun ts => word eof missing' right ts) fun _ =>
          Reader.map (fun _ => f value) fun ts => word eof missing'' last ts)
      (images.enclosedPhrases right last f) anything := by
  refine (reads_expression n eof missing).andThen
    (fun value => reads_word_andThen _ eof missing' hright (reads_last _ eof missing'' hlast (f value))) ?_
  rintro _ _ _ rest ⟨front, back, t, rfl, ht, -⟩ -
  rw [List.append_assoc]
  exact Parse.noOperator_terminal ht

theorem reads_assignmentTail (target : Token) :
    Reads n Token.Coherent (fun ts => assignmentTail eof target.lexeme ts)
      ((terminal .assign (bytes "=")).seq fun _ => images.closedPhrases ";" (images.assignment target)) anything := by
  rw [assignmentTail_eq]
  exact reads_word_andThen n eof _ (by decide) (reads_closed _ eof _ _ (by decide) _)

theorem reads_outputTail (kw : Token) :
    Reads n Token.Coherent (outputTail eof)
      ((terminal .delimiter (bytes "(")).seq fun _ => images.enclosedPhrases ")" ";" (images.output kw)) anything := by
  rw [outputTail_eq]
  exact reads_word_andThen n eof _ (by decide) (reads_enclosed _ eof _ _ _ (by decide) (by decide) _)

theorem reads_condition :
    Reads n Token.Coherent (condition eof)
      ((terminal .delimiter (bytes "(")).seq fun _ => images.enclosedPhrases ")" "\x7b" id) anything := by
  rw [condition_eq]
  exact reads_word_andThen n eof _ (by decide) (reads_enclosed _ eof _ _ _ (by decide) (by decide) id)

end Rows

/-! ### Statements -/

/-- What follows `while`. -/
def loopTail (eof : Position) : Reader Rejection Statement :=
  Reader.andThen (condition eof) fun value => Reader.map (.loop value) (body eof)

/-- How a statement goes on behind its first token, if that token begins one. -/
def tail? (t : Token) (eof : Position) : Option (Reader Rejection Statement) :=
  if t.lexeme = bytes "integer" then some (declarationTail eof)
  else if t.lexeme = bytes "while" then some (loopTail eof)
  else if t.lexeme = bytes "put" then some (outputTail eof)
  else if t.kind = .identifier then some fun ts => assignmentTail eof t.lexeme ts
  else none

theorem statement?_of_tail {eof : Position} {t : Token} {rest : List Token} {p : Reader Rejection Statement}
    (h : tail? t eof = some p) :
    statement? eof (t :: rest) = (p rest).map fun s => some (s.within (Nat.le_succ _)) := by
  unfold tail? at h
  rw [statement?]
  split at h
  · rename_i hinteger
    cases h
    rw [if_pos hinteger]
  rename_i hinteger
  split at h
  · rename_i hwhile
    cases h
    rw [if_neg hinteger, if_pos hwhile]
    simp only [loopTail, Reader.andThen, Reader.map]
    cases condition eof rest with
    | error e => rfl
    | ok value =>
      simp only
      cases body eof value.rest <;> rfl
  rename_i hwhile
  split at h
  · rename_i hput
    cases h
    rw [if_neg hinteger, if_neg hwhile, if_pos hput]
  rename_i hput
  split at h
  · rename_i hkind
    cases h
    rw [if_neg hinteger, if_neg hwhile, if_neg hput, if_pos hkind]
  · cases h

theorem statement?_of_no_tail {eof : Position} {t : Token} {rest : List Token} (h : tail? t eof = none) :
    statement? eof (t :: rest) = .ok none := by
  unfold tail? at h
  rw [statement?]
  split at h
  · cases h
  split at h
  · cases h
  split at h
  · cases h
  split at h
  · cases h
  · simp [*]

theorem reads_loopTail {n : Nat} {eof : Position}
    (hbody : Reads (n - 1) Token.Coherent (body eof) images.bodyPhrases anything) (kw : Token) :
    Reads n Token.Coherent (loopTail eof)
      (((terminal .delimiter (bytes "(")).seq fun _ => images.enclosedPhrases ")" "\x7b" id).seq fun value =>
        images.bodyPhrases.map (images.loop kw value)) anything :=
  (reads_condition n eof).andThen (fun _ => hbody.map _) (fun _ _ => trivial)

theorem reads_tail {n : Nat} {eof : Position}
    (hbody : Reads (n - 1) Token.Coherent (body eof) images.bodyPhrases anything)
    {t : Token} (ht : t.Coherent) {p : Reader Rejection Statement} (h : tail? t eof = some p) :
    Reads n Token.Coherent p (images.behind t) anything := by
  unfold tail? at h
  have hne := Parse.keywords_ne
  split at h
  · rename_i hlexeme
    cases h
    have hkind : t.kind = .keyword := ht (.keyword, bytes "integer") (by decide) hlexeme
    exact (reads_declarationTail n eof).congr fun ts s => by simp [Meaning.behind_iff, hkind, hlexeme, hne, images]
  split at h
  · rename_i hlexeme
    cases h
    have hkind : t.kind = .keyword := ht (.keyword, bytes "while") (by decide) hlexeme
    exact (reads_loopTail hbody t).congr fun ts s => by simp [Meaning.behind_iff, hkind, hlexeme, hne]
  split at h
  · rename_i hlexeme
    cases h
    have hkind : t.kind = .keyword := ht (.keyword, bytes "put") (by decide) hlexeme
    exact (reads_outputTail n eof t).congr fun ts s => by simp [Meaning.behind_iff, hkind, hlexeme, hne]
  split at h
  · rename_i hkind
    cases h
    exact (reads_assignmentTail n eof t).congr fun ts s => by simp [Meaning.behind_iff, hkind]
  · cases h

theorem exists_tail {t : Token} {ts : List Token} {s : Statement} (h : images.behind t ts s) (eof : Position) :
    ∃ p, tail? t eof = some p := by
  rcases Meaning.behind_iff.1 h with ⟨-, hlexeme, -⟩ | ⟨hkind, -⟩ | ⟨-, hlexeme, -⟩ | ⟨-, hlexeme, -⟩
  · simp [tail?, hlexeme]
  · simp only [tail?, hkind, if_true]
    split
    · exact ⟨_, rfl⟩
    split
    · exact ⟨_, rfl⟩
    split
    · exact ⟨_, rfl⟩
    · exact ⟨_, rfl⟩
  · simp [tail?, hlexeme, Parse.keywords_ne]
  · simp [tail?, hlexeme, Parse.keywords_ne]

/-- A statement that has to be there. -/
def statement (eof : Position) : Reader Rejection Statement := fun ts =>
  match statement? eof ts with
  | .error e => .error e
  | .ok none => .error (unexpected eof [] ts)
  | .ok (some s) => .ok s

theorem statement_eq_ok_iff {eof : Position} {ts : List Token} {r : Parsed Statement ts.length} :
    statement eof ts = .ok r ↔ statement? eof ts = .ok (some r) := by
  unfold statement
  split <;> simp [*]

theorem reads_statement {n : Nat} {eof : Position}
    (htail : ∀ {t : Token} {p}, t.Coherent → tail? t eof = some p →
      Reads (n - 1) Token.Coherent p (images.behind t) anything) :
    Reads n Token.Coherent (statement eof) images.statementPhrases anything where
  sound := by
    intro ts r hts hfit hr
    rw [statement_eq_ok_iff] at hr
    cases ts with
    | nil =>
      rw [statement?] at hr
      cases hr
    | cons t rest =>
      simp only [List.length_cons] at hts
      rw [List.forall_mem_cons] at hfit
      cases htail? : tail? t eof with
      | none =>
        rw [statement?_of_no_tail htail?] at hr
        cases hr
      | some p =>
        rw [statement?_of_tail htail?] at hr
        obtain ⟨r', hr', heq⟩ := exists_of_map_eq_ok hr
        cases heq
        obtain ⟨read, hsplit, hread⟩ := (htail hfit.1 htail?).sound (by omega) hfit.2 hr'
        exact ⟨t :: read, congrArg (t :: ·) hsplit, hread⟩
  complete := by
    rintro read ts rest s hread hfit hs rfl -
    obtain ⟨t, read, rfl, hbehind⟩ := Meaning.statementPhrases_cons hs
    obtain ⟨p, hp⟩ := exists_tail hbehind eof
    simp only [List.length_cons] at hread
    rw [List.forall_mem_cons] at hfit
    obtain ⟨r, hr, hvalue, hrest⟩ := (htail hfit.1 hp).complete (by omega) hfit.2 hbehind rfl trivial
    have hok : statement? eof (t :: (read ++ rest)) = .ok (some (r.within (Nat.le_succ _))) := by
      rw [statement?_of_tail hp, hr]
      rfl
    exact ⟨_, statement_eq_ok_iff.2 hok, hvalue, hrest⟩

/-! ### Loop bodies -/

/-- A loop's body that does not end at once: a statement and another body. -/
def continuedBody (eof : Position) : Reader Rejection (List Statement) :=
  Reader.andThen (statement eof) fun s => Reader.map (s :: ·) (body eof)

theorem body_of_none {eof : Position} {ts : List Token} (h : statement? eof ts = .ok none) :
    body eof ts = Reader.map (fun _ => []) (fun ts => word eof (loop.drop 6) "\x7d" ts) ts := by
  rw [body, h]
  rfl

theorem body_eq_ok_iff_of_some {eof : Position} {ts : List Token} {first : Parsed Statement ts.length}
    (h : statement? eof ts = .ok (some first)) {r : Parsed (List Statement) ts.length} :
    body eof ts = .ok r ↔ continuedBody eof ts = .ok r := by
  rw [body, h]
  simp only [continuedBody, Reader.andThen, Reader.map, statement_eq_ok_iff.2 h]
  cases body eof first.rest with
  | error e => simp [Except.map]
  | ok others => rfl

/-- No statement begins with the brace that closes a loop. -/
theorem statement?_closing (eof : Position) (closing : Delimiter "\x7d") (rest : List Token) :
    statement? eof (closing.token :: rest) = .ok none := by
  apply statement?_of_no_tail
  rw [tail?, closing.lexeme_eq, closing.kind_eq, if_neg (by decide), if_neg (by decide), if_neg (by decide),
    if_neg (by decide)]

theorem reads_body {n : Nat} {eof : Position}
    (hcontinued : Reads n Token.Coherent (continuedBody eof)
      (images.statementPhrases.seq fun s => images.bodyPhrases.map (s :: ·)) anything) :
    Reads n Token.Coherent (body eof) images.bodyPhrases anything where
  sound := by
    intro ts r hts hfit hr
    cases hfirst : statement? eof ts with
    | error e =>
      rw [body, hfirst] at hr
      cases hr
    | ok first? =>
      cases first? with
      | none =>
        rw [body_of_none hfirst] at hr
        obtain ⟨read, hsplit, _, ⟨closing, rfl, rfl⟩, hvalue⟩ :=
          (reads_last n eof _ (show (.delimiter, bytes "\x7d") ∈ fixedTexts by decide) []).sound hts hfit hr
        exact ⟨_, hsplit, Meaning.bodyPhrases_iff.2 (Or.inl ⟨closing, rfl, hvalue⟩)⟩
      | some first =>
        rw [body_eq_ok_iff_of_some hfirst] at hr
        obtain ⟨read, hsplit, hread⟩ := hcontinued.sound hts hfit hr
        exact ⟨read, hsplit, Meaning.bodyPhrases_iff.2 (Or.inr hread)⟩
  complete := by
    rintro read _ rest stmts hread hfit hl rfl -
    rcases Meaning.bodyPhrases_iff.1 hl with ⟨closing, rfl, rfl⟩ | hseq
    · have hbrace : Takes (word eof (loop.drop 6) "\x7d" (closing.token :: rest)) () rest :=
        takes_word eof _ closing rfl
      obtain ⟨r, hr, -, hrest⟩ := hbrace
      refine ⟨r.map fun _ => [], ?_, rfl, hrest⟩
      refine (body_of_none (statement?_closing eof closing rest)).trans ?_
      simp [Reader.map, hr, Except.map]
    · obtain ⟨r, hr, hvalue, hrest⟩ := hcontinued.complete hread hfit hseq rfl trivial
      refine ⟨r, ?_, hvalue, hrest⟩
      -- a continued body begins with a statement, so the brace is not looked for
      cases hfirst : statement eof (read ++ rest) with
      | error e => simp [continuedBody, Reader.andThen, hfirst] at hr
      | ok first => exact (body_eq_ok_iff_of_some (statement_eq_ok_iff.1 hfirst)).2 hr

/-- Statements and loop bodies, by induction on the bound as for the parser. -/
theorem reads_statement_body (n : Nat) (eof : Position) :
    Reads n Token.Coherent (statement eof) images.statementPhrases anything ∧
      Reads n Token.Coherent (body eof) images.bodyPhrases anything := by
  induction n using Nat.strongRecOn with
  | ind n ih =>
    cases n with
    | zero => exact ⟨.zero, .zero⟩
    | succ n =>
      have hbody : Reads (n - 1) Token.Coherent (body eof) images.bodyPhrases anything := (ih (n - 1) (by omega)).2
      have hstatement : Reads (n + 1) Token.Coherent (statement eof) images.statementPhrases anything :=
        reads_statement fun ht h => reads_tail hbody ht h
      exact ⟨hstatement, reads_body (hstatement.andThen (fun _ => (ih n (by omega)).2.map _) fun _ _ => trivial)⟩

/-! ### Programs -/

theorem statements_sound {eof : Position} {ts : List Token} {program : List Statement}
    (hfit : ∀ t ∈ ts, t.Coherent) (h : statements eof ts = .ok program) :
    ∃ d : Derivation.Program Numeral.Announced, d.yield = ts ∧ d.images = program := by
  fun_induction statements eof ts generalizing program with
  | case1 => cases h
  | case2 =>
    cases h
    exact ⟨.none, rfl, rfl⟩
  | case3 => cases h
  | case4 => cases h
  | case5 ts first hfirst others hothers ih =>
    cases h
    obtain ⟨read, hsplit, d, rfl, hd⟩ :=
      (reads_statement_body _ eof).1.sound (Nat.lt_succ_self _) hfit (statement_eq_ok_iff.2 hfirst)
    have hrest : ∀ t ∈ first.rest, t.Coherent := by
      intro t ht
      apply hfit
      rw [hsplit]
      exact List.mem_append_right _ ht
    obtain ⟨ds, hyield, himages⟩ := ih hrest hothers
    refine ⟨.more d ds, ?_, ?_⟩
    · rw [Derivation.Statements.yield, hyield]
      exact hsplit.symm
    · rw [Derivation.Statements.images, himages]
      exact congrArg (· :: others) hd

theorem statements_complete (eof : Position) : ∀ d : Derivation.Program Numeral.Announced,
    (∀ t ∈ d.yield, t.Coherent) → statements eof d.yield = .ok d.images
  | .none, _ => by
    rw [Derivation.Statements.yield, statements, statement?]
    rfl
  | .more first rest, hfit => by
    rw [Derivation.Statements.yield, List.forall_mem_append] at hfit
    obtain ⟨r, hr, hvalue, hrest⟩ := (reads_statement_body (first.yield.length + 1) eof).1.complete
      (Nat.lt_succ_self _) hfit.1 ⟨first, rfl, rfl⟩ rfl trivial
    have hothers : statements eof r.rest = .ok rest.images :=
      (congrArg (statements eof) hrest).trans (statements_complete eof rest hfit.2)
    rw [Derivation.Statements.yield, statements.eq_def, statement_eq_ok_iff.1 hr]
    simp only [hothers, hvalue]
    rfl

/-- Where the texts of the tokens go with their kinds, the grammar's reader returns the images of the derivations
in which integers are read in the base they announce. -/
theorem statements_eq_ok_iff {eof : Position} {ts : List Token} {program : List Statement}
    (hfit : ∀ t ∈ ts, t.Coherent) :
    statements eof ts = .ok program ↔
      ∃ d : Derivation.Program Numeral.Announced, d.yield = ts ∧ d.images = program := by
  constructor
  · exact statements_sound hfit
  · rintro ⟨d, rfl, rfl⟩
    exact statements_complete eof d hfit

theorem accept_eq_ok_iff {file src : Text} {program : List Statement} :
    accept file src = .ok program ↔
      ∃ d : Derivation.Program Numeral.Announced, d.yield = Source.plainTokens file src ∧ d.images = program :=
  statements_eq_ok_iff fun _ => Source.coherent_of_mem_plainTokens

end Grammar

end RatLang
