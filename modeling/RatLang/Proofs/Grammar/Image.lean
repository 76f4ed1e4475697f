import Mathlib.Data.List.Forall2
import RatLang.Proofs.Grammar.Acceptance

/-!
# Images of the parser's trees

The parser and the grammar's reader build different trees, and they may read the integers differently. A tree of the
parser has an image among the trees of the grammar once its literals are given values: `Stmt.images?` takes them from
a list, in the order of the source.

How integers are written does not matter to the rest of a derivation. Tokens that differ only in the texts of
integers have the same derivations, as long as the integers can be read, and the parser's tree of one has the
grammar's tree of the other for an image (`Derivation.Statements.exists_restated`).
-/
namespace RatLang

/-! ### The values of literals -/

/-- The value of an integer, by a way to read it. -/
def Token.value? (read : Text → Except NumeralError Int64) (t : Token) : Option Int64 :=
  if t.kind = .integer then (read t.lexeme).toOption else none

/-- The values of the integers among some tokens. -/
def Token.values (read : Text → Except NumeralError Int64) (ts : List Token) : List Int64 :=
  ts.filterMap (value? read)

/-- What is supplied with values and uses them up from the front. -/
abbrev Supplied := StateT (List Int64) Option

namespace Supplied

variable {α β : Type}

/-- The next value. -/
def next : Supplied Int64 := fun
  | [] => none
  | v :: values => some (v, values)

/-- Exactly the given values are used up, and the result is the given one. -/
def Gives (m : Supplied α) (values : List Int64) (a : α) : Prop := ∀ rest, m.run (values ++ rest) = some (a, rest)

theorem gives_next (v : Int64) : Gives next [v] v := fun _ => rfl

theorem gives_pure (a : α) : Gives (pure a) [] a := fun _ => rfl

theorem Gives.bind {m : Supplied α} {f : α → Supplied β} {values values' : List Int64} {a : α} {b : β}
    (hm : Gives m values a) (hf : Gives (f a) values' b) : Gives (m >>= f) (values ++ values') b := by
  intro rest
  rw [List.append_assoc, StateT.run_bind, hm]
  exact hf rest

theorem Gives.map {m : Supplied α} {values : List Int64} {a : α} (hm : Gives m values a) (f : α → β) :
    Gives (do return f (← m)) values (f a) := by
  rw [← List.append_nil values]
  exact hm.bind (gives_pure (f a))

end Supplied

/-! ### The tree map -/

/-- The image of a literal or an identifier. -/
def Expr.operand? : Expr → Supplied Grammar.Operand
  | .literal .. => return .literal (← Supplied.next)
  | .identifier _ name => return .identifier name
  | .binary .. => failure

/-- The image of an expression whose left operands are single. -/
def Expr.image? : Expr → Supplied Grammar.Expression
  | .binary _ operator left right => return .chain (← left.operand?) operator (← right.image?)
  | single => return .leaf (← single.operand?)

mutual

/-- The image of a statement. -/
def Stmt.image? : Stmt → Supplied Grammar.Statement
  | .declaration _ _ names => return .declaration names
  | .assignment _ target value => return .assignment target (← value.image?)
  | .output _ value => return .output (← value.image?)
  | .loop _ condition body => return .loop (← condition.image?) (← Stmt.images? body)

/-- The images of some statements. -/
def Stmt.images? : List Stmt → Supplied (List Grammar.Statement)
  | [] => return []
  | s :: stmts => return (← s.image?) :: (← Stmt.images? stmts)

end

/-! ### Restated tokens -/

/-- An integer can be read. -/
def Token.Readable (reads : Numeral.Reading) (t : Token) : Prop := t.kind = .integer → ∃ v, reads t.lexeme v

/-- Another token in the place of one: only the text of an integer may differ, and if it could be read before, it can
be read now. -/
structure Token.Restates (reads reads' : Numeral.Reading) (t t' : Token) : Prop where
  kind : t'.kind = t.kind
  lexeme : t.kind ≠ .integer → t'.lexeme = t.lexeme
  readable : t.Readable reads → t'.Readable reads'

theorem Token.restates_self {reads reads' : Numeral.Reading} {ts : List Token} (h : ∀ t ∈ ts, t.Readable reads') :
    List.Forall₂ (Restates reads reads') ts ts :=
  List.forall₂_same.2 fun t ht => ⟨rfl, fun _ => rfl, fun _ => h t ht⟩

theorem exists_of_forall₂_append {α β : Type} {R : α → β → Prop} {as bs : List α} : ∀ {cs : List β},
    List.Forall₂ R (as ++ bs) cs → ∃ us vs, List.Forall₂ R as us ∧ List.Forall₂ R bs vs ∧ cs = us ++ vs := by
  induction as with
  | nil => exact fun h => ⟨[], _, .nil, h, rfl⟩
  | cons a as ih =>
    rintro _ (_ | ⟨ha, hrest⟩)
    obtain ⟨us, vs, hus, hvs, rfl⟩ := ih hrest
    exact ⟨_ :: us, vs, .cons ha hus, hvs, rfl⟩

namespace Derivation

open Supplied (Gives gives_next gives_pure)

variable {kind : Kind} {lexeme : Text} {reads reads' : Numeral.Reading} {read : Text → Except NumeralError Int64}

/-- The new token in the place of the old one. -/
def Lexical.restate (s : Lexical kind) {t : Token} (h : s.token.Restates reads reads' t) : Lexical kind :=
  ⟨t, h.kind.trans s.kind_eq⟩

theorem Lexical.lexeme_restate (s : Lexical kind) {t : Token} (h : s.token.Restates reads reads' t)
    (hkind : kind ≠ .integer) : (s.restate h).token.lexeme = s.token.lexeme :=
  h.lexeme (s.kind_eq.trans_ne hkind)

/-- The new token in the place of the old one. -/
def Terminal.restate (s : Terminal kind lexeme) {t : Token} (h : s.token.Restates reads reads' t)
    (hkind : kind ≠ .integer) : Terminal kind lexeme :=
  ⟨t, h.kind.trans s.kind_eq, (h.lexeme (s.kind_eq.trans_ne hkind)).trans s.lexeme_eq⟩

@[simp] theorem Lexical.values_cons (s : Lexical kind) (ts : List Token) (h : kind ≠ .integer) :
    Token.values read (s.token :: ts) = Token.values read ts := by
  simp [Token.values, Token.value?, s.kind_eq, h]

@[simp] theorem Terminal.values_cons (s : Terminal kind lexeme) (ts : List Token) (h : kind ≠ .integer) :
    Token.values read (s.token :: ts) = Token.values read ts := by
  simp [Token.values, Token.value?, s.kind_eq, h]

@[simp] theorem values_append (ts ts' : List Token) :
    Token.values read (ts ++ ts') = Token.values read ts ++ Token.values read ts' := List.filterMap_append

@[simp] theorem values_nil : Token.values read [] = [] := rfl

@[simp] theorem Names.values_yield (d : Names) : Token.values read d.yield = [] := by
  induction d with
  | last name => simp [yield]
  | more name comma rest ih => simp [yield, ih]

theorem Names.exists_restated (d : Names) : ∀ {ts : List Token},
    List.Forall₂ (Token.Restates reads reads') d.yield ts → ∃ d' : Names, d'.yield = ts ∧ d'.texts = d.texts := by
  induction d with
  | last name =>
    rintro _ (_ | ⟨hname, ⟨⟩⟩)
    refine ⟨.last (name.restate hname), rfl, ?_⟩
    rw [texts, name.lexeme_restate hname (by decide), texts]
  | more name comma rest ih =>
    rintro _ (_ | ⟨hname, _ | ⟨hcomma, hrest⟩⟩)
    obtain ⟨rest', rfl, htexts⟩ := ih hrest
    refine ⟨.more (name.restate hname) (comma.restate hcomma (by decide)) rest', rfl, ?_⟩
    rw [texts, name.lexeme_restate hname (by decide), htexts, texts]

/-- The one place where a value is used up. -/
theorem Operand.exists_restated (hread : reads.By read) (o : Operand reads) {t : Token}
    (h : o.token.Restates reads reads' t) :
    ∃ o' : Operand reads', o'.token = t ∧ Gives o'.tree.operand? (Token.values read [o.token]) o.image := by
  cases o with
  | integer literal value hvalue =>
    obtain ⟨value', hvalue'⟩ := h.readable (fun _ => ⟨value, hvalue⟩) (h.kind.trans literal.kind_eq)
    refine ⟨.integer (literal.restate h) value' hvalue', rfl, ?_⟩
    have hvalues : Token.values read [literal.token] = [value] := by
      simp [Token.values, Token.value?, literal.kind_eq, hread _ _ hvalue, Except.toOption]
    rw [token, hvalues]
    exact (gives_next value).map _
  | identifier name =>
    refine ⟨.identifier (name.restate h), rfl, ?_⟩
    rw [token, tree, name.lexeme_restate h (by decide), name.values_cons _ (by decide)]
    exact gives_pure _

theorem Operand.image?_tree (o : Operand reads) : o.tree.image? = do return .leaf (← o.tree.operand?) := by
  cases o with
  | integer => rfl
  | identifier => rfl

theorem Expression.exists_restated (hread : reads.By read) (d : Expression reads) :
    ∀ {ts : List Token}, List.Forall₂ (Token.Restates reads reads') d.yield ts →
      ∃ d' : Expression reads', d'.yield = ts ∧ Gives d'.tree.image? (Token.values read d.yield) d.image := by
  induction d with
  | leaf o =>
    rintro _ (_ | ⟨ho, ⟨⟩⟩)
    obtain ⟨o', rfl, hgives⟩ := o.exists_restated hread ho
    refine ⟨.leaf o', rfl, ?_⟩
    rw [tree, o'.image?_tree]
    exact hgives.map _
  | chain o op rest ih =>
    rintro _ (_ | ⟨ho, _ | ⟨hop, hrest⟩⟩)
    obtain ⟨o', rfl, hgives⟩ := o.exists_restated hread ho
    obtain ⟨rest', rfl, hgives'⟩ := ih hrest
    refine ⟨.chain o' (op.restate hop) rest', rfl, ?_⟩
    have hvalues : Token.values read (o.token :: op.token :: rest.yield) =
        Token.values read [o.token] ++ Token.values read rest.yield := by
      rw [← op.values_cons rest.yield (by decide), ← values_append, List.singleton_append]
    rw [yield, hvalues, tree, op.lexeme_restate hop (by decide)]
    exact hgives.bind (hgives'.map _)

mutual

theorem Statement.exists_restated (hread : reads.By read) : ∀ (d : Statement reads)
    {ts : List Token}, List.Forall₂ (Token.Restates reads reads') d.yield ts →
      ∃ d' : Statement reads', d'.yield = ts ∧ Gives d'.tree.image? (Token.values read d.yield) d.image
  | .declaration keyword names semicolon, _, .cons hkeyword h => by
    -- the new tokens are cut where the parts of the derivation meet
    obtain ⟨_, _, hnames, _ | ⟨hsemicolon, ⟨⟩⟩, rfl⟩ := exists_of_forall₂_append h
    obtain ⟨names', rfl, htexts⟩ := names.exists_restated hnames
    refine ⟨.declaration (keyword.restate hkeyword (by decide)) names' (semicolon.restate hsemicolon (by decide)),
      rfl, ?_⟩
    simpa [Statement.yield, Statement.tree, Statement.image, htexts, Stmt.image?] using gives_pure _
  | .assignment target sign value semicolon, _, .cons htarget (.cons hsign h) => by
    obtain ⟨_, _, hvalue, _ | ⟨hsemicolon, ⟨⟩⟩, rfl⟩ := exists_of_forall₂_append h
    obtain ⟨value', rfl, hgives⟩ := value.exists_restated hread hvalue
    refine ⟨.assignment (target.restate htarget) (sign.restate hsign (by decide)) value'
      (semicolon.restate hsemicolon (by decide)), rfl, ?_⟩
    simpa [Statement.yield, Statement.tree, Statement.image, target.lexeme_restate htarget, Stmt.image?]
      using hgives.map _
  | .loop keyword left condition right opening body closing, _, .cons hkeyword (.cons hleft h) => by
    obtain ⟨_, _, hcondition, _ | ⟨hright, _ | ⟨hopening, hrest⟩⟩, rfl⟩ := exists_of_forall₂_append h
    obtain ⟨_, _, hbody, _ | ⟨hclosing, ⟨⟩⟩, rfl⟩ := exists_of_forall₂_append hrest
    obtain ⟨condition', rfl, hgives⟩ := condition.exists_restated hread hcondition
    obtain ⟨body', rfl, hgives'⟩ := Statements.exists_restated hread body hbody
    refine ⟨.loop (keyword.restate hkeyword (by decide)) (left.restate hleft (by decide)) condition'
      (right.restate hright (by decide)) (opening.restate hopening (by decide)) body'
      (closing.restate hclosing (by decide)), rfl, ?_⟩
    simpa [Statement.yield, Statement.tree, Statement.image, Stmt.image?] using hgives.bind (hgives'.map _)
  | .output keyword left value right semicolon, _, .cons hkeyword (.cons hleft h) => by
    obtain ⟨_, _, hvalue, _ | ⟨hright, _ | ⟨hsemicolon, ⟨⟩⟩⟩, rfl⟩ := exists_of_forall₂_append h
    obtain ⟨value', rfl, hgives⟩ := value.exists_restated hread hvalue
    refine ⟨.output (keyword.restate hkeyword (by decide)) (left.restate hleft (by decide)) value'
      (right.restate hright (by decide)) (semicolon.restate hsemicolon (by decide)), rfl, ?_⟩
    simpa [Statement.yield, Statement.tree, Statement.image, Stmt.image?] using hgives.map _

/-- Where the integers of a derivation are restated, there is a derivation of the new tokens, and the image of its
tree, with the values of the old integers, is that of the old derivation. -/
theorem Statements.exists_restated (hread : reads.By read) : ∀ (d : Statements reads)
    {ts : List Token}, List.Forall₂ (Token.Restates reads reads') d.yield ts →
      ∃ d' : Statements reads', d'.yield = ts ∧ Gives (Stmt.images? d'.trees) (Token.values read d.yield) d.images
  | .none, ts, h => by
    cases h
    exact ⟨.none, rfl, gives_pure _⟩
  | .more first rest, ts, h => by
    obtain ⟨_, _, hfirst, hrest, rfl⟩ := exists_of_forall₂_append h
    obtain ⟨first', rfl, hgives⟩ := Statement.exists_restated hread first hfirst
    obtain ⟨rest', rfl, hgives'⟩ := Statements.exists_restated hread rest hrest
    refine ⟨.more first' rest', rfl, ?_⟩
    simpa [Statements.yield, Statements.trees, Statements.images, Stmt.images?] using hgives.bind (hgives'.map _)

end

/-! ### The integers of a derivation -/

open List (forall_mem_cons forall_mem_append forall_mem_singleton)

theorem Lexical.readable (s : Lexical kind) (h : kind ≠ .integer) : s.token.Readable reads :=
  fun hinteger => absurd (s.kind_eq.symm.trans hinteger) h

theorem Terminal.readable (s : Terminal kind lexeme) (h : kind ≠ .integer) : s.token.Readable reads :=
  fun hinteger => absurd (s.kind_eq.symm.trans hinteger) h

theorem Expression.readable (d : Expression reads) : ∀ t ∈ d.yield, t.Readable reads := by
  have hoperand : ∀ o : Operand reads, o.token.Readable reads := by
    intro o
    cases o with
    | integer literal value hvalue => exact fun _ => ⟨value, hvalue⟩
    | identifier name => exact name.readable (by decide)
  induction d with
  | leaf o => exact forall_mem_singleton.2 (hoperand o)
  | chain o op rest ih => exact forall_mem_cons.2 ⟨hoperand o, forall_mem_cons.2 ⟨op.readable (by decide), ih⟩⟩

theorem Names.readable (d : Names) : ∀ t ∈ d.yield, t.Readable reads := by
  induction d with
  | last name => exact forall_mem_singleton.2 (name.readable (by decide))
  | more name comma rest ih =>
    exact forall_mem_cons.2 ⟨name.readable (by decide), forall_mem_cons.2 ⟨comma.readable (by decide), ih⟩⟩

mutual

theorem Statement.readable : ∀ d : Statement reads, ∀ t ∈ d.yield, t.Readable reads
  | .declaration keyword names semicolon =>
    forall_mem_cons.2 ⟨keyword.readable (by decide),
      forall_mem_append.2 ⟨names.readable, forall_mem_singleton.2 (semicolon.readable (by decide))⟩⟩
  | .assignment target sign value semicolon =>
    forall_mem_cons.2 ⟨target.readable (by decide), forall_mem_cons.2 ⟨sign.readable (by decide),
      forall_mem_append.2 ⟨value.readable, forall_mem_singleton.2 (semicolon.readable (by decide))⟩⟩⟩
  | .loop keyword left condition right opening body closing =>
    forall_mem_cons.2 ⟨keyword.readable (by decide), forall_mem_cons.2 ⟨left.readable (by decide),
      forall_mem_append.2 ⟨condition.readable, forall_mem_cons.2 ⟨right.readable (by decide),
        forall_mem_cons.2 ⟨opening.readable (by decide), forall_mem_append.2 ⟨Statements.readable body,
          forall_mem_singleton.2 (closing.readable (by decide))⟩⟩⟩⟩⟩⟩
  | .output keyword left value right semicolon =>
    forall_mem_cons.2 ⟨keyword.readable (by decide), forall_mem_cons.2 ⟨left.readable (by decide),
      forall_mem_append.2 ⟨value.readable, forall_mem_cons.2 ⟨right.readable (by decide),
        forall_mem_singleton.2 (semicolon.readable (by decide))⟩⟩⟩⟩

/-- A derivation has read its integers. -/
theorem Statements.readable : ∀ d : Statements reads, ∀ t ∈ d.yield, t.Readable reads
  | .none => fun _ h => absurd h List.not_mem_nil
  | .more first rest => forall_mem_append.2 ⟨Statement.readable first, Statements.readable rest⟩

end

end Derivation

end RatLang
