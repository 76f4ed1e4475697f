import RatLang.Proofs.Grammar.Image
import RatLang.Proofs.Statement.Acceptance

/-!
# How exactly the grammar mirrors the parser

The grammar's reader and the parser accept the same tokens, but for the integers. The reader wants them to be
readable in the base that they announce, and values them so; the parser wants them to fit a word in decimal. An octal
integer may be within the range and its decimal reading beyond it, and then only the reader accepts it.

So the reader accepts a source exactly when all its integers can be read and the parser accepts the tokens with the
integers that are too large for it taken down to zero; and with the tokens as they are this holds exactly where the
reader accepts no such integer (`accept_mirrors_parse`).
-/
namespace RatLang

/-- The grammar's reader accepts a source exactly when the parser accepts some tokens and every integer of the source
can be read in the base that it announces; and its program is then the image of the parser's statements, with the
literals so valued. -/
structure Grammar.Mirrors (file src : Text) (ts : List Token) : Prop where
  accept : (Grammar.accept file src).isOk ↔
    (parse ts).isOk ∧ ∀ t ∈ Source.plainTokens file src, t.Readable Numeral.Announced
  image : ∀ {stmts program}, parse ts = .ok stmts → Grammar.accept file src = .ok program →
    (Stmt.images? stmts).run (Token.values Numeral.readInteger (Source.plainTokens file src)) = some (program, [])

/-! ### Other integers in their places -/

/-- Only the texts of integers are changed. -/
structure Token.ChangesIntegers (f : Token → Token) : Prop where
  kind : ∀ t, (f t).kind = t.kind
  lexeme : ∀ t, t.kind ≠ .integer → (f t).lexeme = t.lexeme

namespace Grammar

variable {file src : Text} {f : Token → Token} (hf : Token.ChangesIntegers f)

include hf

/-- What the reader accepts the parser accepts with other integers that it can read, and it builds a tree of the same
shape. -/
theorem exists_parse_of_accept (hread : ∀ t ∈ Source.plainTokens file src, (f t).Readable Numeral.Decimal)
    {program : List Statement} (haccept : accept file src = .ok program) :
    ∃ stmts, parse ((Source.plainTokens file src).map f) = .ok stmts ∧
      (Stmt.images? stmts).run (Token.values Numeral.readInteger (Source.plainTokens file src)) =
        some (program, []) := by
  obtain ⟨d, hyield, rfl⟩ := accept_eq_ok_iff.1 haccept
  have hrestated : List.Forall₂ (Token.Restates Numeral.Announced Numeral.Decimal) d.yield
      ((Source.plainTokens file src).map f) := by
    rw [hyield, List.forall₂_map_right_iff, List.forall₂_same]
    exact fun t ht => ⟨hf.kind t, hf.lexeme t, fun _ => hread t ht⟩
  obtain ⟨d', hyield', hgives⟩ := d.exists_restated Numeral.announced_by hrestated
  have hrun := hgives []
  rw [List.append_nil, hyield] at hrun
  exact ⟨d'.trees, parse_eq_ok_iff.2 ⟨d', hyield', rfl⟩, hrun⟩

/-- What the parser accepts with other integers the reader accepts if it can read its own. -/
theorem exists_accept_of_parse (hread : ∀ t ∈ Source.plainTokens file src, t.Readable Numeral.Announced)
    {stmts : List Stmt} (hparse : parse ((Source.plainTokens file src).map f) = .ok stmts) :
    ∃ program, accept file src = .ok program := by
  obtain ⟨d, hyield, -⟩ := parse_eq_ok_iff.1 hparse
  have hrestated : List.Forall₂ (Token.Restates Numeral.Decimal Numeral.Announced) d.yield
      (Source.plainTokens file src) := by
    rw [hyield, List.forall₂_map_left_iff, List.forall₂_same]
    exact fun t ht => ⟨(hf.kind t).symm, fun hne => (hf.lexeme t (hf.kind t ▸ hne)).symm, fun _ => hread t ht⟩
  obtain ⟨d', hyield', -⟩ := d.exists_restated Numeral.decimal_by hrestated
  exact ⟨_, accept_eq_ok_iff.2 ⟨d', hyield', rfl⟩⟩

theorem mirrors_map (hread : ∀ t ∈ Source.plainTokens file src, (f t).Readable Numeral.Decimal) :
    Mirrors file src ((Source.plainTokens file src).map f) := by
  constructor
  · rw [isOk_iff, isOk_iff]
    constructor
    · rintro ⟨program, haccept⟩
      obtain ⟨stmts, hparse, -⟩ := exists_parse_of_accept hf hread haccept
      obtain ⟨d, hyield, -⟩ := accept_eq_ok_iff.1 haccept
      exact ⟨⟨stmts, hparse⟩, hyield ▸ d.readable⟩
    · rintro ⟨⟨stmts, hparse⟩, hreadable⟩
      exact exists_accept_of_parse hf hreadable hparse
  · intro stmts program hparse haccept
    obtain ⟨stmts', hparse', hrun⟩ := exists_parse_of_accept hf hread haccept
    rw [hparse] at hparse'
    cases hparse'
    exact hrun

end Grammar

/-! ### Integers beyond the range -/

/-- The same token, but zero for an integer that does not fit a word in decimal. -/
def Token.inRange (t : Token) : Token :=
  if t.kind = .integer ∧ ¬(Numeral.readDecimal t.lexeme).isOk then { t with lexeme := bytes "0" } else t

theorem Token.changesIntegers_inRange : ChangesIntegers inRange where
  kind := by
    intro t
    unfold inRange
    split
    · rfl
    · rfl
  lexeme := by
    intro t h
    rw [inRange, if_neg fun hboth => h hboth.1]

theorem Token.readable_inRange (t : Token) : t.inRange.Readable Numeral.Decimal := by
  unfold inRange
  split
  · intro _
    exact ⟨0, Numeral.readDecimal_eq_ok_iff.1 rfl⟩
  · rename_i hfits
    intro hinteger
    rw [not_and, Decidable.not_not] at hfits
    obtain ⟨v, hv⟩ := isOk_iff.1 (hfits hinteger)
    exact ⟨v, Numeral.readDecimal_eq_ok_iff.1 hv⟩

/-- **Exact acceptance**: the reader mirrors the parser on the tokens with the integers beyond the range taken down to
zero, and on the tokens as they are exactly if it does not accept a source that has such an integer. -/
theorem accept_mirrors_parse (file src : Text) :
    Grammar.Mirrors file src ((Source.plainTokens file src).map Token.inRange) ∧
      (Grammar.Mirrors file src (Source.plainTokens file src) ↔
        ((Grammar.accept file src).isOk → ∀ t ∈ Source.plainTokens file src, t.Readable Numeral.Decimal)) := by
  have hparsed : (parse (Source.plainTokens file src)).isOk →
      ∀ t ∈ Source.plainTokens file src, t.Readable Numeral.Decimal := by
    intro hok
    obtain ⟨stmts, hparse⟩ := isOk_iff.1 hok
    obtain ⟨d, hyield, -⟩ := parse_eq_ok_iff.1 hparse
    exact hyield ▸ d.readable
  refine ⟨Grammar.mirrors_map Token.changesIntegers_inRange fun t _ => t.readable_inRange, ?_⟩
  constructor
  · intro hmirrors haccept
    exact hparsed (hmirrors.accept.1 haccept).1
  · intro h
    by_cases hfits : ∀ t ∈ Source.plainTokens file src, t.Readable Numeral.Decimal
    · have hmirrors := Grammar.mirrors_map (f := id) ⟨fun _ => rfl, fun _ _ => rfl⟩ hfits
      rwa [List.map_id] at hmirrors
    · have hrefused : ¬(Grammar.accept file src).isOk := fun haccept => hfits (h haccept)
      refine ⟨⟨fun haccept => absurd haccept hrefused, fun hboth => absurd (hparsed hboth.1) hfits⟩, ?_⟩
      exact fun _ haccept => absurd (isOk_iff.2 ⟨_, haccept⟩) hrefused

/-- The largest word in octal is beyond the range in decimal. -/
theorem octal_word_not_mirrored :
    ¬Grammar.Mirrors [] (bytes "x = 0777777777777777777777;")
      (Source.plainTokens [] (bytes "x = 0777777777777777777777;")) := by
  intro h
  exact absurd (h.accept.1 (by decide +kernel)).1 (by decide +kernel)

end RatLang
