import RatLang.Proofs.Position
import RatLang.Proofs.Token.Choice

/-!
# Tokens in their source

The scanner cuts a source into tokens, stray characters and blank text, always between two code points: a comment ends
with an ASCII byte, a token is made of them, and a stray character is a code point. So the position that it carries
from span to span is the one that the text in front tells (`Position.behind`). Main statement: `tokens_tile_source`.
-/
namespace RatLang

/-! ### Cuts between spans -/

theorem Text.splits_of_ascii {t : Text} (h : ∀ b ∈ t, b < 0x80) (rest : Text) : Splits t rest := by
  rcases List.eq_nil_or_concat t with rfl | ⟨front, c, rfl⟩
  · exact splits_nil_left rest
  · rw [List.concat_eq_append] at h ⊢
    exact splits_ascii (h c (by simp)) rest front

namespace Rule

/-- ASCII, neither white space nor the opening of a comment. -/
def isPlain (b : UInt8) : Bool := b < 0x80 && !isSpace b && b != 0x5b

theorem isPlain_of_isWordByte {b : UInt8} (h : isWordByte b) : isPlain b := by
  grind [isPlain, isSpace, isWordByte, isDigit, isLetter]

theorem ascii_of_isPlain {b : UInt8} (h : isPlain b) : b < 0x80 := by
  simp only [isPlain, Bool.and_eq_true, decide_eq_true_eq] at h
  exact h.1.1

theorem all_isPlain_of_isWordByte {t : Text} (h : t.all isWordByte) : t.all isPlain :=
  List.all_eq_true.2 fun b hb => isPlain_of_isWordByte (List.all_eq_true.1 h b hb)

/-- Tokens are made of plain bytes. -/
theorem isPlain_of_spells {rule : Rule} {t : Text} (hkind : rule.kind? ≠ none) (h : rule.spells t) :
    t.all isPlain := by
  cases rule with
  | comment | whitespace | stray => exact absurd rfl hkind
  | keyword => exact all_isPlain_of_isWordByte (isWordByte_of_mem_keywords t (List.contains_iff_mem.1 h))
  | identifier =>
    simp only [spells, Bool.and_eq_true] at h
    exact all_isPlain_of_isWordByte (isWordByte_of_isName h.1)
  | integer =>
    simp only [spells, Bool.and_eq_true, List.all_eq_true] at h
    refine all_isPlain_of_isWordByte (List.all_eq_true.2 fun b hb => ?_)
    simp [isWordByte, h.2 b hb]
  | assign =>
    simp only [spells, beq_iff_eq] at h
    rw [h]
    decide
  | operator =>
    have hplain : ∀ t ∈ operatorTexts, t.all isPlain := by decide
    exact hplain t (List.contains_iff_mem.1 h)
  | delimiter =>
    have hplain : ∀ t ∈ delimiterTexts, t.all isPlain := by decide
    exact hplain t (List.contains_iff_mem.1 h)

end Rule

theorem IsBlank.splits {gap : Text} (h : IsBlank gap) (rest : Text) : Text.Splits gap rest := by
  rcases h with ⟨-, hspaces⟩ | ⟨body, rfl, -⟩
  · exact Text.splits_of_ascii (fun b hb => Rule.ascii_of_isSpace (hspaces b hb)) rest
  · have hclose := Text.splits_ascii (c := 0x5d) (by decide) rest (bytes "[*" ++ body ++ [0x2a])
    rwa [List.append_assoc] at hclose

/-- The scanner cuts between code points. -/
theorem Rule.splits_pick (b : UInt8) (rest : Text) :
    Text.Splits (b :: rest.take ((pick (b :: rest)).2 - 1)) (rest.drop ((pick (b :: rest)).2 - 1)) := by
  obtain ⟨hlength, -⟩ := length?_pick (List.cons_ne_nil b rest)
  have hspells := pick_spells b rest
  generalize pick (b :: rest) = found at *
  obtain ⟨rule, n⟩ := found
  by_cases hstray : rule = .stray
  · subst hstray
    cases hlength
    have hcut := Text.splits_first b rest
    generalize hn : (Point.first b rest).bytes.length = n at hcut ⊢
    rwa [Point.bytes_first, hn] at hcut
  · by_cases hblank : rule = .comment ∨ rule = .whitespace
    · exact (isBlank_of_length? hlength hblank).splits _
    · have hkind : rule.kind? ≠ none := by
        cases rule <;> simp_all [kind?]
      have hplain := List.all_eq_true.1 (isPlain_of_spells hkind hspells)
      exact Text.splits_of_ascii (fun c hc => ascii_of_isPlain (hplain c hc)) _

/-! ### Pieces of a source -/

/-- A piece of a source: blank text, a token or a skipped character. -/
inductive Piece where
  | blank (text : Text)
  | token (t : Token)
  | skip (s : Stray)

namespace Piece

/-- The bytes of a piece. -/
def text : Piece → Text
  | blank text => text
  | token t => t.lexeme
  | skip s => s.text

/-- The token of a piece. -/
def token? : Piece → Option Token
  | token t => some t
  | blank _ | skip _ => none

/-- The skipped character of a piece. -/
def skip? : Piece → Option Stray
  | skip s => some s
  | blank _ | token _ => none

/-- Where a token or a skipped character says it stands. -/
def pos? : Piece → Option Position
  | token t => some t.pos
  | skip s => some s.pos
  | blank _ => none

/-- No blank text begins at a byte of `t`, when `back` stands behind it. -/
def Solid (t back : Text) : Prop := ∀ k < t.length, ∀ gap, IsBlank gap → ¬gap <+: (t ++ back).drop k

/-- The piece is what it has to be between the texts `front` and `back` of a file, and stands where it says. White
space and comments are blank and nothing else is. -/
def Fits (file front back : Text) : Piece → Prop
  | blank text => IsBlank text
  | token t => t.lexeme ≠ [] ∧ t.pos = .behind file front ∧ t.stop = .behind file (front ++ t.lexeme) ∧
      Solid t.lexeme back
  | skip s => s.text ≠ [] ∧ (s.text ++ back).points.head?.map Point.bytes = some s.text ∧
      s.pos = .behind file front ∧ Solid s.text back

theorem Fits.placed {file front back : Text} {piece : Piece} (h : piece.Fits file front back) {pos : Position}
    (hpos : piece.pos? = some pos) : piece.text ≠ [] ∧ pos = .behind file front := by
  cases piece with
  | blank => cases hpos
  | token t =>
    cases hpos
    exact ⟨h.1, h.2.1⟩
  | skip s =>
    cases hpos
    exact ⟨h.1, h.2.2.1⟩

end Piece

namespace Span

/-- The piece that a span is. -/
def piece (s : Span) : Piece :=
  match s.token?, s.stray? with
  | some t, _ => .token t
  | none, some k => .skip k
  | none, none => .blank s.text

/-- What a span can be: a token, a stray character or blank. -/
theorem piece_cases (s : Span) :
    (s.rule.kind? ≠ none ∧ ∃ t, s.piece = .token t ∧ t.lexeme = s.text ∧ t.pos = s.pos ∧ s.token? = some t ∧
      s.stray? = none) ∨
    (s.rule = .stray ∧ s.piece = .skip ⟨s.pos, s.text⟩ ∧ s.token? = none ∧ s.stray? = some ⟨s.pos, s.text⟩) ∨
    ((s.rule = .comment ∨ s.rule = .whitespace) ∧ s.piece = .blank s.text ∧ s.token? = none ∧ s.stray? = none) := by
  obtain ⟨rule, text, pos, before⟩ := s
  cases rule with
  | comment => exact Or.inr (Or.inr ⟨Or.inl rfl, rfl, rfl, rfl⟩)
  | whitespace => exact Or.inr (Or.inr ⟨Or.inr rfl, rfl, rfl, rfl⟩)
  | stray => exact Or.inr (Or.inl ⟨rfl, rfl, rfl, rfl⟩)
  | keyword | identifier | integer | assign | operator | delimiter =>
    exact Or.inl ⟨nofun, _, rfl, rfl, rfl, rfl, rfl⟩

theorem text_piece (s : Span) : s.piece.text = s.text := by
  rcases s.piece_cases with ⟨-, t, hpiece, htext, -⟩ | ⟨-, hpiece, -⟩ | ⟨-, hpiece, -⟩
  · rw [hpiece, Piece.text, htext]
  · rw [hpiece, Piece.text]
  · rw [hpiece, Piece.text]

theorem token?_piece (s : Span) : s.piece.token? = s.token? := by
  rcases s.piece_cases with ⟨-, t, hpiece, -, -, htoken, -⟩ | ⟨-, hpiece, htoken, -⟩ | ⟨-, hpiece, htoken, -⟩
  all_goals rw [hpiece, htoken, Piece.token?]

theorem skip?_piece (s : Span) : s.piece.skip? = s.stray? := by
  rcases s.piece_cases with ⟨-, t, hpiece, -, -, -, hstray⟩ | ⟨-, hpiece, -, hstray⟩ | ⟨-, hpiece, -, hstray⟩
  all_goals rw [hpiece, hstray, Piece.skip?]

end Span

theorem Token.stop_eq_advance {t : Token} (h : ∀ b ∈ t.lexeme, Rule.isPlain b) : t.stop = t.pos.advance t.lexeme := by
  have hline : t.lexeme.count 0x0a = 0 := List.count_eq_zero.2 fun hmem => absurd (h 0x0a hmem) (by decide)
  have hpoints : t.lexeme.pointCount = t.lexeme.length :=
    Text.pointCount_of_ascii fun b hb => Rule.ascii_of_isPlain (h b hb)
  simp [Token.stop, Position.advance, hline, hpoints]

/-- Blank text begins only at white space and opening brackets. -/
theorem IsBlank.byte_of_begins {gap t back : Text} (h : IsBlank gap) {k : Nat} (hk : k < t.length)
    (hbegin : gap <+: (t ++ back).drop k) : Rule.isSpace t[k] ∨ t[k] = 0x5b := by
  obtain ⟨more, hmore⟩ := hbegin
  have hapart := h.apart more
  rw [hmore] at hapart
  apply hapart
  rw [List.head?_drop, List.getElem?_append_left hk, List.getElem?_eq_getElem hk]
  rfl

theorem solid_of_isPlain {t : Text} (h : ∀ b ∈ t, Rule.isPlain b) (back : Text) : Piece.Solid t back := by
  intro k hk gap hgap hbegin
  have hplain := h t[k] (List.getElem_mem hk)
  rcases hgap.byte_of_begins hk hbegin with hspace | hopen
  · simp [Rule.isPlain, hspace] at hplain
  · simp [Rule.isPlain, hopen] at hplain

/-- A stray character is solid: at its first byte another rule would have matched, and the others are not ASCII. -/
theorem solid_stray {b : UInt8} {rest t back : Text} (hpick : (Rule.pick (b :: rest)).1 = .stray)
    (hbytes : (Point.first b rest).bytes = t) (hwhole : t ++ back = b :: rest) : Piece.Solid t back := by
  intro k hk gap hgap hbegin
  cases k with
  | zero =>
    obtain ⟨more, hmore⟩ := hbegin
    have hblank := Rule.pick_blank hgap more
    rw [hmore, List.drop_zero, hwhole, hpick] at hblank
    exact absurd hblank (by decide)
  | succ k =>
    have hmem : t[k + 1] ∈ (Point.first b rest).bytes.tail := by
      rw [hbytes]
      exact List.mem_of_getElem? (by rw [List.getElem?_tail, List.getElem?_eq_getElem hk])
    have htail := Point.not_ascii_of_mem_first hmem
    rcases hgap.byte_of_begins hk hbegin with hspace | hopen
    · exact htail (Rule.ascii_of_isSpace hspace)
    · exact htail (by rw [hopen]; decide)

/-- What is picked behind `front` fits there. -/
theorem fits_pick {front : Text} {b : UInt8} {rest : Text} (hcut : Text.Splits front (b :: rest)) (file : Text)
    (before : Option UInt8) {rule : Rule} {n : Nat} (hpick : Rule.pick (b :: rest) = (rule, n)) :
    (Span.mk rule (b :: rest.take (n - 1)) (.behind file front) before).piece.Fits file front (rest.drop (n - 1)) := by
  have hlength := (Rule.length?_pick (List.cons_ne_nil b rest)).1
  have hspells := Rule.pick_spells b rest
  rw [hpick] at hlength hspells
  generalize htext : b :: rest.take (n - 1) = text at *
  have hne : text ≠ [] := by
    rw [← htext]
    exact List.cons_ne_nil _ _
  have hwhole : text ++ rest.drop (n - 1) = b :: rest := by
    rw [← htext, List.cons_append, List.take_append_drop]
  rcases (Span.mk rule text (.behind file front) before).piece_cases with
    ⟨hkind, t, hpiece, hlexeme, hpos, -⟩ | ⟨hstray, hpiece, -⟩ | ⟨hblank, hpiece, -⟩
  · have hplain := List.all_eq_true.1 (Rule.isPlain_of_spells hkind hspells)
    have hstop : t.stop = .behind file (front ++ t.lexeme) := by
      rw [Token.stop_eq_advance (by rwa [hlexeme]), hpos, hlexeme]
      exact Position.advance_behind (hcut.shorten ⟨_, hwhole⟩) file
    rw [hpiece, Piece.Fits, hlexeme]
    exact ⟨hne, hpos, hlexeme ▸ hstop, solid_of_isPlain hplain _⟩
  · obtain rfl : rule = .stray := hstray
    have hbytes : (Point.first b rest).bytes = text := by
      rw [Point.bytes_first, Option.some.inj hlength, htext]
    rw [hpiece, Piece.Fits, hwhole, Text.points_cons, List.head?_cons, Option.map_some, hbytes]
    exact ⟨hne, rfl, rfl, solid_stray (by rw [hpick]) hbytes hwhole⟩
  · rw [hpiece, Piece.Fits, ← htext]
    exact Rule.isBlank_of_length? hlength hblank

theorem flatMap_text_spans (pos : Position) (before : Option UInt8) (t : Text) :
    (spans pos before t).flatMap Span.text = t := by
  fun_induction spans pos before t with
  | case1 => rfl
  | case2 pos before b rest found text ih => rw [List.flatMap_cons, ih, List.cons_append, List.take_append_drop]

/-- Every span of a text that stands behind `front` fits between the spans in front of it and those behind it. -/
theorem fits_of_spans (file : Text) (pos : Position) (before : Option UInt8) (t : Text) :
    ∀ front xs s ys, pos = .behind file front → Text.Splits front t → spans pos before t = xs ++ s :: ys →
      s.piece.Fits file (front ++ xs.flatMap Span.text) (ys.flatMap Span.text) := by
  fun_induction spans pos before t with
  | case1 =>
    intro front xs s ys hpos hcut h
    simp at h
  | case2 pos before b rest found text ih =>
    intro front xs s ys hpos hcut h
    subst hpos
    have hwhole : text ++ rest.drop (found.2 - 1) = b :: rest := by
      rw [List.cons_append, List.take_append_drop]
    rw [← hwhole] at hcut
    cases xs with
    | nil =>
      obtain ⟨rfl, rfl⟩ := List.cons.inj h
      rw [hwhole] at hcut
      rw [List.flatMap_nil, List.append_nil, flatMap_text_spans]
      exact fits_pick hcut file before rfl
    | cons x xs =>
      rw [List.cons_append] at h
      obtain ⟨rfl, htail⟩ := List.cons.inj h
      have hnext := Position.advance_behind (hcut.shorten (List.prefix_append text _)) file
      rw [List.flatMap_cons, ← List.append_assoc]
      exact ih _ xs s ys hnext (hcut.append (Rule.splits_pick b rest)) htail

/-- Pieces that fit stand in the order of their offsets, as long as those fit into words. -/
theorem pairwise_offset {file : Text} {pieces : List Piece} (hsize : (pieces.flatMap Piece.text).length + 1 < 2 ^ 63)
    (hfits : ∀ front piece back, pieces = front ++ piece :: back →
      piece.Fits file (front.flatMap Piece.text) (back.flatMap Piece.text)) :
    (pieces.filterMap Piece.pos?).Pairwise fun p q => p.offset < q.offset := by
  rw [List.pairwise_filterMap, List.pairwise_iff_getElem]
  intro i j hi hj hij p hp q hq
  have hsplit : ∀ k (hk : k < pieces.length), pieces = pieces.take k ++ pieces[k] :: pieces.drop (k + 1) := by
    intro k hk
    rw [List.getElem_cons_drop, List.take_append_drop]
  obtain ⟨hne, rfl⟩ := (hfits _ _ _ (hsplit i hi)).placed hp
  obtain ⟨-, rfl⟩ := (hfits _ _ _ (hsplit j hj)).placed hq
  have hlength : ∀ {a b : List Piece}, a <+: b → (a.flatMap Piece.text).length ≤ (b.flatMap Piece.text).length := by
    rintro a b ⟨more, rfl⟩
    rw [List.flatMap_append, List.length_append]
    omega
  have hbelow := hlength (List.take_prefix j pieces)
  have hnext := hlength (List.take_prefix_take_left hij : pieces.take (i + 1) <+: pieces.take j)
  rw [List.take_succ_eq_append_getElem hi, List.flatMap_append, List.length_append, List.flatMap_singleton] at hnext
  have hsome := List.length_pos_iff.2 hne
  rw [Int64.lt_iff_toInt_lt, (Position.behind_exact (by omega) file).1, (Position.behind_exact (by omega) file).1]
  omega

namespace Source

/-- A source in pieces. -/
def pieces (file src : Text) : List Piece := (spans file src).map Span.piece

variable {file src : Text}

theorem flatMap_text_piece (ss : List Span) : (ss.map Span.piece).flatMap Piece.text = ss.flatMap Span.text := by
  rw [List.flatMap_map]
  exact congrArg (List.flatMap · ss) (funext Span.text_piece)

theorem flatMap_text_pieces (file src : Text) : (pieces file src).flatMap Piece.text = src := by
  rw [pieces, flatMap_text_piece, spans, flatMap_text_spans]

theorem tokens_eq_pieces : tokens file src = (pieces file src).filterMap Piece.token? := by
  rw [pieces, List.filterMap_map, tokens]
  exact congrArg (List.filterMap · _) (funext fun s => s.token?_piece.symm)

theorem strays_eq_pieces : strays file src = (pieces file src).filterMap Piece.skip? := by
  rw [pieces, List.filterMap_map, strays]
  exact congrArg (List.filterMap · _) (funext fun s => s.skip?_piece.symm)

theorem fits_of_pieces {front back : List Piece} {piece : Piece} (h : pieces file src = front ++ piece :: back) :
    piece.Fits file (front.flatMap Piece.text) (back.flatMap Piece.text) := by
  obtain ⟨xs, ys, hspans, rfl, hys⟩ := List.map_eq_append_iff.1 h
  obtain ⟨s, ys, rfl, rfl, rfl⟩ := List.map_eq_cons_iff.1 hys
  rw [flatMap_text_piece, flatMap_text_piece]
  exact fits_of_spans file _ none src [] xs s ys (Position.behind_nil file).symm (Text.splits_nil_left src) hspans

end Source

/-- **Tokens tile the source and stand where they say.** Scanning that skips stray characters always succeeds. Its
tokens and skips are, with blank text between them, the source piece by piece, and each knows its place: behind as
many bytes, newlines and points of its line as its position tells. -/
theorem tokens_tile_source (file src : Text) : ∃ pieces : List Piece,
    pieces.flatMap Piece.text = src ∧
    Source.tokenize false file src = .ok (pieces.filterMap Piece.token?) ∧
    Source.skips false file src = pieces.filterMap Piece.skip? ∧
    (∀ front piece back, pieces = front ++ piece :: back →
      piece.Fits file (front.flatMap Piece.text) (back.flatMap Piece.text)) ∧
    (src.length + 1 < 2 ^ 63 →
      ((pieces.filterMap Piece.pos?).Pairwise fun p q => p.offset < q.offset) ∧
      ∀ front, front <+: src →
        (Position.behind file front).offset.toInt = front.length ∧
        (Position.behind file front).line.toInt = 1 + front.count 0x0a ∧
        (Position.behind file front).column.toInt = 1 + (Position.lastLine front).pointCount) := by
  refine ⟨Source.pieces file src, Source.flatMap_text_pieces file src, ?_, Source.strays_eq_pieces,
    fun _ _ _ => Source.fits_of_pieces, ?_⟩
  · exact congrArg Except.ok Source.tokens_eq_pieces
  · intro hsize
    refine ⟨pairwise_offset (by rwa [Source.flatMap_text_pieces]) fun _ _ _ => Source.fits_of_pieces,
      fun front hfront => ?_⟩
    have hlength := hfront.length_le
    exact Position.behind_exact (by omega) file

end RatLang
