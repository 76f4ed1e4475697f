import RatLang.Proofs.Token.Tiling

/-!
# Words and their neighbours

A rule sees only the text ahead of it, so it can promise where a word ends and not what stands in front. The left
boundary is an invariant of the scan: a span that ends with a word byte is a word itself, and then no word byte
follows, or it is a digit that was skipped, and then the digits behind it run into a letter or an underscore
(`Rule.Takes.word_or_stray`). Main statement: `words_bounded`.
-/
namespace RatLang

/-! ### Neighbours -/

/-- The text begins with a word byte. -/
def Text.BeginsInWord (t : Text) : Prop := t.head?.any isWordByte

/-- The text ends with a word byte. -/
def Text.EndsInWord (t : Text) : Prop := t.getLast?.any isWordByte

instance (t : Text) : Decidable t.BeginsInWord := inferInstanceAs (Decidable (_ = true))

instance (t : Text) : Decidable t.EndsInWord := inferInstanceAs (Decidable (_ = true))

/-- Letters and the underscore, the bytes that a name begins with. -/
def opensName (b : UInt8) : Bool := isLetter b || b == 0x5f

/-- A letter or an underscore stands behind the digits that the text begins with. -/
def Text.Glues (t : Text) : Prop := (t.dropWhile isDigit).head?.any opensName

/-- The byte at a place belongs to a run of digits that no digit precedes and that a letter or an underscore follows. -/
def Text.InGluedRun (t : Text) (k : Nat) : Prop :=
  ∃ front run back, t = front ++ run ++ back ∧ front.length ≤ k ∧ k < front.length + run.length ∧
    (∀ b ∈ run, isDigit b) ∧ ¬front.getLast?.any isDigit ∧ back.head?.any opensName

theorem isWordByte_iff {b : UInt8} : isWordByte b ↔ isDigit b ∨ opensName b := by
  simp [isWordByte, opensName, or_assoc]

theorem Rule.wordEnds_iff {t : Text} : wordEnds t ↔ ¬t.BeginsInWord := by
  cases t <;> simp [wordEnds, Text.BeginsInWord]

/-- Where the digits of a text run into something, that is a letter or an underscore. -/
theorem Text.glues_iff {t : Text} : t.Glues ↔ ¬Rule.wordEnds (t.dropWhile isDigit) := by
  rw [Rule.wordEnds_iff, Decidable.not_not, Glues, BeginsInWord]
  cases h : t.dropWhile isDigit with
  | nil => simp
  | cons b rest =>
    have hdigit : isDigit b = false := by
      have hhead := List.head_dropWhile_not isDigit (l := t) (by simp [h])
      simpa [h] using hhead
    simp [isWordByte, opensName, hdigit]

theorem Text.Glues.inGluedRun {d : UInt8} {back : Text} (h : Text.Glues back) (hd : isDigit d) (front : Text) :
    Text.InGluedRun (front ++ d :: back) front.length := by
  -- the run reaches back over the digits at the end of `front`
  have hsplit : front = (front.reverse.dropWhile isDigit).reverse ++ (front.reverse.takeWhile isDigit).reverse := by
    rw [← List.reverse_append, List.takeWhile_append_dropWhile, List.reverse_reverse]
  generalize hout : (front.reverse.dropWhile isDigit).reverse = out at hsplit
  generalize hin : (front.reverse.takeWhile isDigit).reverse = inner at hsplit
  refine ⟨out, inner ++ d :: back.takeWhile isDigit, back.dropWhile isDigit, ?_, ?_, ?_, ?_, ?_, h⟩
  · conv => lhs; rw [hsplit, ← List.takeWhile_append_dropWhile (p := isDigit) (l := back)]
    simp
  · rw [hsplit, List.length_append]
    omega
  · rw [hsplit, List.length_append, List.length_append, List.length_cons]
    omega
  · intro b hb
    rcases List.mem_append.1 hb with hb | hb
    · rw [← hin, List.mem_reverse] at hb
      exact List.all_eq_true.1 List.all_takeWhile b hb
    · rcases List.mem_cons.1 hb with rfl | hb
      · exact hd
      · exact List.all_eq_true.1 List.all_takeWhile b hb
  · rw [← hout, List.getLast?_reverse]
    cases hdrop : front.reverse.dropWhile isDigit with
    | nil => simp
    | cons b more =>
      have hhead := List.head_dropWhile_not isDigit (l := front.reverse) (by simp [hdrop])
      simpa [hdrop] using hhead

/-! ### One span -/

theorem IsBlank.not_endsInWord {t : Text} (h : IsBlank t) : ¬Text.EndsInWord t := by
  rcases h with ⟨hne, hspaces⟩ | ⟨body, rfl, -⟩
  · rw [Text.EndsInWord, List.getLast?_eq_some_getLast hne, Option.any_some]
    exact Rule.not_isWordByte_of_isSpace (hspaces _ (List.getLast_mem hne))
  · have hclose : bytes "*]" = [0x2a, 0x5d] := by decide
    rw [Text.EndsInWord, hclose, List.getLast?_append]
    show ¬isWordByte 0x5d
    decide

namespace Rule

/-- The rules of the classes that words belong to. -/
def isWord : Rule → Bool
  | keyword | identifier | integer => true
  | comment | assign | operator | delimiter | whitespace | stray => false

/-- The rule takes the text where `back` follows it. -/
def Takes (rule : Rule) (text back : Text) : Prop :=
  ∃ b rest n, pick (b :: rest) = (rule, n) ∧ text = b :: rest.take (n - 1) ∧ back = rest.drop (n - 1)

variable {rule : Rule} {text back : Text}

theorem Takes.spells (h : rule.Takes text back) : rule.spells text := by
  obtain ⟨b, rest, n, hpick, rfl, -⟩ := h
  have hspells := pick_spells b rest
  rwa [hpick] at hspells

theorem Takes.ne_nil (h : rule.Takes text back) : text ≠ [] := by
  obtain ⟨b, rest, n, -, rfl, -⟩ := h
  exact List.cons_ne_nil _ _

/-- A word ends where no word byte follows. -/
theorem Takes.wordEnds (h : rule.Takes text back) (hword : rule.isWord) : wordEnds back := by
  obtain ⟨b, rest, n, hpick, -, rfl⟩ := h
  have hlength := (length?_pick (List.cons_ne_nil b rest)).1
  rw [hpick] at hlength
  cases rule with
  | keyword =>
    obtain ⟨k, hk, -, hends, rfl⟩ := exists_of_length?_keyword hlength
    cases k with
    | nil => exact absurd hk (by decide)
    | cons c k => exact hends
  | identifier =>
    simp only [length?, Option.ite_none_right_eq_some] at hlength
    cases hlength.2
    rw [Nat.add_sub_cancel_left, drop_length_takeWhile]
    exact wordEnds_dropWhile rest
  | integer =>
    simp only [length?, Option.ite_none_right_eq_some, Bool.and_eq_true] at hlength
    cases hlength.2
    rw [Nat.add_sub_cancel_left, drop_length_takeWhile]
    exact hlength.1.2
  | comment | assign | operator | delimiter | whitespace | stray => cases hword

theorem pick_ne_stray (rule : Rule) {b : UInt8} {rest : Text} {n : Nat} (h : rule.length? (b :: rest) = some n)
    (hrule : rule ≠ stray) : (pick (b :: rest)).1 ≠ stray := by
  cases hkeyword : keyword.length? (b :: rest) with
  | some m =>
    rw [pick_other hkeyword (by decide) (by decide)]
    simp
  | none =>
    rw [pick_eq h hrule fun _ => hkeyword]
    exact hrule

/-- A stray character that holds a word byte is a digit, and the digits behind it run into a name. -/
theorem Takes.digit_of_stray (h : stray.Takes text back) {d : UInt8} (hd : d ∈ text) (hword : isWordByte d) :
    text = [d] ∧ isDigit d ∧ Text.Glues back := by
  obtain ⟨b, rest, n, hpick, rfl, rfl⟩ := h
  have hlength := (length?_pick (List.cons_ne_nil b rest)).1
  rw [hpick] at hlength
  obtain rfl : (Point.first b rest).bytes.length = n := Option.some.inj hlength
  -- only its first byte can be ASCII, and then it has no other
  have hascii : d < 0x80 := ascii_of_isPlain (isPlain_of_isWordByte hword)
  have hfirst : d = b := by
    rcases List.mem_cons.1 hd with hfirst | hlater
    · exact hfirst
    · have hmem : d ∈ (Point.first b rest).bytes.tail := by rwa [Point.bytes_first]
      exact absurd hascii (Point.not_ascii_of_mem_first hmem)
  subst hfirst
  have hstray : (pick (d :: rest)).1 = stray := by rw [hpick]
  have hname : ¬opensName d := by
    intro hname
    exact pick_ne_stray identifier (if_pos hname) (by decide) hstray
  have hdigit : isDigit d := (isWordByte_iff.1 hword).resolve_right hname
  have hglues : Text.Glues rest := by
    rw [Text.glues_iff]
    intro hends
    exact pick_ne_stray integer (if_pos (by rw [hdigit, hends]; rfl)) (by decide) hstray
  rw [Point.first_of_ascii hascii]
  exact ⟨rfl, hdigit, hglues⟩

/-- A span that ends with a word byte is a word or a stray character. -/
theorem Takes.word_or_stray (h : rule.Takes text back) (hlast : text.EndsInWord) : rule.isWord ∨ rule = stray := by
  have hspells := h.spells
  obtain ⟨b, rest, n, hpick, rfl, -⟩ := h
  have hlength := (length?_pick (List.cons_ne_nil b rest)).1
  rw [hpick] at hlength
  cases rule with
  | keyword | identifier | integer => exact Or.inl rfl
  | stray => exact Or.inr rfl
  | comment => exact absurd hlast (isBlank_of_length? hlength (Or.inl rfl)).not_endsInWord
  | whitespace => exact absurd hlast (isBlank_of_length? hlength (Or.inr rfl)).not_endsInWord
  | assign =>
    simp only [Rule.spells, beq_iff_eq] at hspells
    rw [hspells] at hlast
    exact absurd hlast (by decide)
  | operator =>
    have hends : ∀ t ∈ operatorTexts, ¬Text.EndsInWord t := by decide
    exact absurd hlast (hends _ (List.contains_iff_mem.1 hspells))
  | delimiter =>
    have hends : ∀ t ∈ delimiterTexts, ¬Text.EndsInWord t := by decide
    exact absurd hlast (hends _ (List.contains_iff_mem.1 hspells))

theorem isName_of_mem_keywords : ∀ k ∈ keywords, isName k := by decide

theorem beginsInWord_of_isName {t : Text} (h : isName t) (back : Text) : Text.BeginsInWord (t ++ back) := by
  cases t with
  | nil => cases h
  | cons b t =>
    simp only [isName, Bool.and_eq_true] at h
    exact isWordByte_iff.2 (Or.inr h.1)

/-- A word begins with a word byte. -/
theorem Takes.beginsInWord (h : rule.Takes text back) (hword : rule.isWord) : Text.BeginsInWord (text ++ back) := by
  have hspells := h.spells
  cases rule with
  | keyword => exact beginsInWord_of_isName (isName_of_mem_keywords text (List.contains_iff_mem.1 hspells)) back
  | identifier =>
    simp only [Rule.spells, Bool.and_eq_true] at hspells
    exact beginsInWord_of_isName hspells.1 back
  | integer =>
    cases text with
    | nil => cases hspells
    | cons b text =>
      simp only [Rule.spells, List.all_cons, Bool.and_eq_true] at hspells
      exact isWordByte_iff.2 (Or.inl hspells.2.1)
  | comment | assign | operator | delimiter | whitespace | stray => cases hword

/-- Digits that end a word are not glued to anything. -/
theorem Takes.not_glues (h : integer.Takes text back) : ¬Text.Glues (text ++ back) := by
  have hends := h.wordEnds rfl
  have hspells := h.spells
  simp only [Rule.spells, Bool.and_eq_true, List.all_eq_true] at hspells
  rw [Text.glues_iff, Decidable.not_not, List.dropWhile_append_of_pos hspells.2]
  cases back with
  | nil => rfl
  | cons b back =>
    have hdigit : ¬isDigit b := by
      intro hdigit
      simp [Rule.wordEnds, isWordByte, hdigit] at hends
    rwa [List.dropWhile_cons_of_neg hdigit]

/-- Of two neighbours the second of which is a word, the first ends with a word byte only if it is a stray digit, and
then the second is no number. -/
theorem Takes.stray_digit {rule' : Rule} {text' : Text} (h : rule.Takes text (text' ++ back))
    (h' : rule'.Takes text' back) (hword : rule'.isWord) (hlast : text.EndsInWord) :
    rule' ≠ integer ∧ rule = stray ∧ ∃ d, text = [d] ∧ isDigit d := by
  rcases h.word_or_stray hlast with hrule | rfl
  · exact absurd (h'.beginsInWord hword) (wordEnds_iff.1 (h.wordEnds hrule))
  · rw [Text.EndsInWord, List.getLast?_eq_some_getLast h.ne_nil, Option.any_some] at hlast
    obtain ⟨htext, hdigit, hglues⟩ := h.digit_of_stray (List.getLast_mem h.ne_nil) hlast
    refine ⟨?_, rfl, _, htext, hdigit⟩
    rintro rfl
    exact h'.not_glues hglues

end Rule

/-! ### All spans -/

/-- Every span is what its rule takes in front of the spans behind it, and knows the byte in front. -/
theorem takes_of_spans (pos : Position) (before : Option UInt8) (t : Text) :
    ∀ xs s ys, spans pos before t = xs ++ s :: ys →
      s.rule.Takes s.text (ys.flatMap Span.text) ∧ s.before = (xs.flatMap Span.text).getLast?.or before := by
  fun_induction spans pos before t with
  | case1 =>
    intro xs s ys h
    simp at h
  | case2 pos before b rest found text ih =>
    intro xs s ys h
    cases xs with
    | nil =>
      obtain ⟨rfl, rfl⟩ := List.cons.inj h
      rw [flatMap_text_spans]
      exact ⟨⟨b, rest, found.2, rfl, rfl, rfl⟩, rfl⟩
    | cons x xs =>
      rw [List.cons_append] at h
      obtain ⟨rfl, htail⟩ := List.cons.inj h
      obtain ⟨htakes, hbefore⟩ := ih xs s ys htail
      refine ⟨htakes, ?_⟩
      have hsome : text.getLast?.isSome := rfl
      rw [hbefore, List.flatMap_cons, List.getLast?_append, Option.or_assoc, Option.or_of_isSome hsome]

/-! ### Pieces -/

namespace Piece

/-- The last of the pieces is a digit that was skipped. -/
def EndInSkippedDigit (front : List Piece) : Prop :=
  ∃ s d, front.getLast? = some (.skip s) ∧ s.text = [d] ∧ isDigit d

/-- The piece that holds the byte at a place. -/
def at? : List Piece → Nat → Option Piece
  | [], _ => none
  | piece :: rest, k => if k < piece.text.length then some piece else at? rest (k - piece.text.length)

theorem exists_at? {b : UInt8} (pieces : List Piece) : ∀ k, (pieces.flatMap text)[k]? = some b →
    ∃ front piece back, pieces = front ++ piece :: back ∧ at? pieces k = some piece ∧
      (front.flatMap text).length ≤ k ∧ piece.text[k - (front.flatMap text).length]? = some b := by
  induction pieces with
  | nil =>
    intro k h
    simp at h
  | cons first rest ih =>
    intro k h
    rw [List.flatMap_cons] at h
    by_cases hk : k < first.text.length
    · rw [List.getElem?_append_left hk] at h
      exact ⟨[], first, rest, rfl, if_pos hk, Nat.zero_le k, h⟩
    · rw [List.getElem?_append_right (Nat.le_of_not_lt hk)] at h
      obtain ⟨front, piece, back, rfl, hat, hle, hbyte⟩ := ih _ h
      refine ⟨first :: front, piece, back, rfl, (if_neg hk).trans hat, ?_, ?_⟩
      · rw [List.flatMap_cons, List.length_append]
        omega
      · rwa [List.flatMap_cons, List.length_append, ← Nat.sub_sub]

end Piece

/-- The bytes next to a token: what precedes it in the given pieces, and what follows in `back`. -/
def Token.Bounded (front : List Piece) (back : Text) (t : Token) : Prop :=
  match t.kind with
  | .keyword => t.lexeme ∈ keywords ∧ ¬Text.EndsInWord (front.flatMap Piece.text) ∧ ¬back.BeginsInWord
  | .integer =>
    t.lexeme ≠ [] ∧ (∀ b ∈ t.lexeme, isDigit b) ∧ ¬Text.EndsInWord (front.flatMap Piece.text) ∧ ¬back.BeginsInWord
  | .identifier =>
    isName t.lexeme ∧ ¬back.BeginsInWord ∧
      (Text.EndsInWord (front.flatMap Piece.text) → Piece.EndInSkippedDigit front) ∧
      (t.lexeme ∈ keywords → Piece.EndInSkippedDigit front)
  | .assign | .operator | .delimiter | .unknown _ => True

namespace Source

variable {file src : Text}

/-- Every piece is a span that its rule took between the pieces around it. -/
theorem exists_span {front back : List Piece} {piece : Piece} (h : pieces file src = front ++ piece :: back) :
    ∃ xs s ys, spans file src = xs ++ s :: ys ∧ front = xs.map Span.piece ∧ piece = s.piece ∧
      s.rule.Takes s.text (back.flatMap Piece.text) ∧ s.before = (front.flatMap Piece.text).getLast? := by
  obtain ⟨xs, ys, hspans, rfl, hys⟩ := List.map_eq_append_iff.1 h
  obtain ⟨s, ys, rfl, rfl, rfl⟩ := List.map_eq_cons_iff.1 hys
  obtain ⟨htakes, hbefore⟩ := takes_of_spans _ _ _ xs s ys hspans
  rw [Option.or_none] at hbefore
  refine ⟨xs, s, ys, hspans, rfl, rfl, ?_, ?_⟩
  · rwa [flatMap_text_piece]
  · rwa [flatMap_text_piece]

/-- A word behind a word byte stands behind a skipped digit, and is no number. -/
theorem skipped_of_endsInWord {xs ys : List Span} {s : Span} (h : spans file src = xs ++ s :: ys)
    (hword : s.rule.isWord) (hlast : Text.EndsInWord (xs.flatMap Span.text)) :
    s.rule ≠ .integer ∧ Piece.EndInSkippedDigit (xs.map Span.piece) := by
  obtain ⟨htakes, -⟩ := takes_of_spans _ _ _ xs s ys h
  rcases List.eq_nil_or_concat xs with rfl | ⟨xs, p, rfl⟩
  · cases hlast
  · rw [List.concat_eq_append] at h hlast ⊢
    rw [List.append_assoc, List.singleton_append] at h
    obtain ⟨hprevious, -⟩ := takes_of_spans _ _ _ xs p (s :: ys) h
    rw [List.flatMap_cons] at hprevious
    have hend : p.text.EndsInWord := by
      rw [Text.EndsInWord, List.flatMap_append, List.flatMap_singleton, List.getLast?_append,
        List.getLast?_eq_some_getLast hprevious.ne_nil, Option.some_or] at hlast
      rwa [Text.EndsInWord, List.getLast?_eq_some_getLast hprevious.ne_nil]
    obtain ⟨hnumber, hstray, d, hd, hdigit⟩ := hprevious.stray_digit htakes hword hend
    refine ⟨hnumber, ⟨p.pos, p.text⟩, d, ?_, hd, hdigit⟩
    rcases p.piece_cases with ⟨hkind, -⟩ | ⟨-, hpiece, -⟩ | ⟨hblank, -⟩
    · rw [hstray] at hkind
      exact absurd rfl hkind
    · rw [List.map_append, List.map_singleton, List.getLast?_concat, hpiece]
    · rw [hstray] at hblank
      exact absurd hblank (by decide)

theorem bounded_of_pieces {front back : List Piece} {t : Token} (h : pieces file src = front ++ .token t :: back) :
    t.Bounded front (back.flatMap Piece.text) := by
  obtain ⟨xs, s, ys, hspans, rfl, hpiece, htakes, hbefore⟩ := exists_span h
  have htoken : s.token? = some t := by rw [← s.token?_piece, ← hpiece, Piece.token?]
  have hskipped := skipped_of_endsInWord hspans
  have hspells := htakes.spells
  rw [← flatMap_text_piece] at hskipped
  generalize hfront : xs.map Span.piece = front at hskipped hbefore ⊢
  have hends : s.before.any isWordByte ↔ Text.EndsInWord (front.flatMap Piece.text) := by rw [hbefore, Text.EndsInWord]
  have hback : s.rule.isWord → ¬Text.BeginsInWord (back.flatMap Piece.text) := by
    intro hword
    exact Rule.wordEnds_iff.1 (htakes.wordEnds hword)
  clear hspans hpiece htakes hbefore hfront h
  obtain ⟨rule, text, pos, before⟩ := s
  obtain ⟨kind, hkind, rfl⟩ := Option.map_eq_some_iff.1 htoken
  cases rule with
  | comment | whitespace | stray => cases hkind
  | assign | operator | delimiter =>
    cases hkind
    trivial
  | keyword =>
    cases hkind
    have hmem : text ∈ keywords := List.contains_iff_mem.1 hspells
    by_cases hglued : before.any isWordByte
    · have hdigit := (hskipped rfl (hends.1 hglued)).2
      simp only [Token.Bounded, hglued, decide_true, Bool.and_self, if_true]
      exact ⟨Rule.isName_of_mem_keywords text hmem, hback rfl, fun _ => hdigit, fun _ => hdigit⟩
    · simp only [Token.Bounded, hglued, Bool.and_false, Bool.false_eq_true, if_false]
      exact ⟨hmem, fun hlast => hglued (hends.2 hlast), hback rfl⟩
  | identifier =>
    cases hkind
    simp only [Rule.spells, Bool.and_eq_true, Bool.not_eq_true'] at hspells
    have hreserved : text ∉ keywords := by simpa using hspells.2
    exact ⟨hspells.1, hback rfl, fun hlast => (hskipped rfl hlast).2, fun hmem => absurd hmem hreserved⟩
  | integer =>
    cases hkind
    simp only [Rule.spells, Bool.and_eq_true, Bool.not_eq_true', List.isEmpty_eq_false_iff,
      List.all_eq_true] at hspells
    exact ⟨hspells.1, hspells.2, fun hlast => (hskipped rfl hlast).1 rfl, hback rfl⟩

/-- A skipped digit belongs to a run of digits that runs into a name. -/
theorem inGluedRun_of_skip {front back : List Piece} {k : Stray} (h : pieces file src = front ++ .skip k :: back)
    {i : Nat} {d : UInt8} (hd : k.text[i]? = some d) (hdigit : isDigit d) :
    src.InGluedRun ((front.flatMap Piece.text).length + i) := by
  obtain ⟨xs, s, ys, -, -, hpiece, htakes, -⟩ := exists_span h
  have hwhole : src = front.flatMap Piece.text ++ (k.text ++ back.flatMap Piece.text) := by
    rw [← flatMap_text_pieces file src, h, List.flatMap_append, List.flatMap_cons, Piece.text]
  have hstray : s.rule = .stray ∧ s.text = k.text := by
    rcases s.piece_cases with ⟨-, t, htoken, -⟩ | ⟨hrule, hskip, -⟩ | ⟨-, hblank, -⟩
    · rw [htoken] at hpiece
      cases hpiece
    · rw [hskip] at hpiece
      cases hpiece
      exact ⟨hrule, rfl⟩
    · rw [hblank] at hpiece
      cases hpiece
  rw [hstray.1, hstray.2] at htakes
  obtain ⟨htext, -, hglues⟩ := htakes.digit_of_stray (List.mem_of_getElem? hd) (isWordByte_iff.2 (Or.inl hdigit))
  have hplace : i = 0 := by
    have hlength := (List.getElem?_eq_some_iff.1 hd).1
    rw [htext] at hlength
    simpa using hlength
  rw [hwhole, htext, hplace]
  exact hglues.inGluedRun hdigit _

/-- A digit is skipped where it is in no token and no comment, and then it belongs to such a run. -/
theorem skipped_iff {k : Nat} {d : UInt8} (hd : src[k]? = some d) (hdigit : isDigit d) :
    (∃ s, Piece.at? (pieces file src) k = some (.skip s)) ↔
      (∀ t, Piece.at? (pieces file src) k ≠ some (.token t)) ∧
      (∀ text, IsComment text → Piece.at? (pieces file src) k ≠ some (.blank text)) ∧ src.InGluedRun k := by
  rw [← flatMap_text_pieces file src] at hd
  obtain ⟨front, piece, back, hsplit, hat, hle, hbyte⟩ := Piece.exists_at? _ k hd
  rw [hat]
  constructor
  · rintro ⟨s, hs⟩
    obtain rfl := Option.some.inj hs
    have hrun := inGluedRun_of_skip hsplit hbyte hdigit
    rw [Nat.add_sub_cancel' hle] at hrun
    exact ⟨by simp, by simp, hrun⟩
  · rintro ⟨htoken, hcomment, -⟩
    cases piece with
    | token t => exact absurd rfl (htoken t)
    | skip s => exact ⟨s, rfl⟩
    | blank text =>
      -- white space holds no digits
      rcases fits_of_pieces hsplit with ⟨-, hspaces⟩ | hblank
      · have hspace := hspaces d (List.mem_of_getElem? hbyte)
        exact absurd (isWordByte_iff.2 (Or.inl hdigit)) (Rule.not_isWordByte_of_isSpace hspace)
      · exact absurd rfl (hcomment text hblank)

end Source

/-- **Words keep to word boundaries.** The pieces that scanning cuts a source into, skipping stray characters, obey
these laws: a reserved word and a number have no word byte on either side; an identifier has none behind it, and in
front of it at most a skipped digit, which an identifier that is spelled like a reserved word always has; and a digit
outside tokens and comments is skipped, which is so exactly in the runs of digits that a letter or an underscore
follows. -/
theorem words_bounded (file src : Text) : ∃ pieces : List Piece,
    pieces.flatMap Piece.text = src ∧
    Source.tokenize false file src = .ok (pieces.filterMap Piece.token?) ∧
    Source.skips false file src = pieces.filterMap Piece.skip? ∧
    (∀ front piece back, pieces = front ++ piece :: back →
      piece.Fits file (front.flatMap Piece.text) (back.flatMap Piece.text)) ∧
    (∀ front t back, pieces = front ++ .token t :: back → t.Bounded front (back.flatMap Piece.text)) ∧
    ∀ k d, src[k]? = some d → isDigit d →
      ((∃ s, Piece.at? pieces k = some (.skip s)) ↔
        (∀ t, Piece.at? pieces k ≠ some (.token t)) ∧
        (∀ text, IsComment text → Piece.at? pieces k ≠ some (.blank text)) ∧ src.InGluedRun k) := by
  refine ⟨Source.pieces file src, Source.flatMap_text_pieces file src, ?_, Source.strays_eq_pieces, ?_, ?_, ?_⟩
  · rw [← Source.tokens_eq_pieces]
    rfl
  · intro front piece back hsplit
    exact Source.fits_of_pieces hsplit
  · intro front t back hsplit
    exact Source.bounded_of_pieces hsplit
  · intro k d hd hdigit
    exact Source.skipped_iff hd hdigit

end RatLang
