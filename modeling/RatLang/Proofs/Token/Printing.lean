import RatLang.Proofs.Token.Choice

/-!
# Writing and scanning

A word that is set apart from what follows is taken by its own rule, and white space and comments leave nothing, so a
text is read from left to right one word at a time (`Scans`). A reserved word is one only where no word byte stands in
front of it, and neither white space nor a comment ends with one. Main statement: the tokens of words that are written
with anything blank between them are these words (`tokenize_written`).
-/
namespace RatLang

namespace Rule

/-! ### Words -/

theorem not_isWordByte_of_wordEnds {b : UInt8} {t : Text} (h : wordEnds (b :: t)) : ¬isWordByte b := by
  simpa [wordEnds] using h

/-- Of two words at one place, both with an end, there is only one. -/
theorem eq_of_wordEnds {k t rest : Text} (hk : k.all isWordByte) (ht : t.all isWordByte) (hrest : wordEnds rest)
    (hbegin : k <+: t ++ rest) (hend : wordEnds ((t ++ rest).drop k.length)) : k = t := by
  rcases List.prefix_or_prefix_of_prefix hbegin (List.prefix_append t rest) with ⟨more, rfl⟩ | ⟨more, rfl⟩
  · cases more with
    | nil => simp
    | cons b more =>
      rw [List.append_assoc, List.drop_left] at hend
      exact absurd (List.all_eq_true.1 ht b (by simp)) (not_isWordByte_of_wordEnds hend)
  · cases more with
    | nil => simp
    | cons b more =>
      obtain ⟨last, hlast⟩ := hbegin
      rw [List.append_assoc] at hlast
      have hb : b :: (more ++ last) = rest := List.append_cancel_left hlast
      rw [← hb] at hrest
      exact absurd (List.all_eq_true.1 hk b (by simp)) (not_isWordByte_of_wordEnds hrest)

theorem length?_keyword {t rest : Text} (ht : t.all isWordByte) (hrest : wordEnds rest) :
    keyword.length? (t ++ rest) = if t ∈ keywords then some t.length else none := by
  cases h : keyword.length? (t ++ rest) with
  | some n =>
    obtain ⟨k, hk, hbegin, hend, rfl⟩ := exists_of_length?_keyword h
    obtain rfl := eq_of_wordEnds (isWordByte_of_mem_keywords k hk) ht hrest hbegin hend
    rw [if_pos hk]
  | none =>
    rw [if_neg]
    intro hmem
    refine not_prefix_of_length?_keyword h hmem (List.prefix_append t rest) ?_
    rwa [List.drop_left]

theorem takeWhile_word {p : UInt8 → Bool} {t rest : Text} (ht : t.all p) (hrest : ∀ b ∈ rest.head?, ¬p b) :
    (t ++ rest).takeWhile p = t ∧ (t ++ rest).dropWhile p = rest := by
  have hall := List.all_eq_true.1 ht
  rw [List.takeWhile_append_of_pos hall, List.dropWhile_append_of_pos hall]
  cases rest with
  | nil => simp
  | cons b rest => simp [hrest b rfl]

theorem wordEnds_head {t : Text} (h : wordEnds t) : ∀ b ∈ t.head?, ¬isWordByte b := by
  cases t with
  | nil => simp
  | cons b t =>
    intro c hc
    cases hc
    exact not_isWordByte_of_wordEnds h

theorem length?_identifier {t rest : Text} (ht : isName t) (hrest : wordEnds rest) :
    identifier.length? (t ++ rest) = some t.length := by
  cases t with
  | nil => cases ht
  | cons b t =>
    simp only [isName, Bool.and_eq_true] at ht
    rw [List.cons_append, length?, if_pos ht.1, (takeWhile_word ht.2 (wordEnds_head hrest)).1, List.length_cons,
      Nat.add_comm]

theorem length?_integer {t rest : Text} (hne : t ≠ []) (ht : t.all isDigit) (hrest : wordEnds rest) :
    integer.length? (t ++ rest) = some t.length := by
  cases t with
  | nil => exact absurd rfl hne
  | cons b t =>
    simp only [List.all_cons, Bool.and_eq_true] at ht
    have hstop : ∀ c ∈ rest.head?, ¬isDigit c := by
      intro c hc hdigit
      exact wordEnds_head hrest c hc (by simp [isWordByte, hdigit])
    obtain ⟨htake, hdrop⟩ := takeWhile_word ht.2 hstop
    rw [List.cons_append, length?, hdrop, htake, ht.1, hrest, List.length_cons, Nat.add_comm]
    rfl

/-- An operator byte, which an equals sign may follow, or an exclamation mark, which it must follow. -/
def isOperator : Text → Bool
  | [b] => isOperatorByte b
  | [b, c] => (isOperatorByte b || b == 0x21) && c == 0x3d
  | _ => false

theorem isOperator_of_mem : ∀ t ∈ operatorTexts, isOperator t := by decide

theorem length?_operator {t rest : Text} (ht : isOperator t) (hrest : rest.head? ≠ some 0x3d) :
    operator.length? (t ++ rest) = some t.length := by
  unfold isOperator at ht
  split at ht
  · rename_i b
    have hmark : b ≠ 0x21 := by
      rintro rfl
      exact absurd ht (by decide)
    simp [length?, ht, hrest, hmark]
  · rename_i b c
    simp only [Bool.and_eq_true, Bool.or_eq_true, beq_iff_eq] at ht
    obtain ⟨hb | rfl, rfl⟩ := ht
    · have hmark : b ≠ 0x21 := by
        rintro rfl
        exact absurd hb (by decide)
      simp [length?, hb, hmark]
    · rfl
  · cases ht

theorem delimiter_of_mem : ∀ t ∈ delimiterTexts, t.length = 1 ∧ t.all isDelimiter := by decide

theorem length?_delimiter {t : Text} (ht : t ∈ delimiterTexts) (rest : Text) :
    delimiter.length? (t ++ rest) = some t.length := by
  obtain ⟨hlength, hall⟩ := delimiter_of_mem t ht
  obtain ⟨b, rfl⟩ := List.length_eq_one_iff.1 hlength
  simp_all [length?]

theorem ne_nil_of_spells {rule : Rule} {t : Text} (hkind : rule.kind? ≠ none) (h : rule.spells t) : t ≠ [] := by
  rintro rfl
  revert hkind h
  cases rule <;> decide

/-- A word that is set apart is taken by its rule. -/
theorem pick_word {rule : Rule} {t rest : Text} (hkind : rule.kind? ≠ none) (h : rule.spells t) (hrest : Apart rest) :
    pick (t ++ rest) = (rule, t.length) := by
  have hends := hrest.wordEnds
  have hne := ne_nil_of_spells hkind h
  obtain ⟨b, t', rfl⟩ := List.exists_cons_of_ne_nil hne
  cases rule with
  | comment | whitespace | stray => exact absurd rfl hkind
  | keyword =>
    have hmem : b :: t' ∈ keywords := List.contains_iff_mem.1 h
    have hlength := length?_keyword (isWordByte_of_mem_keywords _ hmem) hends
    exact pick_other (hlength.trans (if_pos hmem)) (by decide) (by decide)
  | identifier =>
    simp only [spells, Bool.and_eq_true, Bool.not_eq_true', ← Bool.not_eq_true, List.contains_iff_mem] at h
    have hreserved := length?_keyword (isWordByte_of_isName h.1) hends
    exact pick_eq (length?_identifier h.1 hends) (by decide) fun _ => hreserved.trans (if_neg h.2)
  | integer =>
    simp only [spells, Bool.and_eq_true] at h
    exact pick_other (length?_integer hne h.2 hends) (by decide) (by decide)
  | assign =>
    simp only [spells, beq_iff_eq] at h
    rw [h]
    exact pick_other rfl (by decide) (by decide)
  | operator =>
    have hmem : b :: t' ∈ operatorTexts := List.contains_iff_mem.1 h
    have hequals := hrest.head?_ne (b := 0x3d) (by decide) (by decide)
    exact pick_other (length?_operator (isOperator_of_mem _ hmem) hequals) (by decide) (by decide)
  | delimiter =>
    have hmem : b :: t' ∈ delimiterTexts := List.contains_iff_mem.1 h
    exact pick_other (length?_delimiter hmem rest) (by decide) (by decide)

end Rule

/-! ### Reading on -/

/-- The kind and the text of the token of a span. -/
def Span.word? (s : Span) : Option (Kind × Text) := s.token?.map fun t => (t.kind, t.lexeme)

/-- The spans hold these words in order and no stray characters. -/
structure Holds (ss : List Span) (words : List (Kind × Text)) : Prop where
  clean : ∀ s ∈ ss, s.rule ≠ .stray
  words : ss.filterMap Span.word? = words

/-- The same span at no particular place. -/
def Span.unplaced (s : Span) : Span := { s with pos := {} }

theorem map_unplaced_spans (pos pos' : Position) (before : Option UInt8) (t : Text) :
    (spans pos before t).map Span.unplaced = (spans pos' before t).map Span.unplaced := by
  fun_induction spans pos before t generalizing pos' with
  | case1 => simp [spans]
  | case2 pos before b rest found text ih =>
    rw [spans, List.map_cons, List.map_cons, ih]
    rfl

/-- What spans hold does not depend on where the text stands. -/
theorem Holds.move {pos : Position} {before : Option UInt8} {t : Text} {words : List (Kind × Text)}
    (h : Holds (spans pos before t) words) (pos' : Position) : Holds (spans pos' before t) words := by
  have hsame := map_unplaced_spans pos pos' before t
  have hwords : ∀ ss : List Span, (ss.map Span.unplaced).filterMap Span.word? = ss.filterMap Span.word? := by
    intro ss
    rw [List.filterMap_map]
    congr 1
    funext s
    rw [Function.comp_apply, Span.word?, Span.word?, Span.token?, Span.token?, Option.map_map, Option.map_map]
    rfl
  refine ⟨fun s hs => ?_, ?_⟩
  · have hmem := List.mem_map_of_mem (f := Span.unplaced) hs
    rw [← hsame] at hmem
    obtain ⟨s', hs', heq⟩ := List.mem_map.1 hmem
    rw [show s.rule = s'.rule from (congrArg Span.rule heq).symm]
    exact h.clean s' hs'
  · rw [← hwords, ← hsame, hwords, h.words]

/-- The text is read as these words when it stands behind the byte `before`. -/
def Scans (before : Option UInt8) (t : Text) (words : List (Kind × Text)) : Prop :=
  ∀ pos, Holds (spans pos before t) words

theorem spans_of_pick {t rest : Text} {rule : Rule} (hne : t ≠ []) (h : Rule.pick (t ++ rest) = (rule, t.length))
    (pos : Position) (before : Option UInt8) :
    spans pos before (t ++ rest) = ⟨rule, t, pos, before⟩ :: spans (pos.advance t) t.getLast? rest := by
  obtain ⟨b, t, rfl⟩ := List.exists_cons_of_ne_nil hne
  rw [List.cons_append] at h ⊢
  rw [spans, h]
  simp

namespace Scans

variable {before : Option UInt8} {t : Text} {words : List (Kind × Text)}

theorem nil : Scans before [] [] := by
  intro pos
  rw [spans]
  exact ⟨by simp, rfl⟩

/-- A blank span leaves nothing. -/
theorem blank_iff {rule : Rule} {gap : Text} (hne : gap ≠ []) (hpick : Rule.pick (gap ++ t) = (rule, gap.length))
    (hrule : rule = .comment ∨ rule = .whitespace) : Scans before (gap ++ t) words ↔ Scans gap.getLast? t words := by
  have hstray : rule ≠ .stray := by rcases hrule with rfl | rfl <;> nofun
  have hword : ∀ pos, Span.word? ⟨rule, gap, pos, before⟩ = none := by
    intro pos
    rcases hrule with rfl | rfl <;> rfl
  constructor
  · intro h pos
    have hall := h pos
    rw [spans_of_pick hne hpick] at hall
    have hrest : Holds (spans (pos.advance gap) gap.getLast? t) words :=
      ⟨fun s hs => hall.clean s (List.mem_cons_of_mem _ hs), by rw [← hall.words, List.filterMap_cons_none (hword pos)]⟩
    exact hrest.move pos
  · intro h pos
    obtain ⟨hclean, hwords⟩ := h (pos.advance gap)
    rw [spans_of_pick hne hpick]
    exact ⟨List.forall_mem_cons.2 ⟨hstray, hclean⟩, by rw [List.filterMap_cons_none (hword pos), hwords]⟩

/-- A word that is set apart and not behind a word byte is read as it is. -/
theorem word {rule : Rule} {kind : Kind} {lexeme : Text} (hkind : rule.kind? = some kind) (hspells : rule.spells lexeme)
    (hbefore : ¬before.any isWordByte) (hrest : Rule.Apart t) (h : Scans lexeme.getLast? t words) :
    Scans before (lexeme ++ t) ((kind, lexeme) :: words) := by
  intro pos
  have hclass : rule.kind? ≠ none := by simp [hkind]
  have hstray : rule ≠ .stray := by
    rintro rfl
    cases hkind
  have hword : Span.word? ⟨rule, lexeme, pos, before⟩ = some (kind, lexeme) := by
    simp [Span.word?, Span.token?, hkind, hbefore]
  obtain ⟨hclean, hwords⟩ := h (pos.advance lexeme)
  rw [spans_of_pick (Rule.ne_nil_of_spells hclass hspells) (Rule.pick_word hclass hspells hrest)]
  exact ⟨List.forall_mem_cons.2 ⟨hstray, hclean⟩, by rw [List.filterMap_cons_some hword, hwords]⟩

theorem spaces_iff {b : UInt8} (hb : Rule.isSpace b) : Scans before (b :: t) words ↔
    Scans (b :: t.takeWhile Rule.isSpace).getLast? (t.dropWhile Rule.isSpace) words := by
  have hsplit : b :: t.takeWhile Rule.isSpace ++ t.dropWhile Rule.isSpace = b :: t := by
    rw [List.cons_append, List.takeWhile_append_dropWhile]
  have hpick : Rule.pick (b :: t.takeWhile Rule.isSpace ++ t.dropWhile Rule.isSpace) =
      (.whitespace, (b :: t.takeWhile Rule.isSpace).length) := by
    rw [hsplit, Rule.pick_space hb, List.length_cons, Nat.add_comm]
  have hiff : Scans before _ words ↔ _ := blank_iff (List.cons_ne_nil _ _) hpick (Or.inr rfl)
  rwa [hsplit] at hiff

/-- A byte of white space leaves nothing, though the scanner takes it together with the white space behind it. -/
theorem space {b : UInt8} (hb : Rule.isSpace b) (h : Scans (some b) t words) : Scans before (b :: t) words := by
  rw [spaces_iff hb]
  cases t with
  | nil => simpa using h
  | cons c t =>
    by_cases hc : Rule.isSpace c
    · rw [spaces_iff hc] at h
      simpa [hc] using h
    · simpa [hc] using h

/-- Blank text leaves nothing, and no word byte in front of what follows. -/
theorem blank {gap : Text} (hgap : IsBlank gap) (h : ∀ last : Option UInt8, ¬last.any isWordByte → Scans last t words) :
    Scans before (gap ++ t) words := by
  rcases hgap with ⟨hne, hspaces⟩ | hcomment
  · induction gap generalizing before with
    | nil => exact absurd rfl hne
    | cons b gap ih =>
      have hb := hspaces b (by simp)
      refine space hb ?_
      by_cases hgap : gap = []
      · subst hgap
        exact h (some b) (Rule.not_isWordByte_of_isSpace hb)
      · exact ih hgap fun c hc => hspaces c (by simp [hc])
  · have hpick := Rule.pick_comment hcomment t
    obtain ⟨body, rfl, -⟩ := hcomment
    have hlast : (bytes "[*" ++ body ++ bytes "*]").getLast? = some 0x5d := by
      rw [List.getLast?_append, show (bytes "*]").getLast? = some 0x5d by decide]
      rfl
    rw [blank_iff (by simp [bytes]) hpick (Or.inl rfl), hlast]
    exact h _ (by decide)

/-- The same of any number of blank texts. -/
theorem blanks {gaps : List Text} (hgaps : ∀ gap ∈ gaps, IsBlank gap) (hbefore : gaps ≠ [] ∨ ¬before.any isWordByte)
    (h : ∀ last : Option UInt8, ¬last.any isWordByte → Scans last t words) :
    Scans before (gaps.flatten ++ t) words := by
  induction gaps generalizing before with
  | nil => exact h before (hbefore.resolve_left (absurd rfl))
  | cons gap gaps ih =>
    rw [List.flatten_cons, List.append_assoc]
    refine blank (hgaps gap (by simp)) fun last hlast => ?_
    exact ih (fun gap hgap => hgaps gap (by simp [hgap])) (Or.inr hlast)

end Scans

/-! ### Writing and reading back -/

/-- A token to be written: a text of the form that its kind has. -/
structure Word where
  kind : Kind
  text : Text
  wellFormed : ∃ rule : Rule, rule.kind? = some kind ∧ rule.spells text

/-- White space and comments in any number and order. -/
structure Separator where
  parts : List Text
  blank : ∀ part ∈ parts, IsBlank part

/-- The text of a separator. -/
def Separator.text (s : Separator) : Text := s.parts.flatten

/-- A source of words, each with the separator behind it, and a separator in front of all. -/
def written (lead : Separator) (words : List (Word × Separator)) : Text :=
  lead.text ++ words.flatMap fun w => w.1.text ++ w.2.text

theorem Separator.parts_ne_nil {s : Separator} (h : s.text ≠ []) : s.parts ≠ [] := by
  intro hparts
  exact h (by rw [Separator.text, hparts, List.flatten_nil])

theorem Separator.apart {s : Separator} (h : s.text ≠ []) (rest : Text) : Rule.Apart (s.text ++ rest) := by
  obtain ⟨part, parts, hparts⟩ := List.exists_cons_of_ne_nil (Separator.parts_ne_nil h)
  rw [Separator.text, hparts, List.flatten_cons, List.append_assoc]
  exact (s.blank part (by simp [hparts])).apart _

/-- Words are read back, each in front of a separator and the last one perhaps in front of nothing. -/
theorem reads_words (words : List (Word × Separator)) (hapart : ∀ w ∈ words.dropLast, w.2.text ≠ [])
    {before : Option UInt8} (hbefore : ¬before.any isWordByte) :
    Scans before (words.flatMap fun w => w.1.text ++ w.2.text) (words.map fun w => (w.1.kind, w.1.text)) := by
  induction words generalizing before with
  | nil => exact Scans.nil
  | cons w words ih =>
    obtain ⟨rule, hkind, hspells⟩ := w.1.wellFormed
    rw [List.flatMap_cons, List.map_cons, List.append_assoc]
    by_cases hempty : w.2.text = []
    · -- only the last word may run into the next one
      have hlast : words = [] := by
        cases words with
        | nil => rfl
        | cons w' words => exact absurd hempty (hapart w (by simp))
      subst hlast
      rw [hempty, List.flatMap_nil, List.nil_append, List.map_nil]
      exact Scans.word hkind hspells hbefore (by simp [Rule.Apart]) Scans.nil
    · refine Scans.word hkind hspells hbefore (Separator.apart hempty _) ?_
      refine Scans.blanks w.2.blank (Or.inl (Separator.parts_ne_nil hempty)) fun last hlast => ?_
      refine ih (fun w' hw' => hapart w' ?_) hlast
      cases words with
      | nil => simp at hw'
      | cons w'' words =>
        rw [List.dropLast_cons_cons]
        exact List.mem_cons_of_mem w hw'

/-- **Scanning undoes writing**: whatever separates them, the words of a source are its tokens, and strict scanning
has nothing to refuse. -/
theorem tokenize_written (file : Text) (lead : Separator) (words : List (Word × Separator))
    (hapart : ∀ w ∈ words.dropLast, w.2.text ≠ []) :
    ∃ ts, Source.tokenize true file (written lead words) = .ok ts ∧
      ts.map (fun t => (t.kind, t.lexeme)) = words.map fun w => (w.1.kind, w.1.text) := by
  have hreads : Scans none (written lead words) (words.map fun w => (w.1.kind, w.1.text)) :=
    Scans.blanks lead.blank (Or.inr (by decide)) fun _ hlast => reads_words words hapart hlast
  obtain ⟨hclean, hwords⟩ := hreads (.start file)
  have hstrays : Source.strays file (written lead words) = [] := by
    refine List.filterMap_eq_nil_iff.2 fun s hs => ?_
    rw [Span.stray?, if_neg (hclean s hs)]
  refine ⟨Source.tokens file (written lead words), ?_, ?_⟩
  · rw [Source.tokenize, hstrays]
    rfl
  · rw [← hwords, Source.tokens, List.map_filterMap]
    rfl

/-- A comment with a bracket behind its opening and a star in front of its end. -/
def closedTwice : Separator := ⟨[bytes "[*]**]"], by
  simp only [List.mem_singleton, forall_eq]
  exact Or.inr ⟨bytes "]*", by decide, by decide⟩⟩

/-- Line ends, and a comment around a byte that is no character. -/
def brokenLines : Separator := ⟨[[0x0d, 0x0a], [0x5b, 0x2a, 0xff, 0x2a, 0x5d]], by
  simp only [List.mem_cons, List.not_mem_nil, or_false, forall_eq_or_imp, forall_eq]
  exact ⟨Or.inl ⟨by decide, by simp [Rule.isSpace]⟩, Or.inr ⟨[0xff], by decide, by decide⟩⟩⟩

/-- Nothing. -/
def noSeparator : Separator := ⟨[], by simp⟩

theorem tokenize_written_around_comments :
    ∃ ts, Source.tokenize true []
        (bytes "[*]**]while[*]**]whiles\r\n[*" ++ [0xff] ++ bytes "*]<=[*]**]=") = .ok ts ∧
      ts.map (fun t => (t.kind, t.lexeme)) =
        [(.keyword, bytes "while"), (.identifier, bytes "whiles"), (.operator, bytes "<="), (.assign, bytes "=")] :=
  tokenize_written [] closedTwice
    [(⟨.keyword, bytes "while", .keyword, rfl, by decide⟩, closedTwice),
     (⟨.identifier, bytes "whiles", .identifier, rfl, by decide⟩, brokenLines),
     (⟨.operator, bytes "<=", .operator, rfl, by decide⟩, closedTwice),
     (⟨.assign, bytes "=", .assign, rfl, by decide⟩, noSeparator)]
    (by simp only [List.dropLast]; decide)

end RatLang
