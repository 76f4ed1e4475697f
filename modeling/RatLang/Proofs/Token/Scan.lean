import RatLang.Token.Scan

/-!
# What the scanner's rules take

Every rule of a token class takes texts of one form (`Rule.spells`). The forms overlap nowhere: a reserved word is
no identifier, since its rule is tried first, and the other classes begin with different bytes.
-/
namespace RatLang

/-- The operators. -/
def operatorTexts : List Text :=
  ["+", "-", "*", "/", "<", ">", "+=", "-=", "*=", "/=", "<=", ">=", "!="].map bytes

/-- The delimiters. -/
def delimiterTexts : List Text := [";", "\x7b", "\x7d", ",", "(", ")"].map bytes

/-- A letter or an underscore, and then any bytes of words. -/
def isName : Text → Bool
  | [] => false
  | b :: rest => (isLetter b || b == 0x5f) && rest.all isWordByte

namespace Rule

/-- The form of the texts that a rule takes; of what is no token nothing is said. -/
def spells : Rule → Text → Bool
  | keyword, t => keywords.contains t
  | identifier, t => isName t && !keywords.contains t
  | integer, t => !t.isEmpty && t.all isDigit
  | assign, t => t == bytes "="
  | operator, t => operatorTexts.contains t
  | delimiter, t => delimiterTexts.contains t
  | comment, _ | whitespace, _ | stray, _ => true

/-! ### One rule -/

theorem exists_of_length?_keyword {t : Text} {n : Nat} (h : keyword.length? t = some n) :
    ∃ k ∈ keywords, k <+: t ∧ wordEnds (t.drop k.length) ∧ n = k.length := by
  simp only [length?, Option.map_eq_some_iff] at h
  obtain ⟨k, hfind, rfl⟩ := h
  have hmem := List.mem_of_find?_eq_some hfind
  have hmatch := List.find?_some hfind
  simp only [Text.startsWith, Bool.and_eq_true, List.isPrefixOf_iff_prefix] at hmatch
  exact ⟨k, hmem, hmatch.1, hmatch.2, rfl⟩

theorem not_prefix_of_length?_keyword {t : Text} (h : keyword.length? t = none) {k : Text} (hk : k ∈ keywords)
    (hstart : k <+: t) : ¬wordEnds (t.drop k.length) := by
  simp only [length?, Option.map_eq_none_iff, List.find?_eq_none, Text.startsWith, Bool.and_eq_true,
    List.isPrefixOf_iff_prefix, not_and] at h
  exact h k hk hstart

/-- A word ends where its word bytes do. -/
theorem wordEnds_dropWhile (t : Text) : wordEnds (t.dropWhile isWordByte) := by
  cases h : t.dropWhile isWordByte with
  | nil => rfl
  | cons b rest =>
    have hne : t.dropWhile isWordByte ≠ [] := by simp [h]
    have hhead := List.head_dropWhile_not isWordByte hne
    simp only [h, List.head_cons] at hhead
    simp [wordEnds, hhead]

theorem take_length_takeWhile (p : UInt8 → Bool) (t : Text) : t.take (t.takeWhile p).length = t.takeWhile p :=
  (List.prefix_iff_eq_take.1 (List.takeWhile_prefix p)).symm

theorem drop_length_takeWhile (p : UInt8 → Bool) (t : Text) : t.drop (t.takeWhile p).length = t.dropWhile p := by
  have hsplit : t.drop (t.takeWhile p).length = (t.takeWhile p ++ t.dropWhile p).drop (t.takeWhile p).length := by
    rw [List.takeWhile_append_dropWhile]
  rw [hsplit, List.drop_left]

theorem spells_keyword {b : UInt8} {rest : Text} {n : Nat} (h : keyword.length? (b :: rest) = some n) :
    keyword.spells (b :: rest.take (n - 1)) := by
  obtain ⟨k, hk, hprefix, -, rfl⟩ := exists_of_length?_keyword h
  have htake : b :: rest.take (k.length - 1) = k := by
    have hpos : k ≠ [] := by
      rintro rfl
      exact absurd hk (by decide)
    have hall : k = (b :: rest).take k.length := List.prefix_iff_eq_take.1 hprefix
    cases k with
    | nil => exact absurd rfl hpos
    | cons c k => simpa using hall.symm
  rw [htake]
  exact List.contains_iff_mem.2 hk

/-- An identifier is no reserved word: that would have been taken by the rule before. -/
theorem spells_identifier {b : UInt8} {rest : Text} {n : Nat} (hkeyword : keyword.length? (b :: rest) = none)
    (h : identifier.length? (b :: rest) = some n) : identifier.spells (b :: rest.take (n - 1)) := by
  simp only [length?] at h
  split at h
  · rename_i hfirst
    cases h
    rw [Nat.add_sub_cancel_left, take_length_takeWhile]
    have hname : isName (b :: rest.takeWhile isWordByte) := by
      simp only [isName, hfirst, Bool.true_and]
      exact List.all_takeWhile
    have hreserved : b :: rest.takeWhile isWordByte ∉ keywords := by
      intro hmem
      refine not_prefix_of_length?_keyword hkeyword hmem ?_ ?_
      · rw [List.prefix_cons_inj]
        exact List.takeWhile_prefix ..
      · rw [List.length_cons, List.drop_succ_cons, drop_length_takeWhile]
        exact wordEnds_dropWhile rest
    simpa [spells, hname] using hreserved
  · cases h

theorem spells_integer {b : UInt8} {rest : Text} {n : Nat} (h : integer.length? (b :: rest) = some n) :
    integer.spells (b :: rest.take (n - 1)) := by
  simp only [length?] at h
  split at h
  · rename_i hfirst
    cases h
    rw [Bool.and_eq_true] at hfirst
    rw [Nat.add_sub_cancel_left, take_length_takeWhile]
    simp only [spells, List.isEmpty_cons, Bool.not_false, Bool.true_and, List.all_cons, hfirst.1]
    exact List.all_takeWhile
  · cases h

theorem spells_assign {b : UInt8} {rest : Text} {n : Nat} (h : assign.length? (b :: rest) = some n) :
    assign.spells (b :: rest.take (n - 1)) := by
  unfold length? at h
  split at h <;> first | contradiction | skip
  rename_i heq
  cases heq
  cases h
  simp only [Nat.sub_self, List.take_zero]
  decide

theorem spells_operator {b : UInt8} {rest : Text} {n : Nat} (h : operator.length? (b :: rest) = some n) :
    operator.spells (b :: rest.take (n - 1)) := by
  unfold length? at h
  split at h <;> first | contradiction | skip
  · rename_i heq
    cases heq
    cases h
    simp only [Nat.add_one_sub_one, List.take_succ_cons, List.take_zero]
    decide
  · rename_i heq
    cases heq
    split at h
    · rename_i hbyte
      cases h
      simp only [isOperatorByte, Bool.or_eq_true, beq_iff_eq] at hbyte
      split
      · rename_i hequals
        obtain ⟨rest, rfl⟩ := List.head?_eq_some_iff.1 hequals
        rcases hbyte with ((((rfl | rfl) | rfl) | rfl) | rfl) | rfl
        all_goals
          simp only [Nat.add_one_sub_one, List.take_succ_cons, List.take_zero]
          decide
      · rcases hbyte with ((((rfl | rfl) | rfl) | rfl) | rfl) | rfl
        all_goals
          simp only [Nat.sub_self, List.take_zero]
          decide
    · cases h

theorem spells_delimiter {b : UInt8} {rest : Text} {n : Nat} (h : delimiter.length? (b :: rest) = some n) :
    delimiter.spells (b :: rest.take (n - 1)) := by
  simp only [length?] at h
  split at h
  · rename_i hbyte
    cases h
    simp only [isDelimiter, Bool.or_eq_true, beq_iff_eq] at hbyte
    rcases hbyte with ((((rfl | rfl) | rfl) | rfl) | rfl) | rfl
    all_goals
      simp only [Nat.sub_self, List.take_zero]
      decide
  · cases h

/-! ### The first rule that matches -/

/-- The rule that is picked matches; an identifier is picked where no reserved word matches. -/
theorem length?_pick {t : Text} (h : t ≠ []) :
    (pick t).1.length? t = some (pick t).2 ∧ ((pick t).1 = .identifier → keyword.length? t = none) := by
  obtain ⟨b, rest, rfl⟩ := List.exists_cons_of_ne_nil h
  have hstray : stray.length? (b :: rest) = some (Point.first b rest).bytes.length := rfl
  cases hfind : order.findSome? fun rule => (rule.length? (b :: rest)).map fun n => (rule, n) with
  | none =>
    have hnone := List.findSome?_eq_none_iff.1 hfind stray (by decide)
    rw [hstray] at hnone
    cases hnone
  | some found =>
    have hpick : pick (b :: rest) = found := by rw [pick, hfind, Option.getD_some]
    rw [hpick]
    obtain ⟨before, rule, after, horder, hrule, hbefore⟩ := List.findSome?_eq_some_iff.1 hfind
    obtain ⟨n, hn, rfl⟩ := Option.map_eq_some_iff.1 hrule
    refine ⟨hn, fun hidentifier => ?_⟩
    have hkeyword : keyword ∈ before := by
      -- identifiers come third, behind comments and reserved words
      obtain rfl : rule = .identifier := hidentifier
      match before with
      | [] => simp [order] at horder
      | [_] => simp [order] at horder
      | _ :: k :: _ =>
        simp only [order, List.cons_append, List.cons.injEq] at horder
        simp [horder.2.1]
    exact Option.map_eq_none_iff.1 (hbefore keyword hkeyword)

theorem pick_spells (b : UInt8) (rest : Text) :
    (pick (b :: rest)).1.spells (b :: rest.take ((pick (b :: rest)).2 - 1)) := by
  obtain ⟨hlength, hkeyword⟩ := length?_pick (List.cons_ne_nil b rest)
  cases hrule : (pick (b :: rest)).1 with
  | keyword => exact spells_keyword (hrule ▸ hlength)
  | identifier => exact spells_identifier (hkeyword hrule) (hrule ▸ hlength)
  | integer => exact spells_integer (hrule ▸ hlength)
  | assign => exact spells_assign (hrule ▸ hlength)
  | operator => exact spells_operator (hrule ▸ hlength)
  | delimiter => exact spells_delimiter (hrule ▸ hlength)
  | comment => rfl
  | whitespace => rfl
  | stray => rfl

end Rule

/-! ### Spans and tokens -/

theorem spells_of_mem_spans {pos : Position} {before : Option UInt8} {t : Text} {s : Span}
    (h : s ∈ spans pos before t) : s.rule.spells s.text := by
  fun_induction spans pos before t with
  | case1 => cases h
  | case2 pos before b rest found text ih =>
    rcases List.mem_cons.1 h with rfl | h
    · exact Rule.pick_spells b rest
    · exact ih h

/-- The texts that have a place of their own in the grammar, with their kinds. -/
def fixedTexts : List (Kind × Text) :=
  [(.keyword, bytes "integer"), (.keyword, bytes "while"), (.keyword, bytes "put"), (.assign, bytes "="),
    (.delimiter, bytes ";"), (.delimiter, bytes ","), (.delimiter, bytes "("), (.delimiter, bytes ")"),
    (.delimiter, bytes "\x7b"), (.delimiter, bytes "\x7d")]

/-- A token whose text has a place of its own has the kind of that text. -/
def Token.Coherent (t : Token) : Prop := ∀ fixed ∈ fixedTexts, t.lexeme = fixed.2 → t.kind = fixed.1

theorem Rule.kind?_eq_of_spells_fixed : ∀ fixed ∈ fixedTexts, ∀ rule ∈ Rule.order, rule.spells fixed.2 →
    rule.kind? = none ∨ rule.kind? = some fixed.1 := by decide

namespace Source

theorem exists_rule_of_mem_plainTokens {file src : Text} {t : Token} (h : t ∈ plainTokens file src) :
    ∃ rule : Rule, rule.kind? = some t.kind ∧ rule.spells t.lexeme := by
  obtain ⟨s, hs, ht⟩ := List.mem_filterMap.1 h
  obtain ⟨kind, hkind, rfl⟩ := Option.map_eq_some_iff.1 ht
  exact ⟨s.rule, hkind, spells_of_mem_spans hs⟩

/-- The kinds that the rules give go with the texts. -/
theorem coherent_of_mem_plainTokens {file src : Text} {t : Token} (h : t ∈ plainTokens file src) : t.Coherent := by
  obtain ⟨rule, hkind, hspells⟩ := exists_rule_of_mem_plainTokens h
  intro fixed hfixed hlexeme
  have horder : rule ∈ Rule.order := by cases rule <;> decide
  rw [hlexeme] at hspells
  rcases Rule.kind?_eq_of_spells_fixed fixed hfixed rule horder hspells with hnone | hsome
  · rw [hnone] at hkind
    cases hkind
  · rw [hsome] at hkind
    exact (Option.some.inj hkind).symm

/-- Integers are made of digits. -/
theorem digits_of_mem_plainTokens {file src : Text} {t : Token} (h : t ∈ plainTokens file src)
    (hinteger : t.kind = .integer) : t.lexeme ≠ [] ∧ ∀ b ∈ t.lexeme, isDigit b := by
  obtain ⟨rule, hkind, hspells⟩ := exists_rule_of_mem_plainTokens h
  rw [hinteger] at hkind
  have hrule : rule = .integer := by
    cases rule with
    | integer => rfl
    | _ => simp [Rule.kind?] at hkind
  subst hrule
  simpa [Rule.spells] using hspells

end Source

end RatLang
