import RatLang.Proofs.Token.Scan

/-!
# Which rule is picked

The first byte of a span tells its rule (`Rule.lead`); only a reserved word and an identifier begin alike. So the
order of the rules matters for these two and for stray characters, and every other rule that matches is picked
(`Rule.pick_eq`).
-/
namespace RatLang

namespace Rule

/-! ### The first byte -/

/-- The rule whose spans begin with a byte, reserved words and stray characters apart. -/
def lead (b : UInt8) : Rule :=
  if b == 0x5b then comment
  else if isLetter b || b == 0x5f then identifier
  else if isDigit b then integer
  else if b == 0x3d then assign
  else if isOperatorByte b || b == 0x21 then operator
  else if isDelimiter b then delimiter
  else if isSpace b then whitespace
  else stray

theorem lead_of_isLetter {b : UInt8} (h : isLetter b || b == 0x5f) : lead b = identifier := by
  grind [lead, isLetter]

theorem lead_of_isDigit {b : UInt8} (h : isDigit b) : lead b = integer := by
  grind [lead, isLetter, isDigit]

theorem lead_of_isOperatorByte {b : UInt8} (h : isOperatorByte b) : lead b = operator := by
  simp only [isOperatorByte, Bool.or_eq_true, beq_iff_eq] at h
  rcases h with ((((rfl | rfl) | rfl) | rfl) | rfl) | rfl
  all_goals decide

theorem lead_of_isDelimiter {b : UInt8} (h : isDelimiter b) : lead b = delimiter := by
  simp only [isDelimiter, Bool.or_eq_true, beq_iff_eq] at h
  rcases h with ((((rfl | rfl) | rfl) | rfl) | rfl) | rfl
  all_goals decide

theorem lead_of_isSpace {b : UInt8} (h : isSpace b) : lead b = whitespace := by
  simp only [isSpace, Bool.or_eq_true, beq_iff_eq] at h
  rcases h with (((rfl | rfl) | rfl) | rfl) | rfl
  all_goals decide

theorem isLetter_head_of_mem_keywords : ∀ k ∈ keywords, k.head?.any isLetter := by decide

theorem isWordByte_of_mem_keywords : ∀ k ∈ keywords, k.all isWordByte := by decide

theorem isWordByte_of_isName {t : Text} (h : isName t) : t.all isWordByte := by
  cases t with
  | nil => rfl
  | cons b t =>
    simp only [isName, Bool.and_eq_true] at h
    rw [List.all_cons, Bool.and_eq_true]
    exact ⟨by grind [isWordByte], h.2⟩

theorem lead_of_keyword {b : UInt8} {rest : Text} {n : Nat} (h : keyword.length? (b :: rest) = some n) :
    lead b = identifier := by
  obtain ⟨k, hk, ⟨more, hmore⟩, -, -⟩ := exists_of_length?_keyword h
  have hletter := isLetter_head_of_mem_keywords k hk
  cases k with
  | nil => simp at hletter
  | cons c k =>
    obtain ⟨rfl, -⟩ := List.cons.inj hmore
    apply lead_of_isLetter
    rw [Bool.or_eq_true]
    exact Or.inl (by simpa using hletter)

/-- The first byte of a span tells its rule. -/
theorem lead_eq {rule : Rule} {b : UInt8} {rest : Text} {n : Nat} (h : rule.length? (b :: rest) = some n)
    (hstray : rule ≠ stray) : lead b = if rule = keyword then identifier else rule := by
  cases rule with
  | comment =>
    unfold length? at h
    split at h <;> simp_all [lead]
  | keyword => exact lead_of_keyword h
  | identifier =>
    simp only [length?, Option.ite_none_right_eq_some] at h
    exact lead_of_isLetter h.1
  | integer =>
    simp only [length?, Option.ite_none_right_eq_some, Bool.and_eq_true] at h
    exact lead_of_isDigit h.1.1
  | assign =>
    unfold length? at h
    split at h <;> simp_all
    decide
  | operator =>
    unfold length? at h
    split at h <;> simp_all
    · decide
    · exact lead_of_isOperatorByte h.1
  | delimiter =>
    simp only [length?, Option.ite_none_right_eq_some] at h
    exact lead_of_isDelimiter h.1
  | whitespace =>
    simp only [length?, Option.ite_none_right_eq_some] at h
    exact lead_of_isSpace h.1
  | stray => exact absurd rfl hstray

/-! ### The first rule -/

/-- A rule that matches is picked. A stray character is what no other rule takes, and an identifier what is no
reserved word. -/
theorem pick_eq {rule : Rule} {b : UInt8} {rest : Text} {n : Nat} (h : rule.length? (b :: rest) = some n)
    (hstray : rule ≠ stray) (hname : rule = identifier → keyword.length? (b :: rest) = none) :
    pick (b :: rest) = (rule, n) := by
  have hearlier : ∀ other ∈ order.takeWhile (· ≠ rule), other.length? (b :: rest) = none := by
    intro other hother
    cases hm : other.length? (b :: rest) with
    | none => rfl
    | some m =>
      have hlead := lead_eq h hstray
      have hotherstray : other ≠ stray := by
        rintro rfl
        cases rule <;> simp_all [order]
      rw [lead_eq hm hotherstray] at hlead
      -- of two rules for one first byte, the earlier is that of the reserved words
      cases rule <;> cases other <;> simp_all [order]
  obtain ⟨after, hsplit⟩ : ∃ after, order = order.takeWhile (· ≠ rule) ++ rule :: after := by
    cases rule <;> exact ⟨_, rfl⟩
  have hfirst := List.findSome?_eq_some_iff.2 ⟨_, rule, after, hsplit, congrArg (Option.map (rule, ·)) h,
    fun other hother => congrArg (Option.map (other, ·)) (hearlier other hother)⟩
  rw [pick, hfirst, Option.getD_some]

theorem pick_other {rule : Rule} {b : UInt8} {rest : Text} {n : Nat} (h : rule.length? (b :: rest) = some n)
    (hstray : rule ≠ stray) (hname : rule ≠ identifier) : pick (b :: rest) = (rule, n) :=
  pick_eq h hstray fun heq => absurd heq hname

/-! ### Comments and white space -/

theorem commentTail?_cons (b : UInt8) (rest : Text) : commentTail? (b :: rest) =
    if b = 0x2a ∧ rest.head? = some 0x5d then some 2 else (commentTail? rest).map (· + 1) := by
  split
  · rename_i hclose
    obtain ⟨rfl, hhead⟩ := hclose
    obtain ⟨more, rfl⟩ := List.head?_eq_some_iff.1 hhead
    rfl
  · rename_i hopen
    rw [commentTail?]
    intro more hb hmore
    exact hopen ⟨hb, by rw [hmore, List.head?_cons]⟩

theorem commentTail?_body {body : Text} (h : ¬bytes "*]" <:+: body) (rest : Text) :
    commentTail? (body ++ (bytes "*]" ++ rest)) = some (body.length + 2) := by
  induction body with
  | nil => rfl
  | cons b body ih =>
    have hbody : ¬bytes "*]" <:+: body := fun hinside => h (hinside.trans (List.suffix_cons b body).isInfix)
    have hopen : ¬(b = 0x2a ∧ (body ++ (bytes "*]" ++ rest)).head? = some 0x5d) := by
      rintro ⟨rfl, hhead⟩
      cases body with
      | nil => exact absurd (Option.some.inj hhead) (by decide)
      | cons c body =>
        obtain rfl : c = 0x5d := Option.some.inj hhead
        exact h ⟨[], body, rfl⟩
    rw [List.cons_append, commentTail?_cons, if_neg hopen, ih hbody, Option.map_some, List.length_cons,
      Nat.add_right_comm]

theorem exists_body_of_commentTail? {t : Text} {n : Nat} (h : commentTail? t = some n) :
    ∃ body rest, t = body ++ (bytes "*]" ++ rest) ∧ n = body.length + 2 ∧ ¬bytes "*]" <:+: body := by
  induction t generalizing n with
  | nil => cases h
  | cons b t ih =>
    rw [commentTail?_cons] at h
    split at h
    · rename_i hclose
      obtain ⟨rfl, hhead⟩ := hclose
      obtain ⟨rest, rfl⟩ := List.head?_eq_some_iff.1 hhead
      cases h
      exact ⟨[], rest, rfl, rfl, by decide⟩
    · rename_i hopen
      obtain ⟨m, hm, rfl⟩ := Option.map_eq_some_iff.1 h
      obtain ⟨body, rest, rfl, rfl, hbody⟩ := ih hm
      refine ⟨b :: body, rest, rfl, by rw [List.length_cons, Nat.add_right_comm], fun hinside => ?_⟩
      rcases List.infix_cons_iff.1 hinside with ⟨more, hmore⟩ | hinner
      · obtain ⟨rfl, hbody⟩ := List.cons.inj hmore
        exact hopen ⟨rfl, by rw [← hbody]; rfl⟩
      · exact hbody hinner

end Rule

/-- The text opens with `[*`, and the first `*]` behind that ends it. -/
def IsComment (t : Text) : Prop := ∃ body, t = bytes "[*" ++ body ++ bytes "*]" ∧ ¬bytes "*]" <:+: body

/-- The text is white space or a comment, and leaves no trace. -/
def IsBlank (t : Text) : Prop := (t ≠ [] ∧ ∀ b ∈ t, Rule.isSpace b) ∨ IsComment t

namespace Rule

theorem pick_comment {t : Text} (h : IsComment t) (rest : Text) : pick (t ++ rest) = (comment, t.length) := by
  obtain ⟨body, rfl, hbody⟩ := h
  have htext : bytes "[*" ++ body ++ bytes "*]" ++ rest = 0x5b :: 0x2a :: (body ++ (bytes "*]" ++ rest)) := by
    simp only [List.append_assoc]
    rfl
  have hlength : (bytes "[*" ++ body ++ bytes "*]").length = body.length + 2 + 2 := by
    rw [List.length_append, List.length_append, show (bytes "[*").length = 2 by decide,
      show (bytes "*]").length = 2 by decide]
    omega
  rw [htext, hlength]
  refine pick_other ?_ (by decide) (by decide)
  rw [length?, commentTail?_body hbody, Option.map_some]

theorem pick_space {b : UInt8} (h : isSpace b) (rest : Text) :
    pick (b :: rest) = (whitespace, 1 + (rest.takeWhile isSpace).length) :=
  pick_other (by simp [length?, h]) (by decide) (by decide)

theorem isComment_of_length? {b : UInt8} {rest : Text} {n : Nat} (h : comment.length? (b :: rest) = some n) :
    IsComment (b :: rest.take (n - 1)) := by
  unfold length? at h
  split at h <;> first | contradiction | skip
  rename_i inner heq
  obtain ⟨rfl, rfl⟩ := List.cons.inj heq
  obtain ⟨m, hm, rfl⟩ := Option.map_eq_some_iff.1 h
  obtain ⟨body, more, rfl, rfl, hbody⟩ := exists_body_of_commentTail? hm
  refine ⟨body, ?_, hbody⟩
  have hlength : (body ++ bytes "*]").length = body.length + 2 := List.length_append
  rw [← hlength, Nat.add_sub_assoc (by decide), List.take_succ_cons, ← List.append_assoc, List.take_left]
  rfl

theorem isBlank_of_length? {rule : Rule} {b : UInt8} {rest : Text} {n : Nat} (h : rule.length? (b :: rest) = some n)
    (hrule : rule = comment ∨ rule = whitespace) : IsBlank (b :: rest.take (n - 1)) := by
  rcases hrule with rfl | rfl
  · exact Or.inr (isComment_of_length? h)
  · simp only [length?, Option.ite_none_right_eq_some] at h
    obtain ⟨hspace, hn⟩ := h
    cases hn
    rw [Nat.add_sub_cancel_left, take_length_takeWhile]
    refine Or.inl ⟨List.cons_ne_nil _ _, fun c hc => ?_⟩
    rcases List.mem_cons.1 hc with rfl | hc
    · exact hspace
    · exact List.all_eq_true.1 List.all_takeWhile c hc

/-- Where a blank text begins, its rule is picked. -/
theorem pick_blank {t : Text} (h : IsBlank t) (rest : Text) :
    (pick (t ++ rest)).1 = comment ∨ (pick (t ++ rest)).1 = whitespace := by
  rcases h with ⟨hne, hspaces⟩ | hcomment
  · obtain ⟨b, t, rfl⟩ := List.exists_cons_of_ne_nil hne
    rw [List.cons_append, pick_space (hspaces b (by simp))]
    exact Or.inr rfl
  · rw [pick_comment hcomment]
    exact Or.inl rfl

/-! ### What stands behind a word -/

theorem not_isWordByte_of_isSpace {b : UInt8} (h : isSpace b) : ¬isWordByte b := by
  simp only [isSpace, Bool.or_eq_true, beq_iff_eq] at h
  rcases h with (((rfl | rfl) | rfl) | rfl) | rfl
  all_goals decide

theorem ascii_of_isSpace {b : UInt8} (h : isSpace b) : b < 0x80 := by
  simp only [isSpace, Bool.or_eq_true, beq_iff_eq] at h
  rcases h with (((rfl | rfl) | rfl) | rfl) | rfl
  all_goals decide

/-- Nothing follows, or white space or a comment does. -/
def Apart (t : Text) : Prop := ∀ b ∈ t.head?, isSpace b ∨ b = 0x5b

theorem Apart.head?_ne {t : Text} (h : Apart t) {b : UInt8} (hspace : ¬isSpace b) (hopen : b ≠ 0x5b) :
    t.head? ≠ some b := by
  intro hhead
  rcases h b hhead with hb | hb
  · exact hspace hb
  · exact hopen hb

theorem Apart.wordEnds {t : Text} (h : Apart t) : wordEnds t := by
  cases t with
  | nil => rfl
  | cons b t =>
    rcases h b rfl with hb | rfl
    · simpa [Rule.wordEnds] using not_isWordByte_of_isSpace hb
    · rfl

end Rule

theorem IsBlank.apart {gap : Text} (h : IsBlank gap) (rest : Text) : Rule.Apart (gap ++ rest) := by
  rcases h with ⟨hne, hspaces⟩ | ⟨body, rfl, -⟩
  · obtain ⟨b, gap, rfl⟩ := List.exists_cons_of_ne_nil hne
    intro c hc
    cases hc
    exact Or.inl (hspaces b (by simp))
  · intro c hc
    cases hc
    exact Or.inr rfl

end RatLang
