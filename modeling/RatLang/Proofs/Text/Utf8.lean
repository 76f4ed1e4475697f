import RatLang.Proofs.Text.CodePoint

/-!
# Well-formed texts are made of characters

A point with a code is the UTF-8 form of the character with that code (`Point.exists_char_of_code`), so a text whose
points all have codes is the UTF-8 form of a list of characters (`Text.exists_chars`).
-/
namespace RatLang

namespace Point

/-- The point that spells a character. -/
def ofChar (c : Char) : Point := ⟨String.utf8EncodeChar c, some c.toNat⟩

theorem isTail_iff {b : UInt8} : isTail b ↔ 0x80 ≤ b.toNat ∧ b.toNat ≤ 0xbf := by
  simp [isTail, UInt8.le_iff_toNat_le]

theorem isSecond_bounds {b c : UInt8} (h : isSecond b c) :
    (0x80 ≤ c.toNat ∧ c.toNat ≤ 0xbf) ∧ (b.toNat = 0xe0 → 0xa0 ≤ c.toNat) ∧ (b.toNat = 0xed → c.toNat ≤ 0x9f) ∧
      (b.toNat = 0xf0 → 0x90 ≤ c.toNat) ∧ (b.toNat = 0xf4 → c.toNat ≤ 0x8f) := by
  simp only [isSecond, isTail, beq_iff_eq, ← UInt8.toNat_inj] at h
  repeat' split at h
  all_goals
    simp [UInt8.le_iff_toNat_le] at *
    omega

/-- The four lengths of a well-formed sequence. -/
theorem first_eq_of_code {b : UInt8} {rest : Text} {n : Nat} (h : (first b rest).code = some n) :
    (b.toNat < 0x80 ∧ first b rest = ⟨[b], some b.toNat⟩) ∨
    (∃ c, 0xc2 ≤ b.toNat ∧ b.toNat ≤ 0xdf ∧ isTail c ∧
      first b rest = ⟨[b, c], some (assemble (b.toNat % 32) [c])⟩) ∨
    (∃ c d, 0xe0 ≤ b.toNat ∧ b.toNat ≤ 0xef ∧ isSecond b c ∧ isTail d ∧
      first b rest = ⟨[b, c, d], some (assemble (b.toNat % 16) [c, d])⟩) ∨
    ∃ c d e, 0xf0 ≤ b.toNat ∧ b.toNat ≤ 0xf4 ∧ isSecond b c ∧ isTail d ∧ isTail e ∧
      first b rest = ⟨[b, c, d, e], some (assemble (b.toNat % 8) [c, d, e])⟩ := by
  generalize hp : first b rest = p at h ⊢
  unfold first at hp
  simp only [UInt8.le_iff_toNat_le, UInt8.lt_iff_toNat_lt, Bool.and_eq_true, decide_eq_true_eq] at hp
  split at hp
  · next hb => exact .inl ⟨hb, hp.symm⟩
  · split at hp
    · next hb =>
      split at hp
      · split at hp
        · next hc => exact .inr (.inl ⟨_, hb.1, hb.2, hc, hp.symm⟩)
        · simp [← hp] at h
      · simp [← hp] at h
    · split at hp
      · next hb =>
        split at hp
        · split at hp
          · next hc => exact .inr (.inr (.inl ⟨_, _, hb.1, hb.2, hc.1, hc.2, hp.symm⟩))
          · simp [← hp] at h
        · simp [← hp] at h
      · split at hp
        · next hb =>
          split at hp
          · split at hp
            · next hc => exact .inr (.inr (.inr ⟨_, _, _, hb.1, hb.2, hc.1.1, hc.1.2, hc.2, hp.symm⟩))
            · simp [← hp] at h
          · simp [← hp] at h
        · simp [← hp] at h

theorem exists_char_of_isValidChar {m : Nat} (h : m.isValidChar) : ∃ x : Char, x.val.toNat = m := by
  refine ⟨Char.ofNat m, ?_⟩
  rw [Char.ofNat, dif_pos h]
  rfl

theorem ofNat_eq_byte {b : UInt8} {m : Nat} (h : m = b.toNat) : UInt8.ofNat m = b := by
  rw [h, UInt8.ofNat_toNat]

/-- A well-formed sequence spells a character, and the character is written by that very sequence. -/
theorem exists_char_of_code {b : UInt8} {rest : Text} {n : Nat} (h : (first b rest).code = some n) :
    ∃ x : Char, first b rest = ofChar x := by
  -- The ranges of the bytes give the range of the number, and with it the branch of the encoder.
  rcases first_eq_of_code h with ⟨hb, hf⟩ | ⟨c, hlow, hhigh, hc, hf⟩ | ⟨c, d, hlow, hhigh, hc, hd, hf⟩ |
    ⟨c, d, e, hlow, hhigh, hc, hd, he, hf⟩
  · obtain ⟨x, hx⟩ := exists_char_of_isValidChar (m := b.toNat) (.inl (by omega))
    refine ⟨x, ?_⟩
    simp only [hf, ofChar, Char.toNat, String.utf8EncodeChar, hx]
    rw [if_pos (by omega), UInt8.ofNat_toNat]
  · have hc := isTail_iff.1 hc
    obtain ⟨x, hx⟩ := exists_char_of_isValidChar (m := b.toNat % 32 * 64 + c.toNat % 64) (.inl (by omega))
    refine ⟨x, ?_⟩
    simp only [hf, ofChar, Char.toNat, String.utf8EncodeChar, hx]
    rw [if_neg (by omega), if_pos (by omega), ofNat_eq_byte (b := b) (by omega), ofNat_eq_byte (b := c) (by omega)]
    rfl
  · have hc := isSecond_bounds hc
    have hd := isTail_iff.1 hd
    obtain ⟨x, hx⟩ := exists_char_of_isValidChar (m := (b.toNat % 16 * 64 + c.toNat % 64) * 64 + d.toNat % 64)
      (by unfold Nat.isValidChar; omega)
    refine ⟨x, ?_⟩
    simp only [hf, ofChar, Char.toNat, String.utf8EncodeChar, hx]
    rw [if_neg (by omega), if_neg (by omega), if_pos (by omega), ofNat_eq_byte (b := b) (by omega),
      ofNat_eq_byte (b := c) (by omega), ofNat_eq_byte (b := d) (by omega)]
    rfl
  · have hc := isSecond_bounds hc
    have hd := isTail_iff.1 hd
    have he := isTail_iff.1 he
    obtain ⟨x, hx⟩ := exists_char_of_isValidChar
      (m := ((b.toNat % 8 * 64 + c.toNat % 64) * 64 + d.toNat % 64) * 64 + e.toNat % 64)
      (by unfold Nat.isValidChar; omega)
    refine ⟨x, ?_⟩
    simp only [hf, ofChar, Char.toNat, String.utf8EncodeChar, hx]
    rw [if_neg (by omega), if_neg (by omega), if_neg (by omega), ofNat_eq_byte (b := b) (by omega),
      ofNat_eq_byte (b := c) (by omega), ofNat_eq_byte (b := d) (by omega), ofNat_eq_byte (b := e) (by omega)]
    rfl

end Point

/-- The points of a well-formed text are those of some characters. -/
theorem Text.exists_chars {t : Text} (h : t.isUtf8) :
    ∃ cs : List Char, t.points = cs.map Point.ofChar ∧ t = cs.flatMap String.utf8EncodeChar := by
  have hpoints : ∃ cs : List Char, t.points = cs.map Point.ofChar := by
    unfold isUtf8 at h
    fun_induction points t with
    | case1 => exact ⟨[], rfl⟩
    | case2 b rest p ih =>
      rw [List.all_cons, Bool.and_eq_true] at h
      obtain ⟨n, hn⟩ := Option.isSome_iff_exists.1 h.1
      obtain ⟨c, hc⟩ := Point.exists_char_of_code hn
      obtain ⟨cs, hcs⟩ := ih h.2
      exact ⟨c :: cs, by rw [hcs, List.map_cons, ← hc]⟩
  obtain ⟨cs, hcs⟩ := hpoints
  refine ⟨cs, hcs, ?_⟩
  rw [← flatMap_bytes_points t, hcs, List.flatMap_map]
  rfl

end RatLang
