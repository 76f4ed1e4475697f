import RatLang.Text.CodePoint

/-!
# Where a text can be cut

Reading a code point looks up to three bytes ahead, so the points of a text are not the points of its
parts: a sequence may lie across the cut. A cut falls between two points when they are (`Splits`). That
is so behind every ASCII byte and behind the first point of a text, and such cuts can be combined.
-/
namespace RatLang

namespace Point

theorem first_of_ascii {b : UInt8} (h : b < 0x80) (rest : Text) : first b rest = ⟨[b], some b.toNat⟩ := by
  simp [first, h]

theorem length_first_le (b : UInt8) (rest : Text) : (first b rest).bytes.length ≤ rest.length + 1 := by
  have h := congrArg List.length (bytes_first b rest)
  simp only [List.length_cons, List.length_take] at h
  omega

/-- A point depends on nothing behind its own bytes. -/
theorem first_take (b : UInt8) (rest : Text) {k : Nat} (hk : (first b rest).bytes.length ≤ k + 1) :
    first b (rest.take k) = first b rest := by
  unfold first at hk ⊢
  split
  · rfl
  · split
    · match rest, k with
      | [], _ => simp
      | c :: rest, 0 =>
        have hshort : ¬isTail c := by
          intro hc
          grind
        simp [hshort]
      | c :: rest, k + 1 => rfl
    · split
      · match rest, k with
        | [], _ => simp
        | [c], 0 | [c], k + 1 => simp
        | c :: d :: rest, 0 | c :: d :: rest, 1 =>
          have hshort : ¬(isSecond b c && isTail d) := by
            intro hcd
            grind
          simp [hshort]
        | c :: d :: rest, k + 2 => rfl
      · split
        · match rest, k with
          | [], _ => simp
          | [c], 0 | [c], k + 1 | [c, d], 0 | [c, d], 1 | [c, d], k + 2 => simp
          | c :: d :: e :: rest, 0 | c :: d :: e :: rest, 1 | c :: d :: e :: rest, 2 =>
            have hshort : ¬(isSecond b c && isTail d && isTail e) := by
              intro hcde
              grind
            simp [hshort]
          | c :: d :: e :: rest, k + 3 => rfl
        · rfl

theorem not_ascii_of_isTail {b : UInt8} (h : isTail b) : ¬b < 0x80 := by
  simp only [isTail, Bool.and_eq_true, decide_eq_true_eq] at h
  exact UInt8.not_lt.2 h.1

theorem not_ascii_of_isSecond {b c : UInt8} (h : isSecond b c) : ¬c < 0x80 := by
  unfold isSecond at h
  repeat' split at h
  all_goals grind [not_ascii_of_isTail]

/-- No ASCII byte continues a point. -/
theorem not_ascii_of_mem_first {b c : UInt8} {rest : Text} (h : c ∈ (first b rest).bytes.tail) : ¬c < 0x80 := by
  unfold first at h
  repeat' split at h
  all_goals grind [not_ascii_of_isTail, not_ascii_of_isSecond]

end Point

namespace Text

open Point

theorem points_cons (b : UInt8) (rest : Text) :
    points (b :: rest) = first b rest :: points (rest.drop ((first b rest).bytes.length - 1)) := by
  rw [points]

/-- The cut between the two parts falls between two points. -/
def Splits (a b : Text) : Prop := (a ++ b).points = a.points ++ b.points

theorem splits_nil_left (b : Text) : Splits [] b := by simp [Splits, points]

/-- A cut behind the first point of a text is one of what follows that point. -/
theorem splits_cons {x : UInt8} {a c : Text} (h : (first x (a ++ c)).bytes.length ≤ a.length + 1) :
    Splits (x :: a) c ↔ Splits (a.drop ((first x (a ++ c)).bytes.length - 1)) c := by
  have hfirst : first x a = first x (a ++ c) := by
    have htake := first_take x (a ++ c) h
    rwa [List.take_left] at htake
  unfold Splits
  rw [List.cons_append, points_cons, points_cons, hfirst, List.drop_append_of_le_length (by omega)]
  simp

/-- Whether a cut falls between two points does not depend on how far the text goes on. -/
theorem Splits.shorten {a c c' : Text} (h : Splits a c) (hbegin : c' <+: c) : Splits a c' := by
  obtain ⟨d, rfl⟩ := hbegin
  induction a using points.induct with
  | case1 => exact splits_nil_left c'
  | case2 x a p ih =>
    have hhead : first x (a ++ (c' ++ d)) = first x a := by
      have heads := congrArg List.head? h
      rw [List.cons_append, points_cons, points_cons] at heads
      simpa using heads
    have hlength := length_first_le x a
    have hshort : first x (a ++ c') = first x a := by
      have htake := first_take x (a ++ (c' ++ d)) (k := (a ++ c').length) (by rw [hhead, List.length_append]; omega)
      rwa [← List.append_assoc, List.take_left, List.append_assoc, hhead] at htake
    rw [splits_cons (by rw [hhead]; exact hlength), hhead] at h
    rw [splits_cons (by rw [hshort]; exact hlength), hshort]
    exact ih h

/-- Two cuts of one text: the second falls between two points of the whole. -/
theorem Splits.append {a b c : Text} (hab : Splits a (b ++ c)) (hbc : Splits b c) : Splits (a ++ b) c := by
  have hshort : Splits a b := hab.shorten (List.prefix_append b c)
  unfold Splits at *
  rw [List.append_assoc, hab, hbc, hshort, List.append_assoc]

/-- Two cuts of one text: the second falls between two points of what follows the first. -/
theorem Splits.of_append {a b c : Text} (hab : Splits a (b ++ c)) (h : Splits (a ++ b) c) : Splits b c := by
  have hshort : Splits a b := hab.shorten (List.prefix_append b c)
  unfold Splits at *
  rw [List.append_assoc, hab, hshort, List.append_assoc] at h
  exact List.append_cancel_left h

/-- An ASCII byte is the last of a point. -/
theorem splits_ascii {c : UInt8} (hc : c < 0x80) (b : Text) : ∀ a : Text, Splits (a ++ [c]) b
  | [] => by simp [Splits, points_cons, first_of_ascii hc, points]
  | x :: a => by
    have hwithin : (first x (a ++ [c] ++ b)).bytes.length ≤ a.length + 1 := by
      refine Nat.le_of_not_lt fun hlong => ?_
      have hmem : c ∈ (first x (a ++ [c] ++ b)).bytes.tail := by
        have hlength : (a ++ [c]).length = a.length + 1 := List.length_append
        rw [bytes_first, List.tail_cons, List.take_append, List.take_of_length_le (by omega)]
        simp
      exact not_ascii_of_mem_first hmem hc
    rw [List.cons_append, splits_cons (by rw [List.length_append]; omega), List.drop_append_of_le_length (by omega)]
    exact splits_ascii hc b (a.drop _)
termination_by a => a.length
decreasing_by simp only [List.length_drop, List.length_cons]; omega

/-- The first point of a text is read alike without the rest. -/
theorem splits_first (b : UInt8) (rest : Text) :
    Splits (first b rest).bytes (rest.drop ((first b rest).bytes.length - 1)) := by
  generalize hn : (first b rest).bytes.length - 1 = n
  have hbytes : (first b rest).bytes = b :: rest.take n := by rw [bytes_first, hn]
  have hlength := length_first_le b rest
  have hpart : rest.take n ++ rest.drop n = rest := List.take_append_drop n rest
  rw [hbytes, splits_cons (by rw [hpart, List.length_take]; omega), hpart, hn, List.drop_take, Nat.sub_self,
    List.take_zero]
  exact splits_nil_left _

theorem Splits.pointCount_append {a b : Text} (h : Splits a b) :
    (a ++ b).pointCount = a.pointCount + b.pointCount := by
  unfold Splits at h
  rw [pointCount, h, List.length_append]
  rfl

end Text

end RatLang
