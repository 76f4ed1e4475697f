import Mathlib.Algebra.Group.Nat.Defs
import RatLang.Proofs.Text.CodePoint
import RatLang.Position

/-!
# Positions and the text in front

A position is carried along span by span: lines and columns are added up, and the column starts again behind a newline.
Here that is compared with the position that the whole text in front tells at once (`Position.behind`): they agree
wherever the span begins with a code point of its own (`Position.advance_behind`).
-/
namespace RatLang

theorem Text.pointCount_le_length (t : Text) : t.pointCount ≤ t.length := by
  unfold pointCount
  induction t using points.induct with
  | case1 => simp [points]
  | case2 b rest p ih =>
    rw [List.length_drop] at ih
    rw [points_cons, List.length_cons, List.length_cons]
    exact Nat.succ_le_succ (Nat.le_trans ih (Nat.sub_le ..))

theorem Text.pointCount_of_ascii {t : Text} (h : ∀ b ∈ t, b < 0x80) : t.pointCount = t.length := by
  unfold pointCount
  induction t with
  | nil => simp [points]
  | cons b rest ih =>
    rw [points_cons, Point.first_of_ascii (h b (by simp))]
    simpa using ih fun c hc => h c (by simp [hc])

namespace Position

/-! ### The last line -/

theorem lastLine_append_of_mem {a b : Text} (h : 0x0a ∈ b) : lastLine (a ++ b) = lastLine b := by
  unfold lastLine
  rw [List.reverse_append, List.takeWhile_append]
  split
  · rename_i hlength
    have hall : b.reverse.all (· != 0x0a) := by
      rw [← (List.takeWhile_prefix _).eq_of_length hlength]
      exact List.all_takeWhile
    have hnewline := List.all_eq_true.1 hall 0x0a (List.mem_reverse.2 h)
    simp at hnewline
  · rfl

theorem lastLine_append_of_notMem {a b : Text} (h : 0x0a ∉ b) : lastLine (a ++ b) = lastLine a ++ b := by
  have hall : ∀ c ∈ b.reverse, (c != 0x0a) = true := by
    intro c hc
    rw [List.mem_reverse] at hc
    simpa using ne_of_mem_of_not_mem hc h
  unfold lastLine
  rw [List.reverse_append, List.takeWhile_append_of_pos hall, List.reverse_append, List.reverse_reverse]

/-- A text is its last line, behind nothing or behind a newline. -/
theorem exists_lines (t : Text) : ∃ lines, t = lines ++ lastLine t ∧ (lines = [] ∨ ∃ l, lines = l ++ [0x0a]) := by
  refine ⟨(t.reverse.dropWhile (· != 0x0a)).reverse, ?_, ?_⟩
  · rw [lastLine, ← List.reverse_append, List.takeWhile_append_dropWhile, List.reverse_reverse]
  · cases hd : t.reverse.dropWhile (· != 0x0a) with
    | nil => exact Or.inl rfl
    | cons b rest =>
      have hne : t.reverse.dropWhile (· != 0x0a) ≠ [] := by simp [hd]
      have hhead := List.head_dropWhile_not (· != 0x0a) hne
      simp only [hd, List.head_cons, bne_eq_false_iff_eq] at hhead
      exact Or.inr ⟨rest.reverse, by rw [List.reverse_cons, hhead]⟩

theorem splits_lastLine {a b : Text} (h : Text.Splits a b) : Text.Splits (lastLine a) b := by
  obtain ⟨lines, ha, hlines⟩ := exists_lines a
  have hcut : Text.Splits lines (lastLine a ++ b) := by
    rcases hlines with rfl | ⟨l, rfl⟩
    · exact Text.splits_nil_left _
    · exact Text.splits_ascii (by decide) _ l
  rw [ha] at h
  exact hcut.of_append h

/-! ### Positions behind a text -/

/-- The position behind the text `before` of a file: as many bytes from the start, one line more than there are
newlines, one column more than the last line has points. -/
def behind (file before : Text) : Position where
  file := file
  offset := Int64.ofNat before.length
  line := Int64.ofNat (1 + before.count 0x0a)
  column := Int64.ofNat (1 + (lastLine before).pointCount)

theorem behind_nil (file : Text) : behind file [] = start file := by
  simp [behind, start, lastLine, Text.pointCount, Text.points]

/-- Advancing by a span leads behind the span, if that begins with a point of its own. -/
theorem advance_behind {before span : Text} (h : Text.Splits before span) (file : Text) :
    (behind file before).advance span = behind file (before ++ span) := by
  by_cases hmem : 0x0a ∈ span
  · have hcount : span.count 0x0a ≠ 0 := fun hzero => List.count_eq_zero.1 hzero hmem
    simp only [advance, behind, List.length_append, List.count_append, lastLine_append_of_mem hmem, Int64.ofNat_add,
      if_neg hcount]
    simp [Int64.add_assoc]
  · have hcount : span.count 0x0a = 0 := List.count_eq_zero.2 hmem
    simp only [advance, behind, List.length_append, List.count_append, lastLine_append_of_notMem hmem, Int64.ofNat_add,
      (splits_lastLine h).pointCount_append, if_pos hcount]
    simp [Int64.add_assoc]

/-- The words are the numbers they stand for, as long as those fit. -/
theorem behind_exact {before : Text} (h : before.length + 1 < 2 ^ 63) (file : Text) :
    (behind file before).offset.toInt = before.length ∧
      (behind file before).line.toInt = 1 + before.count 0x0a ∧
      (behind file before).column.toInt = 1 + (lastLine before).pointCount := by
  have hcount : before.count 0x0a ≤ before.length := List.count_le_length
  have hline : (lastLine before).pointCount ≤ before.length := by
    obtain ⟨lines, hbefore, -⟩ := exists_lines before
    have hlength := congrArg List.length hbefore
    rw [List.length_append] at hlength
    have hpoints := (lastLine before).pointCount_le_length
    omega
  refine ⟨Int64.toInt_ofNat_of_lt (by omega), ?_, ?_⟩
  · rw [behind, Int64.toInt_ofNat_of_lt (by omega)]
    simp
  · rw [behind, Int64.toInt_ofNat_of_lt (by omega)]
    simp

end Position

end RatLang
