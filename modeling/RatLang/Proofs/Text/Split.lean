import RatLang.Text

/-!
# Splitting and joining

Cutting a text at a byte undoes joining pieces with that byte, if no piece holds it.
-/
namespace RatLang.Text

variable (sep : UInt8)

theorem splitOn_ne_nil (t : Text) : t.splitOn sep ≠ [] := by
  cases t with
  | nil => simp [splitOn]
  | cons b rest =>
    rw [splitOn]
    split
    · simp
    · split <;> simp

theorem splitOn_sep (rest : Text) : splitOn sep (sep :: rest) = [] :: splitOn sep rest := by
  simp [splitOn]

theorem splitOn_cons_of_ne {b : UInt8} (h : b ≠ sep) {rest piece : Text} {pieces : List Text}
    (hrest : splitOn sep rest = piece :: pieces) : splitOn sep (b :: rest) = (b :: piece) :: pieces := by
  simp [splitOn, h, hrest]

/-- The pieces on both sides of an occurrence are independent of each other. -/
theorem splitOn_append_sep (front back : Text) :
    splitOn sep (front ++ sep :: back) = splitOn sep front ++ splitOn sep back := by
  induction front with
  | nil => rw [List.nil_append, splitOn_sep, splitOn, List.singleton_append]
  | cons b rest ih =>
    by_cases hb : b = sep
    · subst hb
      rw [List.cons_append, splitOn_sep, splitOn_sep, ih, List.cons_append]
    · obtain ⟨piece, pieces, hrest⟩ := List.exists_cons_of_ne_nil (splitOn_ne_nil sep rest)
      rw [hrest, List.cons_append] at ih
      rw [List.cons_append, splitOn_cons_of_ne sep hb ih, splitOn_cons_of_ne sep hb hrest, List.cons_append]

theorem splitOn_of_notMem {t : Text} (h : sep ∉ t) : splitOn sep t = [t] := by
  induction t with
  | nil => rfl
  | cons b rest ih =>
    rw [List.mem_cons, not_or] at h
    exact splitOn_cons_of_ne sep (Ne.symm h.1) (ih h.2)

theorem notMem_of_mem_splitOn {t piece : Text} (h : piece ∈ splitOn sep t) : sep ∉ piece := by
  induction t generalizing piece with
  | nil =>
    rw [splitOn, List.mem_singleton] at h
    simp [h]
  | cons b rest ih =>
    by_cases hb : b = sep
    · subst hb
      rw [splitOn_sep, List.mem_cons] at h
      rcases h with rfl | h
      · simp
      · exact ih h
    · obtain ⟨first, pieces, hrest⟩ := List.exists_cons_of_ne_nil (splitOn_ne_nil sep rest)
      rw [splitOn_cons_of_ne sep hb hrest, List.mem_cons] at h
      rw [hrest] at ih
      rcases h with rfl | h
      · rw [List.mem_cons, not_or]
        exact ⟨Ne.symm hb, ih (List.mem_cons_self ..)⟩
      · exact ih (List.mem_cons_of_mem _ h)

theorem join_cons_cons (first second : Text) (rest : List Text) :
    join [sep] (first :: second :: rest) = first ++ sep :: join [sep] (second :: rest) := by
  simp [join, List.intercalate_cons_cons]

theorem join_concat {pieces : List Text} (hne : pieces ≠ []) (last : Text) :
    join [sep] (pieces ++ [last]) = join [sep] pieces ++ sep :: last := by
  induction pieces with
  | nil => exact absurd rfl hne
  | cons first rest ih =>
    cases rest with
    | nil => simp [join]
    | cons second rest =>
      rw [List.cons_append, List.cons_append, join_cons_cons, ← List.cons_append, ih (by simp), join_cons_cons,
        List.append_assoc, List.cons_append]

theorem splitOn_join {pieces : List Text} (hne : pieces ≠ []) (h : ∀ p ∈ pieces, sep ∉ p) :
    splitOn sep (join [sep] pieces) = pieces := by
  induction pieces with
  | nil => exact absurd rfl hne
  | cons first rest ih =>
    rw [List.forall_mem_cons] at h
    cases rest with
    | nil =>
      have hjoin : join [sep] [first] = first := by simp [join]
      rw [hjoin]
      exact splitOn_of_notMem sep h.1
    | cons second rest =>
      rw [join_cons_cons, splitOn_append_sep, splitOn_of_notMem sep h.1, ih (by simp) h.2,
        List.singleton_append]

theorem join_splitOn (t : Text) : join [sep] (t.splitOn sep) = t := by
  induction t with
  | nil => rfl
  | cons b rest ih =>
    obtain ⟨piece, pieces, hrest⟩ := List.exists_cons_of_ne_nil (splitOn_ne_nil sep rest)
    by_cases hb : b = sep
    · subst hb
      rw [splitOn_sep, hrest, join_cons_cons, ← hrest, ih, List.nil_append]
    · have hjoin : ∀ pieces : List Text, join [sep] ((b :: piece) :: pieces) = b :: join [sep] (piece :: pieces) := by
        intro pieces
        cases pieces with
        | nil => simp [join]
        | cons second pieces => rw [join_cons_cons, join_cons_cons, List.cons_append]
      rw [splitOn_cons_of_ne sep hb hrest, hjoin, ← hrest, ih]

theorem notMem_join {b : UInt8} (hb : b ≠ sep) {pieces : List Text} (h : ∀ p ∈ pieces, b ∉ p) :
    b ∉ join [sep] pieces := by
  induction pieces with
  | nil => simp [join]
  | cons first rest ih =>
    rw [List.forall_mem_cons] at h
    cases rest with
    | nil => simpa [join] using h.1
    | cons second rest =>
      rw [join_cons_cons, List.mem_append, List.mem_cons, not_or, not_or]
      exact ⟨h.1, hb, ih h.2⟩

/-- Lines can be told apart again; behind the last newline nothing is left. -/
theorem splitOn_lines {lines : List Text} (h : ∀ l ∈ lines, 0x0a ∉ l) :
    splitOn 0x0a (lines.flatMap line) = lines ++ [[]] := by
  induction lines with
  | nil => rfl
  | cons first rest ih =>
    rw [List.forall_mem_cons] at h
    rw [List.flatMap_cons, line, List.append_assoc, List.singleton_append, splitOn_append_sep,
      splitOn_of_notMem _ h.1, ih h.2, List.singleton_append, List.cons_append]

end RatLang.Text
