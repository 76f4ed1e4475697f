import RatLang.Proofs.Outcome
import RatLang.Proofs.Text.Split
import RatLang.Sums

/-!
# The sum file holds what was saved

Names and fingerprints are written in hexadecimal, so that no byte of theirs is taken for the end of a field or of
a line. Reading a sum file gives back the entries it was written from (`decode?_encode`), and a file that was not
written to its end is not read (`decode?_take`).
-/
namespace RatLang.SumFile

/-! ### Hexadecimal -/

/-- The digit that stands for a number below 16. -/
def hexDigit (d : Nat) : UInt8 := if d < 10 then digitByte d else 0x57 + d.toUInt8

theorem hexDigit_reads :
    ∀ d < 16, Numeral.digitValue? (hexDigit d) = some d ∧ hexDigit d ≠ 0x20 ∧ hexDigit d ≠ 0x0a := by
  decide

theorem hex_cons (b : UInt8) (rest : Text) :
    hex (b :: rest) = hexDigit (b.toNat / 16 % 16) :: hexDigit (b.toNat % 16) :: hex rest := rfl

theorem unhex?_hex (t : Text) : unhex? (hex t) = some t := by
  induction t with
  | nil => rfl
  | cons b rest ih =>
    have hhigh : b.toNat / 16 % 16 < 16 := Nat.mod_lt _ (by decide)
    have hlow : b.toNat % 16 < 16 := Nat.mod_lt _ (by decide)
    have hvalue : b.toNat / 16 % 16 * 16 + b.toNat % 16 = b.toNat := by
      have := b.toNat_lt
      omega
    have hbound : (16 ≤ b.toNat / 16 % 16 || 16 ≤ b.toNat % 16) = false := by
      simp [hhigh, hlow]
    rw [hex_cons, unhex?, (hexDigit_reads _ hhigh).1, (hexDigit_reads _ hlow).1, ih]
    simp only [Option.bind_eq_bind, Option.bind_some, hbound, Bool.false_eq_true, if_false, hvalue]
    rw [Nat.toUInt8_eq, UInt8.ofNat_toNat]
    rfl

/-- A byte that is no hexadecimal digit does not occur. -/
theorem notMem_hex {sep : UInt8} (hsep : sep = 0x20 ∨ sep = 0x0a) (t : Text) : sep ∉ hex t := by
  induction t with
  | nil => simp [hex]
  | cons b rest ih =>
    have hdigit : ∀ d < 16, sep ≠ hexDigit d := by
      intro d hd
      rcases hsep with rfl | rfl
      · exact (hexDigit_reads d hd).2.1.symm
      · exact (hexDigit_reads d hd).2.2.symm
    rw [hex_cons, List.mem_cons, List.mem_cons, not_or, not_or]
    exact ⟨hdigit _ (Nat.mod_lt _ (by decide)), hdigit _ (Nat.mod_lt _ (by decide)), ih⟩

/-! ### Lines -/

/-- A line without the line feed that ends it. -/
def fields (e : Text × Text) : Text := hex e.1 ++ 0x20 :: hex e.2

theorem line_eq (e : Text × Text) : line e = fields e ++ [0x0a] := by
  simp [line, fields, Text.line]

theorem entry?_fields (e : Text × Text) : entry? (fields e) = some e := by
  rw [fields, entry?, Text.splitOn_append_sep, Text.splitOn_of_notMem _ (notMem_hex (.inl rfl) _),
    Text.splitOn_of_notMem _ (notMem_hex (.inl rfl) _)]
  simp [unhex?_hex]

theorem notMem_fields (e : Text × Text) : 0x0a ∉ fields e := by
  rw [fields, List.mem_append, List.mem_cons, not_or, not_or]
  exact ⟨notMem_hex (.inr rfl) _, by decide, notMem_hex (.inr rfl) _⟩

/-- The lines of a sum file in front of the last one. -/
def body (entries : List (Text × Text)) : List Text := heading :: entries.map fields

theorem notMem_body (entries : List (Text × Text)) : ∀ l ∈ body entries, 0x0a ∉ l ∧ l ≠ closing := by
  rw [body, List.forall_mem_cons]
  refine ⟨by decide, fun l hl => ?_⟩
  obtain ⟨e, -, rfl⟩ := List.mem_map.1 hl
  refine ⟨notMem_fields e, fun heq => ?_⟩
  have hblank : 0x20 ∈ fields e := by simp [fields]
  rw [heq] at hblank
  exact absurd hblank (by decide)

theorem splitOn_encode (entries : List (Text × Text)) :
    Text.splitOn 0x0a (encode entries) = body entries ++ [closing, []] := by
  have hlines : encode entries = (body entries ++ [closing]).flatMap Text.line := by
    have hentries : entries.flatMap line = (entries.map fields).flatMap Text.line := by
      rw [List.flatMap_map]
      exact congrArg (List.flatMap · entries) (funext line_eq)
    simp [encode, body, hentries]
  rw [hlines, Text.splitOn_lines, List.append_assoc, List.singleton_append]
  intro l hl
  rcases List.mem_append.1 hl with hl | hl
  · exact (notMem_body entries l hl).1
  · rw [List.mem_singleton.1 hl]
    decide

theorem decode?_encode (entries : List (Text × Text)) : decode? (encode entries) = some entries := by
  have hclosing : [closing, []].isSuffixOf (entries.map fields ++ [closing, []]) :=
    List.isSuffixOf_iff_suffix.2 (List.suffix_append ..)
  have htake : (entries.map fields ++ [closing, []]).take ((entries.map fields ++ [closing, []]).length - 2) =
      entries.map fields := List.take_left' (by simp)
  rw [decode?, splitOn_encode, body, List.cons_append]
  simp only [hclosing, htake, mapM_map_eq_some fun e _ => entry?_fields e, beq_self_eq_true, Bool.and_self, if_true]

/-! ### Files that break off -/

theorem exists_of_decode? {content : Text} {entries : List (Text × Text)} (h : decode? content = some entries) :
    ∃ front, content = front ++ [0x0a] ∧ ∃ lines, Text.splitOn 0x0a front = lines ++ [closing] := by
  rw [decode?] at h
  split at h
  · next first lines hsplit =>
    split at h
    · next hends =>
      rw [Bool.and_eq_true] at hends
      obtain ⟨upper, rfl⟩ := List.isSuffixOf_iff_suffix.1 hends.2
      have hpieces : Text.splitOn 0x0a content = (first :: upper ++ [closing]) ++ [[]] := by simp [hsplit]
      have hne : first :: upper ++ [closing] ≠ [] := by simp
      have hcontent := Text.join_splitOn 0x0a content
      rw [hpieces, Text.join_concat 0x0a hne] at hcontent
      refine ⟨_, hcontent.symm, first :: upper, Text.splitOn_join 0x0a hne fun l hl => ?_⟩
      exact Text.notMem_of_mem_splitOn 0x0a (hpieces ▸ List.mem_append_left _ hl)
    · cases h
  · cases h

/-- The last line is where it first occurs. -/
theorem eq_of_closing {front front' back back' : List Text} (h : front ++ closing :: back = front' ++ closing :: back')
    (hfront : closing ∉ front) (hfront' : closing ∉ front') : back = back' := by
  have hindex := congrArg (List.dropWhile (· != closing)) h
  have hall : ∀ {l : List Text}, closing ∉ l → ∀ x ∈ l, (x != closing) = true := by
    intro l hl x hx
    exact bne_iff_ne.2 fun heq => hl (heq ▸ hx)
  rw [List.dropWhile_append_of_pos (hall hfront), List.dropWhile_append_of_pos (hall hfront')] at hindex
  simpa using hindex

/-- A sum file that breaks off is not read. -/
theorem decode?_take (entries : List (Text × Text)) {count : Nat} (h : count < (encode entries).length) :
    decode? ((encode entries).take count) = none := by
  cases hdecode : decode? ((encode entries).take count) with
  | none => rfl
  | some entries' =>
    obtain ⟨front, hfront, lines, hlines⟩ := exists_of_decode? hdecode
    have hwhole : front ++ 0x0a :: (encode entries).drop count = encode entries := by
      rw [← List.singleton_append, ← List.append_assoc, ← hfront, List.take_append_drop]
    have hpieces := splitOn_encode entries
    rw [← hwhole, Text.splitOn_append_sep, hlines, List.append_assoc, List.singleton_append] at hpieces
    have hbody : closing ∉ body entries := fun hmem => (notMem_body entries _ hmem).2 rfl
    have hcount := congrArg (List.count closing) hpieces
    have hnil : List.count closing [([] : Text)] = 0 := by decide
    rw [List.count_append, List.count_cons_self, List.count_append, List.count_cons_self, List.count_eq_zero.2 hbody,
      hnil] at hcount
    have hrest := eq_of_closing hpieces (List.count_eq_zero.1 (by omega)) hbody
    have hdrop := Text.join_splitOn 0x0a ((encode entries).drop count)
    rw [hrest] at hdrop
    have hlength := congrArg List.length hdrop
    rw [List.length_drop] at hlength
    have hempty : (Text.join [0x0a] [[]]).length = 0 := rfl
    omega

end RatLang.SumFile
