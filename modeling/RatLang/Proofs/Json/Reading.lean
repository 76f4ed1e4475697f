import RatLang.Proofs.Json.Spelling

/-!
# Reading JSON texts

A reader for the texts of the grammar. It takes a value from the front of a text and leaves the rest, so it can be
followed through nested values. Whatever spells a value is read as that value (`Json.read?_of_spelled`), and so a text
spells at most one.
-/
namespace RatLang.Json

/-! ### The reader -/

/-- The code point of the escape behind a backslash, and its length. -/
def readEscape? : Text → Option (Nat × Nat)
  | [] => none
  | letter :: rest =>
    if letter = 0x75 then (Numeral.hexValue? (rest.take 4)).map fun code => (code, 5)
    else (shortEscapes.find? fun e => e.2 = letter).map fun e => (e.1, 1)

/-- The characters up to the closing quote, and what follows it. -/
def readChars? : Text → Option (Text × Text)
  | [] => none
  | b :: rest =>
    if b = 0x22 then some ([], rest)
    else if b = 0x5c then do
      let (code, length) ← readEscape? rest
      let (t, after) ← readChars? (rest.drop length)
      some (pointBytes code ++ t, after)
    else do
      let (t, after) ← readChars? rest
      some (b :: t, after)
termination_by t => t.length
decreasing_by all_goals simp only [List.length_drop, List.length_cons]; omega

/-- The bytes of numbers. -/
def isNumberByte (b : UInt8) : Bool := isDigit b || b = 0x2d

mutual

/-- A value at the front of a text, and what follows it. The number bounds how deep values nest and how many stand side
by side; the length of the text is always enough (`reads`). -/
def readValue? : Nat → Text → Option (Json × Text)
  | 0, _ => none
  | _, [] => none
  | bound + 1, b :: rest =>
    if b = 0x6e then
      if bytes "ull" <+: rest then some (.null, rest.drop 3) else none
    else if b = 0x22 then do
      let (t, after) ← readChars? rest
      some (.string t, after)
    else if b = 0x5b then do
      let (items, after) ← if rest.head? = some 0x5d then some ([], rest.tail) else readItems? bound rest
      some (.array items, after)
    else if b = 0x7b then do
      let (fields, after) ← if rest.head? = some 0x7d then some ([], rest.tail) else readFields? bound rest
      some (.object fields, after)
    else do
      let n ← Numeral.integer? ((b :: rest).takeWhile isNumberByte)
      some (.number n, (b :: rest).dropWhile isNumberByte)

/-- The items up to the end of an array, and what follows it. -/
def readItems? : Nat → Text → Option (List Json × Text)
  | 0, _ => none
  | bound + 1, t => do
    let (item, rest) ← readValue? bound t
    match rest with
    | 0x5d :: after => some ([item], after)
    | 0x2c :: rest =>
      let (items, after) ← readItems? bound rest
      some (item :: items, after)
    | _ => none

/-- The fields up to the end of an object, and what follows it. -/
def readFields? : Nat → Text → Option (List (Text × Json) × Text)
  | bound + 1, 0x22 :: t => do
    let (key, rest) ← readChars? t
    match rest with
    | 0x3a :: rest =>
      let (value, rest) ← readValue? bound rest
      match rest with
      | 0x7d :: after => some ([(key, value)], after)
      | 0x2c :: rest =>
        let (fields, after) ← readFields? bound rest
        some ((key, value) :: fields, after)
      | _ => none
    | _ => none
  | _, _ => none

end

/-- The value that a whole text spells. -/
def read? (t : Text) : Option Json :=
  match readValue? t.length t with
  | some (j, []) => some j
  | _ => none

/-! ### Strings -/

theorem mem_utf8EncodeChar {c : Char} {b : UInt8} (h : b ∈ String.utf8EncodeChar c) :
    b.toNat = c.toNat ∨ 0x80 ≤ b.toNat := by
  unfold String.utf8EncodeChar at h
  unfold Char.toNat
  generalize c.val.toNat = v at h ⊢
  simp only at h
  repeat' split at h
  all_goals
    simp only [List.mem_cons, List.not_mem_nil, or_false, ← UInt8.toNat_inj, UInt8.toNat_ofNat'] at h
    omega

/-- Bytes other than quote and backslash stand for themselves. -/
theorem readChars?_plain {s : Text} (h : ∀ b ∈ s, b ≠ 0x22 ∧ b ≠ 0x5c) (rest : Text) :
    readChars? (s ++ rest) = (readChars? rest).map fun p => (s ++ p.1, p.2) := by
  induction s with
  | nil => simp
  | cons b s ih =>
    obtain ⟨hquote, hslash⟩ := h b (List.mem_cons_self ..)
    rw [List.cons_append, readChars?, if_neg hquote, if_neg hslash, ih fun x hx => h x (List.mem_cons_of_mem b hx)]
    cases readChars? rest <;> rfl

theorem find?_shortEscapes : ∀ e ∈ shortEscapes, e.2 ≠ 0x75 ∧ shortEscapes.find? (fun x => x.2 = e.2) = some e := by
  decide

theorem pointBytes_toNat (c : Char) : pointBytes c.toNat = String.utf8EncodeChar c := by
  rw [pointBytes, Char.ofNat_toNat]

theorem readChars?_escape {c : Char} {s rest : Text} (h : readEscape? (s ++ rest) = some (c.toNat, s.length)) :
    readChars? (0x5c :: s ++ rest) = (readChars? rest).map fun p => (String.utf8EncodeChar c ++ p.1, p.2) := by
  rw [List.cons_append, readChars?, if_neg (by decide), if_pos rfl, h]
  simp only [Option.bind_eq_bind, Option.bind_some, List.drop_left, pointBytes_toNat]
  cases readChars? rest <;> rfl

theorem readChars?_of_charSpelled {c : Char} {s : Text} (h : CharSpelled c s) (rest : Text) :
    readChars? (s ++ rest) = (readChars? rest).map fun p => (String.utf8EncodeChar c ++ p.1, p.2) := by
  cases h with
  | plain hcontrol hquote hescape =>
    apply readChars?_plain
    intro b hb
    have hcode := mem_utf8EncodeChar hb
    simp only [ne_eq, ← UInt8.toNat_inj, UInt8.toNat_ofNat]
    omega
  | @short letter hmem =>
    obtain ⟨hletter, hfind⟩ := find?_shortEscapes _ hmem
    apply readChars?_escape
    simp only [List.cons_append, readEscape?, if_neg hletter, hfind]
    rfl
  | @unicode digits hlength hvalue =>
    apply readChars?_escape
    simp only [List.cons_append, readEscape?, if_true, List.take_left' hlength, hvalue, List.length_cons, hlength]
    rfl

theorem readChars?_of_charsSpelled {cs : List Char} {s : Text} (h : CharsSpelled cs s) (rest : Text) :
    readChars? (s ++ 0x22 :: rest) = some (cs.flatMap String.utf8EncodeChar, rest) := by
  induction h with
  | nil => rw [List.nil_append, readChars?, if_pos rfl, List.flatMap_nil]
  | cons hc _ ih => rw [List.append_assoc, readChars?_of_charSpelled hc, ih, Option.map_some, List.flatMap_cons]

/-- A string is read from behind its opening quote. -/
theorem StringSpelled.exists_reads {t s : Text} (h : StringSpelled t s) :
    ∃ inner, s = 0x22 :: inner ∧ ∀ rest, readChars? (inner ++ rest) = some (t, rest) := by
  cases h with
  | @quoted cs s hcs =>
    refine ⟨s ++ [0x22], rfl, fun rest => ?_⟩
    rw [List.append_assoc]
    exact readChars?_of_charsSpelled hcs rest

/-! ### Numbers -/

/-- No number goes on in the text. -/
def EndsNumber (rest : Text) : Prop := ∀ b ∈ rest.head?, ¬isNumberByte b

theorem NumberSpelled.denotes {n : Int} {s : Text} (h : NumberSpelled n s) : Numeral.Denotes s n := by
  cases h with
  | plain h => exact .plain h.nonempty h.decimal
  | minus h => exact .minus h.nonempty h.decimal

theorem NumberSpelled.isNumberByte {n : Int} {s : Text} (h : NumberSpelled n s) : ∀ b ∈ s, isNumberByte b := by
  have hdigits : ∀ {digits : Text}, IsMagnitude digits → ∀ b ∈ digits, Json.isNumberByte b := by
    intro digits h b hb
    simp [Json.isNumberByte, h.decimal b hb]
  cases h with
  | plain h => exact hdigits h
  | minus h =>
    intro b hb
    rcases List.mem_cons.1 hb with rfl | hb
    · decide
    · exact hdigits h b hb

theorem NumberSpelled.exists_cons {n : Int} {s : Text} (h : NumberSpelled n s) : ∃ b rest, s = b :: rest := by
  cases h with
  | plain h => exact List.exists_cons_of_ne_nil h.nonempty
  | minus h => exact ⟨_, _, rfl⟩

theorem takeWhile_number {s rest : Text} (hs : ∀ b ∈ s, isNumberByte b) (hrest : EndsNumber rest) :
    (s ++ rest).takeWhile isNumberByte = s ∧ (s ++ rest).dropWhile isNumberByte = rest := by
  have hstop : rest.takeWhile isNumberByte = [] ∧ rest.dropWhile isNumberByte = rest := by
    cases rest with
    | nil => exact ⟨rfl, rfl⟩
    | cons b rest =>
      have hb : ¬isNumberByte b := hrest b rfl
      exact ⟨List.takeWhile_cons_of_neg hb, List.dropWhile_cons_of_neg hb⟩
  rw [List.takeWhile_append_of_pos hs, List.dropWhile_append_of_pos hs, hstop.1, hstop.2, List.append_nil]
  exact ⟨rfl, rfl⟩

theorem readValue?_number {n : Int} {s rest : Text} (h : NumberSpelled n s) (hrest : EndsNumber rest) (bound : Nat) :
    readValue? (bound + 1) (s ++ rest) = some (.number n, rest) := by
  obtain ⟨hnumeral, hafter⟩ := takeWhile_number h.isNumberByte hrest
  obtain ⟨b, more, rfl⟩ := h.exists_cons
  have hb := h.isNumberByte b (List.mem_cons_self ..)
  have hne : ∀ x, ¬Json.isNumberByte x → b ≠ x := fun x hx e => hx (e ▸ hb)
  rw [List.cons_append] at hnumeral hafter ⊢
  rw [readValue?, if_neg (hne _ (by decide)), if_neg (hne _ (by decide)), if_neg (hne _ (by decide)),
    if_neg (hne _ (by decide)), hnumeral, hafter, Numeral.integer?_of_denotes h.denotes]
  rfl

/-! ### Values -/

/-- No value begins like the end of an array. -/
theorem Spelled.exists_cons {j : Json} {s : Text} (h : Spelled j s) : ∃ b rest, s = b :: rest ∧ b ≠ 0x5d := by
  cases h with
  | null => exact ⟨_, _, rfl, by decide⟩
  | number h =>
    obtain ⟨b, rest, rfl⟩ := h.exists_cons
    have hb := h.isNumberByte b (List.mem_cons_self ..)
    refine ⟨b, rest, rfl, ?_⟩
    rintro rfl
    exact absurd hb (by decide)
  | string h =>
    obtain ⟨inner, rfl, -⟩ := h.exists_reads
    exact ⟨_, _, rfl, by decide⟩
  | array | object => exact ⟨_, _, rfl, by decide⟩

theorem ItemsSpelled.head?_ne {item : Json} {items : List Json} {s : Text} (h : ItemsSpelled (item :: items) s)
    (rest : Text) : (s ++ rest).head? ≠ some 0x5d := by
  cases h with
  | one h | cons h =>
    obtain ⟨b, more, rfl, hb⟩ := h.exists_cons
    simpa using hb

theorem FieldsSpelled.head?_ne {field : Text × Json} {fields : List (Text × Json)} {s : Text}
    (h : FieldsSpelled (field :: fields) s) (rest : Text) : (s ++ rest).head? ≠ some 0x7d := by
  cases h with
  | one name | cons name =>
    obtain ⟨inner, rfl, -⟩ := name.exists_reads
    simp

theorem endsNumber_of_head {b : UInt8} (hb : ¬isNumberByte b) (rest : Text) : EndsNumber (b :: rest) := by
  intro x hx
  rwa [← Option.some.inj hx]

/-- With this bound the reader takes whatever the grammar spells from the front of a text. -/
structure Reads (bound : Nat) : Prop where
  value {j : Json} {s : Text} (h : Spelled j s) (hbound : s.length ≤ bound) {rest : Text} (hrest : EndsNumber rest) :
    readValue? bound (s ++ rest) = some (j, rest)
  items {item : Json} {items : List Json} {s : Text} (h : ItemsSpelled (item :: items) s) (hbound : s.length < bound)
    (rest : Text) : readItems? bound (s ++ 0x5d :: rest) = some (item :: items, rest)
  fields {field : Text × Json} {fields : List (Text × Json)} {s : Text} (h : FieldsSpelled (field :: fields) s)
    (hbound : s.length < bound) (rest : Text) :
    readFields? bound (s ++ 0x7d :: rest) = some (field :: fields, rest)

theorem Reads.value_succ {bound : Nat} (reads : Reads bound) {j : Json} {s : Text} (h : Spelled j s)
    (hbound : s.length ≤ bound + 1) {rest : Text} (hrest : EndsNumber rest) :
    readValue? (bound + 1) (s ++ rest) = some (j, rest) := by
  cases h with
  | null =>
    have hnull : bytes "null" = 0x6e :: bytes "ull" := by decide
    rw [hnull, List.cons_append, readValue?, if_pos rfl, if_pos (List.prefix_append ..)]
    rfl
  | number h => exact readValue?_number h hrest bound
  | string h =>
    obtain ⟨inner, rfl, hread⟩ := h.exists_reads
    rw [List.cons_append, readValue?, if_neg (by decide), if_pos rfl, hread]
    rfl
  | @array items s h =>
    simp only [List.length_append, List.length_cons, List.length_nil] at hbound
    rw [List.append_assoc, List.cons_append, readValue?, if_neg (by decide), if_neg (by decide), if_pos rfl]
    cases items with
    | nil =>
      cases h
      rfl
    | cons item items =>
      rw [if_neg (h.head?_ne _), List.singleton_append, reads.items h (by omega)]
      rfl
  | @object fields s h =>
    simp only [List.length_append, List.length_cons, List.length_nil] at hbound
    rw [List.append_assoc, List.cons_append, readValue?, if_neg (by decide), if_neg (by decide), if_neg (by decide),
      if_pos rfl]
    cases fields with
    | nil =>
      cases h
      rfl
    | cons field fields =>
      rw [if_neg (h.head?_ne _), List.singleton_append, reads.fields h (by omega)]
      rfl

theorem Reads.items_succ {bound : Nat} (reads : Reads bound) {item : Json} {items : List Json} {s : Text}
    (h : ItemsSpelled (item :: items) s) (hbound : s.length < bound + 1) (rest : Text) :
    readItems? (bound + 1) (s ++ 0x5d :: rest) = some (item :: items, rest) := by
  rw [readItems?]
  cases h with
  | one h =>
    rw [reads.value h (by omega) (endsNumber_of_head (by decide) rest)]
    rfl
  | @cons _ next items s more h htail =>
    simp only [List.length_append, List.length_cons] at hbound
    rw [List.append_assoc, List.cons_append, reads.value h (by omega) (endsNumber_of_head (by decide) _)]
    simp only [Option.bind_eq_bind, Option.bind_some]
    rw [reads.items htail (by omega)]
    rfl

theorem Reads.fields_succ {bound : Nat} (reads : Reads bound) {field : Text × Json} {fields : List (Text × Json)}
    {s : Text} (h : FieldsSpelled (field :: fields) s) (hbound : s.length < bound + 1) (rest : Text) :
    readFields? (bound + 1) (s ++ 0x7d :: rest) = some (field :: fields, rest) := by
  cases h with
  | one name h =>
    obtain ⟨inner, rfl, hread⟩ := name.exists_reads
    simp only [List.length_append, List.length_cons] at hbound
    rw [List.append_assoc, List.cons_append, readFields?, hread]
    simp only [Option.bind_eq_bind, Option.bind_some, List.cons_append]
    rw [reads.value h (by omega) (endsNumber_of_head (by decide) rest)]
    rfl
  | cons name h htail =>
    obtain ⟨inner, rfl, hread⟩ := name.exists_reads
    simp only [List.length_append, List.length_cons] at hbound
    rw [List.append_assoc, List.append_assoc, List.cons_append, readFields?, hread]
    simp only [Option.bind_eq_bind, Option.bind_some, List.cons_append]
    rw [reads.value h (by omega) (endsNumber_of_head (by decide) _)]
    simp only [Option.bind_some]
    rw [reads.fields htail (by omega)]
    rfl

theorem reads (bound : Nat) : Reads bound := by
  induction bound with
  | zero =>
    refine ⟨fun h hbound => ?_, fun _ hbound => ?_, fun _ hbound => ?_⟩
    · obtain ⟨b, more, rfl, -⟩ := h.exists_cons
      simp at hbound
    · exact absurd hbound (Nat.not_lt_zero _)
    · exact absurd hbound (Nat.not_lt_zero _)
  | succ bound ih => exact ⟨ih.value_succ, ih.items_succ, ih.fields_succ⟩

/-- Every text that spells a value is read as that value. -/
theorem read?_of_spelled {j : Json} {s : Text} (h : Spelled j s) : read? s = some j := by
  have hend : EndsNumber [] := by simp [EndsNumber]
  have hread := (reads s.length).value h (Nat.le_refl _) hend
  rw [List.append_nil] at hread
  rw [read?, hread]

/-- A text spells at most one value. -/
theorem Spelled.unique {j j' : Json} {s : Text} (h : Spelled j s) (h' : Spelled j' s) : j = j' := by
  have hread := read?_of_spelled h
  rw [read?_of_spelled h'] at hread
  exact (Option.some.inj hread).symm

end RatLang.Json
