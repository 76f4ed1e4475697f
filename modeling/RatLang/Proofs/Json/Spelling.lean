import RatLang.Json
import RatLang.Proofs.Text.Numeral
import RatLang.Proofs.Text.Utf8

/-!
# The grammar of JSON texts

Which texts spell which value, by the rules of JSON for texts without white space and numbers without fraction and
exponent (`Json.Spelled`). A character of a string may stand for itself, unless it is a quote, a backslash or a control
character, and may be escaped. What is written for a value whose strings are UTF-8 spells that value
(`Json.spelled_compact`).
-/
namespace RatLang.Json

/-- The code points with an escape of two bytes, and the second of these. -/
def shortEscapes : List (Nat × UInt8) :=
  [(0x22, 0x22), (0x5c, 0x5c), (0x2f, 0x2f), (0x08, 0x62), (0x0c, 0x66), (0x0a, 0x6e), (0x0d, 0x72), (0x09, 0x74)]

/-- The ways to write one character inside a string. -/
inductive CharSpelled (c : Char) : Text → Prop
  | plain (control : 0x20 ≤ c.toNat) (quote : c.toNat ≠ 0x22) (escape : c.toNat ≠ 0x5c) :
      CharSpelled c (String.utf8EncodeChar c)
  | short {letter : UInt8} (h : (c.toNat, letter) ∈ shortEscapes) : CharSpelled c [0x5c, letter]
  | unicode {digits : Text} (length : digits.length = 4) (value : Numeral.hexValue? digits = some c.toNat) :
      CharSpelled c (0x5c :: 0x75 :: digits)

/-- The ways to write characters one after another. -/
inductive CharsSpelled : List Char → Text → Prop
  | nil : CharsSpelled [] []
  | cons {c : Char} {cs : List Char} {s more : Text} (head : CharSpelled c s) (tail : CharsSpelled cs more) :
      CharsSpelled (c :: cs) (s ++ more)

/-- A string is written between quotes. -/
inductive StringSpelled : Text → Text → Prop
  | quoted {cs : List Char} {s : Text} (h : CharsSpelled cs s) :
      StringSpelled (cs.flatMap String.utf8EncodeChar) (0x22 :: s ++ [0x22])

/-- Digits with no zero in front of others. -/
structure IsMagnitude (digits : Text) : Prop where
  nonempty : digits ≠ []
  decimal : ∀ b ∈ digits, isDigit b
  unpadded : digits.head? = some 0x30 → digits = [0x30]

/-- An integer is written in decimal, with a sign only if it is a minus. -/
inductive NumberSpelled : Int → Text → Prop
  | plain {digits : Text} (h : IsMagnitude digits) : NumberSpelled (Numeral.continued 10 0 digits) digits
  | minus {digits : Text} (h : IsMagnitude digits) :
      NumberSpelled (-(Numeral.continued 10 0 digits : Int)) (0x2d :: digits)

mutual

/-- The texts that spell a value. -/
inductive Spelled : Json → Text → Prop
  | null : Spelled .null (bytes "null")
  | number {n : Int} {s : Text} (h : NumberSpelled n s) : Spelled (.number n) s
  | string {t s : Text} (h : StringSpelled t s) : Spelled (.string t) s
  | array {items : List Json} {s : Text} (h : ItemsSpelled items s) : Spelled (.array items) (0x5b :: s ++ [0x5d])
  | object {fields : List (Text × Json)} {s : Text} (h : FieldsSpelled fields s) :
      Spelled (.object fields) (0x7b :: s ++ [0x7d])

/-- The texts that spell values with commas between them. -/
inductive ItemsSpelled : List Json → Text → Prop
  | nil : ItemsSpelled [] []
  | one {item : Json} {s : Text} (h : Spelled item s) : ItemsSpelled [item] s
  | cons {item next : Json} {items : List Json} {s more : Text} (head : Spelled item s)
      (tail : ItemsSpelled (next :: items) more) : ItemsSpelled (item :: next :: items) (s ++ 0x2c :: more)

/-- The texts that spell fields with commas between them. -/
inductive FieldsSpelled : List (Text × Json) → Text → Prop
  | nil : FieldsSpelled [] []
  | one {key k : Text} {value : Json} {s : Text} (name : StringSpelled key k) (h : Spelled value s) :
      FieldsSpelled [(key, value)] (k ++ 0x3a :: s)
  | cons {key k : Text} {value : Json} {next : Text × Json} {fields : List (Text × Json)} {s more : Text}
      (name : StringSpelled key k) (head : Spelled value s) (tail : FieldsSpelled (next :: fields) more) :
      FieldsSpelled ((key, value) :: next :: fields) (k ++ 0x3a :: s ++ 0x2c :: more)

end

/-! ### Strings -/

theorem utf8EncodeChar_of_ascii {c : Char} (h : c.toNat < 0x80) : String.utf8EncodeChar c = [UInt8.ofNat c.toNat] :=
  if_pos (Nat.le_of_lt_succ h)

theorem charSpelled_escapePoint (c : Char) : CharSpelled c (escapePoint (.ofChar c)) := by
  have hshort : ∀ {code : Nat} {letter : UInt8}, c.toNat = code → (code, letter) ∈ shortEscapes →
      CharSpelled c [0x5c, letter] := fun hc h => .short (hc ▸ h)
  unfold escapePoint
  simp only [Point.ofChar, Bool.or_eq_true, decide_eq_true_eq]
  split
  · next hself =>
    rcases hself with hc | hc
    · rw [utf8EncodeChar_of_ascii (by omega), hc]
      exact hshort hc (by decide)
    · rw [utf8EncodeChar_of_ascii (by omega), hc]
      exact hshort hc (by decide)
  split
  · next hc => exact hshort hc (by decide)
  split
  · next hc => exact hshort hc (by decide)
  split
  · next hc => exact hshort hc (by decide)
  split
  · next hc => exact hshort hc (by decide)
  split
  · next hc => exact hshort hc (by decide)
  split
  · next hc =>
    have hsmall : c.toNat < 16 ^ 4 := by omega
    exact .unicode (Numeral.length_hexDigits 4 c.toNat) (Numeral.hexValue?_hexDigits 4 hsmall)
  · exact .plain (by omega) (by omega) (by omega)

theorem charsSpelled_escaped (cs : List Char) :
    CharsSpelled cs ((cs.map Point.ofChar).flatMap escapePoint) := by
  induction cs with
  | nil => exact .nil
  | cons c cs ih => exact .cons (charSpelled_escapePoint c) ih

theorem stringSpelled_quote {t : Text} (h : t.isUtf8) : StringSpelled t (quote t) := by
  obtain ⟨cs, hpoints, ht⟩ := Text.exists_chars h
  rw [quote, hpoints]
  conv => arg 1; rw [ht]
  exact .quoted (charsSpelled_escaped cs)

/-! ### Numbers -/

theorem isMagnitude_natDigits (n : Nat) : IsMagnitude (natDigits n) :=
  ⟨(Numeral.natDigits_denotes n).1.1, (Numeral.natDigits_denotes n).1.2, Numeral.natDigits_unpadded n⟩

theorem numberSpelled_decimal (n : Int) : NumberSpelled n (decimal n) := by
  cases n with
  | ofNat n =>
    have hspelled := NumberSpelled.plain (isMagnitude_natDigits n)
    rwa [(Numeral.natDigits_denotes n).2] at hspelled
  | negSucc n =>
    have hspelled := NumberSpelled.minus (isMagnitude_natDigits (n + 1))
    rwa [(Numeral.natDigits_denotes (n + 1)).2] at hspelled

/-! ### Values -/

mutual

/-- Something holds of the value and of all values in it. -/
def everywhere (p : Json → Bool) : Json → Bool
  | .null => p .null
  | .number n => p (.number n)
  | .string t => p (.string t)
  | .array items => p (.array items) && everywhereItems p items
  | .object fields => p (.object fields) && everywhereFields p fields

def everywhereItems (p : Json → Bool) : List Json → Bool
  | [] => true
  | item :: items => item.everywhere p && everywhereItems p items

def everywhereFields (p : Json → Bool) : List (Text × Json) → Bool
  | [] => true
  | (_, value) :: fields => value.everywhere p && everywhereFields p fields

end

theorem everywhere_array {p : Json → Bool} {items : List Json} :
    (Json.array items).everywhere p ↔ p (.array items) ∧ ∀ item ∈ items, item.everywhere p := by
  have hitems : everywhereItems p items ↔ ∀ item ∈ items, item.everywhere p := by
    induction items with
    | nil => simp [everywhereItems]
    | cons item items ih => simp [everywhereItems, ih]
  rw [everywhere, Bool.and_eq_true, hitems]

theorem everywhere_object {p : Json → Bool} {fields : List (Text × Json)} :
    (Json.object fields).everywhere p ↔ p (.object fields) ∧ ∀ f ∈ fields, f.2.everywhere p := by
  have hfields : everywhereFields p fields ↔ ∀ f ∈ fields, f.2.everywhere p := by
    induction fields with
    | nil => simp [everywhereFields]
    | cons field fields ih =>
      obtain ⟨key, value⟩ := field
      simp [everywhereFields, ih]
  rw [everywhere, Bool.and_eq_true, hfields]

theorem everywhere_mono {p q : Json → Bool} (hpq : ∀ j, p j → q j) : ∀ {j : Json}, j.everywhere p → j.everywhere q
  | .null, h | .number _, h | .string _, h => hpq _ h
  | .array items, h => by
    obtain ⟨hself, hitems⟩ := everywhere_array.1 h
    exact everywhere_array.2 ⟨hpq _ hself, fun item hitem => everywhere_mono hpq (hitems item hitem)⟩
  | .object fields, h => by
    obtain ⟨hself, hfields⟩ := everywhere_object.1 h
    refine everywhere_object.2 ⟨hpq _ hself, fun f hf => ?_⟩
    have hsize : sizeOf f.2 < 1 + sizeOf fields := by
      have hfield := List.sizeOf_lt_of_mem hf
      cases f
      simp only [Prod.mk.sizeOf_spec] at hfield ⊢
      omega
    exact everywhere_mono hpq (hfields f hf)

/-- The string that a value is, or the names of its fields, are UTF-8. -/
def holdsUtf8 : Json → Bool
  | .string t => t.isUtf8
  | .object fields => fields.all fun f => f.1.isUtf8
  | _ => true

mutual

/-- The text that is written for a value spells it. -/
theorem spelled_compact : ∀ {j : Json}, j.everywhere holdsUtf8 → Spelled j j.compact
  | .null, _ => .null
  | .number n, _ => .number (numberSpelled_decimal n)
  | .string _, h => .string (stringSpelled_quote h)
  | .array _, h => .array (itemsSpelled_compactItems (everywhere_array.1 h).2)
  | .object _, h =>
    .object (fieldsSpelled_compactFields (List.all_eq_true.1 (everywhere_object.1 h).1) (everywhere_object.1 h).2)

theorem itemsSpelled_compactItems :
    ∀ {items : List Json}, (∀ item ∈ items, item.everywhere holdsUtf8) → ItemsSpelled items (compactItems items)
  | [], _ => .nil
  | [item], h => .one (spelled_compact (h item (List.mem_cons_self ..)))
  | item :: next :: items, h => by
    obtain ⟨hitem, hitems⟩ := List.forall_mem_cons.1 h
    have hcompact : compactItems (item :: next :: items) = item.compact ++ 0x2c :: compactItems (next :: items) := by
      rw [compactItems, List.append_assoc]
      · rfl
      · exact List.cons_ne_nil next items
    rw [hcompact]
    exact .cons (spelled_compact hitem) (itemsSpelled_compactItems hitems)

theorem fieldsSpelled_compactFields :
    ∀ {fields : List (Text × Json)}, (∀ f ∈ fields, f.1.isUtf8) → (∀ f ∈ fields, f.2.everywhere holdsUtf8) →
      FieldsSpelled fields (compactFields fields)
  | [], _, _ => .nil
  | [(key, value)], hkeys, h => by
    rw [compactFields, List.append_assoc]
    exact .one (stringSpelled_quote (hkeys _ (List.mem_cons_self ..))) (spelled_compact (h _ (List.mem_cons_self ..)))
  | (key, value) :: next :: fields, hkeys, h => by
    obtain ⟨hkey, hkeys⟩ := List.forall_mem_cons.1 hkeys
    obtain ⟨hvalue, hvalues⟩ := List.forall_mem_cons.1 h
    have hcompact : compactFields ((key, value) :: next :: fields) =
        quote key ++ 0x3a :: value.compact ++ 0x2c :: compactFields (next :: fields) := by
      rw [compactFields, List.append_assoc, List.append_assoc (quote key)]
      · rfl
      · exact List.cons_ne_nil next fields
    rw [hcompact]
    exact .cons (stringSpelled_quote hkey) (spelled_compact hvalue) (fieldsSpelled_compactFields hkeys hvalues)

end

end RatLang.Json
