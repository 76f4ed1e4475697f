import Mathlib.Algebra.Group.Nat.Defs
import RatLang.Proofs.Outcome
import RatLang.Text.Numeral

/-!
# What numerals denote

A decimal numeral is an optional sign and one or more digits, and it denotes the integer that its digits
spell (`Numeral.Denotes`). Reading succeeds exactly on the numerals whose integer fits a 64-bit word, and
then gives that integer (`Numeral.readDecimal_eq_ok_iff`).

A text of digits alone can also be read in the base that it announces, which a leading zero makes octal. The two
readings agree unless the zero changes the number (`Numeral.exists_decimal_and_announced_iff`).
-/
namespace RatLang.Numeral

/-- The number that digits spell in a base, behind digits worth `before`. -/
def continued (base before : Nat) (digits : Text) : Nat :=
  digits.foldl (fun n b => n * base + (b.toNat - 0x30)) before

/-- The integers that decimal numerals denote. -/
inductive Denotes : Text → Int → Prop
  | plain {digits : Text} (nonempty : digits ≠ []) (decimal : ∀ b ∈ digits, isDigit b) :
      Denotes digits (continued 10 0 digits)
  | plus {digits : Text} (nonempty : digits ≠ []) (decimal : ∀ b ∈ digits, isDigit b) :
      Denotes (0x2b :: digits) (continued 10 0 digits)
  | minus {digits : Text} (nonempty : digits ≠ []) (decimal : ∀ b ∈ digits, isDigit b) :
      Denotes (0x2d :: digits) (-(continued 10 0 digits : Int))

/-- A way to read numerals: which texts stand for which words. -/
abbrev Reading := Text → Int64 → Prop

/-- Numerals are read in decimal. -/
def Decimal : Reading := fun t v => Denotes t v.toInt

/-- Numerals are read in the base that they announce. -/
def Announced : Reading := fun t v => readInteger t = .ok v

/-! ### Digits -/

/-- A byte that is a digit of a base up to ten. -/
def IsDigitOf (base : Nat) (b : UInt8) : Prop := isDigit b ∧ b.toNat - 0x30 < base

theorem continued_cons (base before : Nat) (b : UInt8) (rest : Text) :
    continued base before (b :: rest) = continued base (before * base + (b.toNat - 0x30)) rest := by
  rw [continued, List.foldl_cons, continued]

theorem le_continued {base : Nat} (hbase : 0 < base) (digits : Text) :
    ∀ before : Nat, before ≤ continued base before digits := by
  induction digits with
  | nil => exact fun before => Nat.le_refl before
  | cons b rest ih =>
    intro before
    have hrest := ih (before * base + (b.toNat - 0x30))
    have hgrow : before ≤ before * base := Nat.le_mul_of_pos_right before hbase
    rw [continued_cons]
    omega

theorem isDigit_bounds {b : UInt8} (h : isDigit b) : 0x30 ≤ b.toNat ∧ b.toNat ≤ 0x39 := by
  simpa [isDigit, UInt8.le_iff_toNat_le] using h

theorem isDigitOf_ten {b : UInt8} : IsDigitOf 10 b ↔ isDigit b := by
  constructor
  · exact And.left
  · intro h
    have hbound := isDigit_bounds h
    exact ⟨h, by omega⟩

theorem digitValue?_of_isDigit {b : UInt8} (h : isDigit b) : digitValue? b = some (b.toNat - 0x30) := by
  simp [digitValue?, h]

/-- The letters that are digits of greater bases are worth ten or more. -/
theorem isDigit_of_digitValue? {b : UInt8} {d : Nat} (h : digitValue? b = some d) (hd : d < 10) :
    isDigit b := by
  unfold digitValue? at h
  split at h
  · assumption
  split at h
  · rename_i hlower
    simp only [UInt8.le_iff_toNat_le, Bool.and_eq_true, decide_eq_true_eq] at hlower
    simp only [Option.some.injEq] at h
    have : (0x61 : UInt8).toNat = 0x61 := rfl
    omega
  split at h
  · rename_i hupper
    simp only [UInt8.le_iff_toNat_le, Bool.and_eq_true, decide_eq_true_eq] at hupper
    simp only [Option.some.injEq] at h
    have : (0x41 : UInt8).toNat = 0x41 := rfl
    omega
  · cases h

/-- Digits are read as long as the number stays below 2^64, also on the way. -/
theorem magnitude_eq_ok_iff {base : Nat} (hpos : 0 < base) (hten : base ≤ 10) {digits : Text} :
    ∀ {before m : Nat}, before < 2 ^ 64 →
      (magnitude base before digits = .ok m ↔
        (∀ b ∈ digits, IsDigitOf base b) ∧ m = continued base before digits ∧ m < 2 ^ 64) := by
  induction digits with
  | nil =>
    intro before m hbefore
    simp only [magnitude, continued, List.foldl_nil, Except.ok.injEq, List.not_mem_nil, false_imp_iff,
      implies_true, true_and]
    constructor
    · rintro rfl
      exact ⟨rfl, hbefore⟩
    · rintro ⟨rfl, -⟩
      rfl
  | cons b rest ih =>
    intro before m hbefore
    by_cases hb : IsDigitOf base b
    · have hsmall : ¬base ≤ b.toNat - 0x30 := Nat.not_le_of_lt hb.2
      rw [magnitude, digitValue?_of_isDigit hb.1, continued_cons]
      simp only [hsmall, if_false, List.forall_mem_cons, hb, true_and]
      by_cases hrange : 0x10000000000000000 ≤ before * base + (b.toNat - 0x30)
      · -- the number has left the range, and the digits that follow cannot bring it back
        have hle := le_continued hpos rest (before * base + (b.toNat - 0x30))
        simp only [hrange, if_true, reduceCtorEq, false_iff, not_and]
        intro _ hm
        omega
      · simp only [hrange, if_false]
        exact ih (by omega)
    · simp only [List.forall_mem_cons, hb, false_and, iff_false]
      rw [magnitude]
      split
      · simp
      · rename_i d hd
        have hlarge : base ≤ d := by
          refine Nat.le_of_not_lt fun hsmall => hb ?_
          have hdigit := isDigit_of_digitValue? hd (by omega)
          rw [digitValue?_of_isDigit hdigit] at hd
          cases hd
          exact ⟨hdigit, hsmall⟩
        simp [hlarge]

theorem digits_eq_ok_iff {t : Text} {m : Nat} :
    digits 10 t = .ok m ↔ t ≠ [] ∧ (∀ b ∈ t, isDigit b) ∧ m = continued 10 0 t ∧ m < 2 ^ 64 := by
  cases t with
  | nil => simp [digits]
  | cons b rest =>
    have hzero : 0 < 2 ^ 64 := by decide
    simp only [digits, magnitude_eq_ok_iff (show 0 < 10 by decide) (Nat.le_refl 10) hzero, isDigitOf_ten, ne_eq,
      reduceCtorEq, not_false_eq_true, true_and]

/-! ### Signs -/

theorem signed_eq_ok_iff {negative : Bool} {m : Nat} {v : Int64} :
    signed negative m = .ok v ↔ v.toInt = if negative then -(m : Int) else m := by
  have hlow := v.le_toInt
  have hhigh := v.toInt_lt
  cases negative with
  | true =>
    simp only [signed, if_true]
    split
    · rename_i hm
      have htoInt : (Int64.ofInt (-(m : Int))).toInt = -(m : Int) :=
        Int64.toInt_ofInt_of_le (by omega) (by omega)
      rw [Except.ok.injEq, ← Int64.toInt_inj, htoInt]
      exact eq_comm
    · simp only [reduceCtorEq, false_iff]
      omega
  | false =>
    simp only [signed, Bool.false_eq_true, if_false]
    split
    · rename_i hm
      have htoInt : (Int64.ofNat m).toInt = (m : Int) := Int64.toInt_ofNat_of_lt (by omega)
      rw [Except.ok.injEq, ← Int64.toInt_inj, htoInt]
      exact eq_comm
    · simp only [reduceCtorEq, false_iff]
      omega

theorem sign_cases (t : Text) :
    (∃ rest, t = 0x2b :: rest ∧ sign t = (false, rest)) ∨
      (∃ rest, t = 0x2d :: rest ∧ sign t = (true, rest)) ∨ sign t = (false, t) := by
  unfold sign
  split
  · exact Or.inl ⟨_, rfl, rfl⟩
  · exact Or.inr (Or.inl ⟨_, rfl, rfl⟩)
  · exact Or.inr (Or.inr rfl)

/-- The sign of a text that begins with a digit is none. -/
theorem sign_of_isDigit {b : UInt8} {rest : Text} (h : isDigit b) : sign (b :: rest) = (false, b :: rest) := by
  have hbound := isDigit_bounds h
  rcases sign_cases (b :: rest) with ⟨_, heq, -⟩ | ⟨_, heq, -⟩ | hsign
  · cases heq
    exact absurd hbound (by decide)
  · cases heq
    exact absurd hbound (by decide)
  · exact hsign

/-- Reading succeeds exactly on the decimal numerals of 64-bit integers. -/
theorem readDecimal_eq_ok_iff {t : Text} {v : Int64} : readDecimal t = .ok v ↔ Decimal t v := by
  have hread : readDecimal t = .ok v ↔ ∃ m, digits 10 (sign t).2 = .ok m ∧ signed (sign t).1 m = .ok v := by
    constructor
    · intro h
      exact exists_of_bind_eq_ok h
    · rintro ⟨m, hm, hv⟩
      simp only [readDecimal, hm]
      exact hv
  rw [hread, Decimal]
  constructor
  · rintro ⟨m, hm, hv⟩
    obtain ⟨hne, hdigits, rfl, -⟩ := digits_eq_ok_iff.1 hm
    rw [signed_eq_ok_iff] at hv
    rw [hv]
    rcases sign_cases t with ⟨rest, rfl, hsign⟩ | ⟨rest, rfl, hsign⟩ | hsign
    · rw [hsign] at hne hdigits ⊢
      exact .plus hne hdigits
    · rw [hsign] at hne hdigits ⊢
      exact .minus hne hdigits
    · rw [hsign] at hne hdigits ⊢
      exact .plain hne hdigits
  · intro h
    have hlow := v.le_toInt
    have hhigh := v.toInt_lt
    generalize hz : v.toInt = z at h hlow hhigh
    cases h with
    | plain hne hdigits =>
      have hsign : sign t = (false, t) := by
        cases t with
        | nil => exact absurd rfl hne
        | cons b rest => exact sign_of_isDigit (hdigits b (List.mem_cons_self ..))
      refine ⟨continued 10 0 t, digits_eq_ok_iff.2 ?_, signed_eq_ok_iff.2 ?_⟩
      · rw [hsign]
        exact ⟨hne, hdigits, rfl, by omega⟩
      · rw [hsign, hz]
        rfl
    | plus hne hdigits =>
      rename_i ds
      exact ⟨continued 10 0 ds, digits_eq_ok_iff.2 ⟨hne, hdigits, rfl, by omega⟩, signed_eq_ok_iff.2 hz⟩
    | minus hne hdigits =>
      rename_i ds
      exact ⟨continued 10 0 ds, digits_eq_ok_iff.2 ⟨hne, hdigits, rfl, by omega⟩, signed_eq_ok_iff.2 hz⟩

/-- What a reading makes of a text can be computed. -/
def Reading.By (reads : Reading) (read : Text → Except NumeralError Int64) : Prop := ∀ t v, reads t v → read t = .ok v

theorem decimal_by : Reading.By Decimal readDecimal := fun _ _ => readDecimal_eq_ok_iff.2

theorem announced_by : Reading.By Announced readInteger := fun _ _ h => h

/-- A decimal numeral stands for one word. -/
theorem Decimal.unique {t : Text} {v w : Int64} (hv : Decimal t v) (hw : Decimal t w) : v = w := by
  have hread := readDecimal_eq_ok_iff.2 hv
  rw [readDecimal_eq_ok_iff.2 hw] at hread
  cases hread
  rfl

/-! ### Writing -/

theorem digitByte_reads : ∀ d < 10, isDigit (digitByte d) ∧ (digitByte d).toNat - 0x30 = d := by decide

theorem natDigits_denotes (n : Nat) :
    (natDigits n ≠ [] ∧ ∀ b ∈ natDigits n, isDigit b) ∧ continued 10 0 (natDigits n) = n := by
  fun_induction natDigits n with
  | case1 n hn =>
    obtain ⟨hdigit, hvalue⟩ := digitByte_reads n hn
    refine ⟨⟨by simp, by simpa using hdigit⟩, ?_⟩
    simp [continued, hvalue]
  | case2 n hn ih =>
    obtain ⟨⟨-, hdigits⟩, hcontinued⟩ := ih
    obtain ⟨hdigit, hvalue⟩ := digitByte_reads (n % 10) (Nat.mod_lt n (by decide))
    refine ⟨⟨by simp, ?_⟩, ?_⟩
    · intro b hb
      rcases List.mem_append.1 hb with hb | hb
      · exact hdigits b hb
      · rwa [List.mem_singleton.1 hb]
    · rw [continued] at hcontinued ⊢
      rw [List.foldl_append, hcontinued, List.foldl_cons, List.foldl_nil, hvalue]
      omega

/-- A written number has no leading zero. -/
theorem natDigits_unpadded (n : Nat) (h : (natDigits n).head? = some 0x30) : natDigits n = [0x30] := by
  fun_induction natDigits n with
  | case1 n hn => simpa using h
  | case2 n hn ih =>
    obtain ⟨⟨hne, -⟩, hcontinued⟩ := natDigits_denotes (n / 10)
    have hhead : (natDigits (n / 10)).head? = some 0x30 := by
      obtain ⟨b, rest, hcons⟩ := List.exists_cons_of_ne_nil hne
      rwa [hcons] at h ⊢
    have hzero : n / 10 = 0 := by rw [← hcontinued, ih hhead]; rfl
    omega

/-- What is written in decimal denotes what was written. -/
theorem denotes_decimal (i : Int) : Denotes (decimal i) i := by
  cases i with
  | ofNat n =>
    obtain ⟨⟨hne, hdigits⟩, hcontinued⟩ := natDigits_denotes n
    have hdenotes := Denotes.plain hne hdigits
    rwa [hcontinued] at hdenotes
  | negSucc n =>
    obtain ⟨⟨hne, hdigits⟩, hcontinued⟩ := natDigits_denotes (n + 1)
    have hdenotes := Denotes.minus hne hdigits
    rwa [hcontinued] at hdenotes

/-- Only digits and a sign are written. -/
theorem isDigit_or_sign_of_mem_decimal {i : Int} {b : UInt8} (h : b ∈ decimal i) : isDigit b ∨ b = 0x2d := by
  cases i with
  | ofNat n => exact .inl ((natDigits_denotes n).1.2 b h)
  | negSucc n =>
    rcases List.mem_cons.1 h with rfl | h
    · exact .inr rfl
    · exact .inl ((natDigits_denotes (n + 1)).1.2 b h)

theorem notMem_decimal {b : UInt8} (hdigit : ¬isDigit b) (hsign : b ≠ 0x2d) (i : Int) : b ∉ decimal i := by
  intro h
  rcases isDigit_or_sign_of_mem_decimal h with h | h
  · exact hdigit h
  · exact hsign h

/-! ### Hexadecimal digits -/

/-- The number that hexadecimal digits spell. -/
def hexValue? (digits : Text) : Option Nat :=
  digits.foldlM (fun n b => (digitValue? b).bind fun d => if d < 16 then some (n * 16 + d) else none) 0

theorem digitValue?_hexDigit : ∀ d < 16,
    digitValue? (if d < 10 then digitByte d else 0x57 + d.toUInt8) = some d := by decide

theorem length_hexDigits (width n : Nat) : (hexDigits width n).length = width := by
  induction width generalizing n with
  | zero => rfl
  | succ width ih => rw [hexDigits, List.length_append, ih, List.length_singleton]

theorem hexValue?_hexDigits (width : Nat) {n : Nat} (h : n < 16 ^ width) :
    hexValue? (hexDigits width n) = some n := by
  induction width generalizing n with
  | zero =>
    have hn : n = 0 := by simpa using h
    rw [hn]
    rfl
  | succ width ih =>
    have hupper : n / 16 < 16 ^ width := by
      apply Nat.div_lt_of_lt_mul
      rwa [Nat.mul_comm, ← Nat.pow_succ]
    have hdigit : n % 16 < 16 := Nat.mod_lt n (by decide)
    have hvalue := ih hupper
    unfold hexValue? at hvalue ⊢
    rw [hexDigits, List.foldlM_append, hvalue]
    simp only [Option.bind_eq_bind, Option.bind_some, List.foldlM_cons, List.foldlM_nil, digitValue?_hexDigit _ hdigit,
      if_pos hdigit]
    exact congrArg some (by omega)

/-! ### Integers of any size -/

/-- The integer that a decimal numeral denotes. -/
def integer? (t : Text) : Option Int :=
  let digits := (sign t).2
  if !digits.isEmpty && digits.all isDigit then
    some (if (sign t).1 then -(continued 10 0 digits : Int) else continued 10 0 digits)
  else none

theorem integer?_of_denotes {t : Text} {i : Int} (h : Denotes t i) : integer? t = some i := by
  have hnumeral : ∀ {digits : Text}, digits ≠ [] → (∀ b ∈ digits, isDigit b) →
      (!digits.isEmpty && digits.all isDigit) = true := by
    intro digits hne hdigits
    rw [List.isEmpty_eq_false_iff.2 hne, List.all_eq_true.2 hdigits]
    rfl
  unfold integer?
  cases h with
  | plain hne hdigits =>
    have hsign : sign t = (false, t) := by
      cases t with
      | nil => exact absurd rfl hne
      | cons b rest => exact sign_of_isDigit (hdigits b (List.mem_cons_self ..))
    simp only [hsign]
    exact if_pos (hnumeral hne hdigits)
  | plus hne hdigits => exact if_pos (hnumeral hne hdigits)
  | minus hne hdigits => exact if_pos (hnumeral hne hdigits)

theorem integer?_decimal (i : Int) : integer? (decimal i) = some i := integer?_of_denotes (denotes_decimal i)

/-! ### Leading zeros -/

/-- The value that a text of digits has in decimal fits a word, and no leading zero changes it. -/
def Plain (t : Text) : Prop :=
  continued 10 0 t < 2 ^ 63 ∧ (t.head? = some 0x30 → continued 10 0 t < 8)

instance (t : Text) : Decidable (Plain t) := inferInstanceAs (Decidable (_ ∧ _))

/-- Once the octal reading of some digits is behind the decimal one, it stays behind. -/
theorem continued_lt_continued (digits : Text) : ∀ {a b : Nat}, a < b →
    continued 8 a digits < continued 10 b digits := by
  induction digits with
  | nil => exact fun h => h
  | cons d rest ih =>
    intro a b h
    rw [continued_cons, continued_cons]
    exact ih (by omega)

/-- The octal and the decimal reading are the same number for one digit behind zeros only. -/
theorem continued_eq_continued_iff {digits : Text} (hdigits : ∀ b ∈ digits, isDigit b) :
    (∀ b ∈ digits, IsDigitOf 8 b) ∧ continued 8 0 digits = continued 10 0 digits ↔
      continued 10 0 digits < 8 := by
  induction digits with
  | nil => simp [continued]
  | cons d rest ih =>
    rw [List.forall_mem_cons] at hdigits ⊢
    rw [continued_cons, continued_cons, Nat.zero_mul, Nat.zero_add]
    by_cases hd : d.toNat - 0x30 = 0
    · have hoctal : IsDigitOf 8 d := ⟨hdigits.1, by omega⟩
      rw [hd, ← ih hdigits.2]
      simp [hoctal]
    · cases rest with
      | nil => simp [continued, IsDigitOf, hdigits.1]
      | cons e rest =>
        -- a second digit sets the two readings apart, and makes the decimal one at least ten
        have hle := le_continued (show 0 < 10 by decide) rest ((d.toNat - 0x30) * 10 + (e.toNat - 0x30))
        have hlt := continued_lt_continued rest
          (show (d.toNat - 0x30) * 8 + (e.toNat - 0x30) < (d.toNat - 0x30) * 10 + (e.toNat - 0x30) by omega)
        rw [continued_cons, continued_cons]
        constructor
        · rintro ⟨-, heq⟩
          omega
        · intro hsmall
          omega

theorem filter_underscore {t : Text} (h : ∀ b ∈ t, isDigit b) : t.filter (· != 0x5f) = t := by
  rw [List.filter_eq_self]
  intro b hb
  have hbound := isDigit_bounds (h b hb)
  simp only [bne_iff_ne, ne_eq]
  rintro rfl
  exact absurd hbound.2 (by decide)

/-- Digits hold no underscore that could stand wrong. -/
theorem underscoresSeparate_of_digits (t : Text) : ∀ {afterDigit : Bool}, (∀ b ∈ t, isDigit b) →
    underscoresSeparate afterDigit false t := by
  induction t with
  | nil => exact fun _ => rfl
  | cons b rest ih =>
    intro afterDigit h
    rw [List.forall_mem_cons] at h
    have hbound := isDigit_bounds h.1
    have hne : ¬(b == 0x5f) := by
      simp only [beq_iff_eq]
      rintro rfl
      exact absurd hbound.2 (by decide)
    rw [underscoresSeparate, if_neg hne, if_pos (by rw [digitValue?_of_isDigit h.1]; rfl)]
    exact ih h.2

/-- A text of digits announces base eight by a leading zero, and base ten without it. -/
theorem announced_of_digits {b : UInt8} {rest : Text} (h : ∀ c ∈ rest, isDigit c) :
    announced (b :: rest) = if b = 0x30 then (8, rest) else (10, b :: rest) := by
  by_cases hb : b = 0x30
  · subst hb
    match rest with
    | [] => rfl
    | [c] => rfl
    | c :: d :: more =>
      have hbound := isDigit_bounds (h c (List.mem_cons_self ..))
      have hne : ∀ x : UInt8, 0x3a ≤ x.toNat → (c == x) = false := by
        intro x hx
        rw [beq_eq_false_iff_ne]
        rintro rfl
        omega
      simp [announced, hne 0x62 (by decide), hne 0x42 (by decide), hne 0x6f (by decide), hne 0x4f (by decide),
        hne 0x78 (by decide), hne 0x58 (by decide)]
  · unfold announced
    split
    · rename_i heq
      cases heq
      exact absurd rfl hb
    · rename_i heq
      cases heq
      exact absurd rfl hb
    · rw [if_neg hb]

theorem readUnsigned_of_digits {b : UInt8} {rest : Text} (hb : isDigit b) (hrest : ∀ c ∈ rest, isDigit c) :
    readUnsigned (b :: rest) = if b = 0x30 then magnitude 8 0 rest else magnitude 10 0 (b :: rest) := by
  have hall : ∀ c ∈ b :: rest, isDigit c := List.forall_mem_cons.2 ⟨hb, hrest⟩
  simp only [readUnsigned, List.isEmpty_cons, Bool.false_eq_true, if_false, announced_of_digits hrest]
  by_cases hzero : b = 0x30
  · simp only [hzero, if_true, filter_underscore hrest, underscoresSeparate_of_digits rest hrest]
    cases magnitude 8 0 rest <;> rfl
  · simp only [hzero, if_false, filter_underscore hall, underscoresSeparate_of_digits _ hall, if_true]
    cases magnitude 10 0 (b :: rest) <;> rfl

theorem readInteger_of_digits {b : UInt8} {rest : Text} (hb : isDigit b) (hrest : ∀ c ∈ rest, isDigit c) :
    readInteger (b :: rest) =
      (if b = 0x30 then magnitude 8 0 rest else magnitude 10 0 (b :: rest)) >>= signed false := by
  simp only [readInteger, sign_of_isDigit hb, readUnsigned_of_digits hb hrest]

theorem magnitude_signed_eq_ok_iff {base : Nat} (hpos : 0 < base) (hten : base ≤ 10) {digits : Text} {v : Int64} :
    magnitude base 0 digits >>= signed false = .ok v ↔
      (∀ b ∈ digits, IsDigitOf base b) ∧ v.toInt = continued base 0 digits := by
  have hhigh := v.toInt_lt
  constructor
  · intro h
    obtain ⟨m, hm, hv⟩ := exists_of_bind_eq_ok h
    obtain ⟨hdigits, rfl, -⟩ := (magnitude_eq_ok_iff hpos hten (by decide)).1 hm
    exact ⟨hdigits, signed_eq_ok_iff.1 hv⟩
  · rintro ⟨hdigits, hv⟩
    have hm := (magnitude_eq_ok_iff hpos hten (show 0 < 2 ^ 64 by decide)).2
      ⟨hdigits, rfl, show continued base 0 digits < 2 ^ 64 by omega⟩
    rw [hm]
    exact signed_eq_ok_iff.2 (show v.toInt = if false then _ else _ from hv)

theorem decimal_iff_of_digits {t : Text} (hne : t ≠ []) (hdigits : ∀ b ∈ t, isDigit b) {v : Int64} :
    Decimal t v ↔ v.toInt = continued 10 0 t := by
  constructor
  · intro h
    cases t with
    | nil => exact absurd rfl hne
    | cons b rest =>
      have hb := hdigits b (List.mem_cons_self ..)
      unfold Decimal at h
      generalize hz : v.toInt = z at h
      cases h with
      | plain => rfl
      | plus => exact absurd hb (by decide)
      | minus => exact absurd hb (by decide)
  · intro h
    rw [Decimal, h]
    exact .plain hne hdigits

/-- The two readings of a text of digits agree on the plain ones. -/
theorem exists_decimal_and_announced_iff {t : Text} (hne : t ≠ []) (hdigits : ∀ b ∈ t, isDigit b) :
    (∃ v, Decimal t v ∧ Announced t v) ↔ Plain t := by
  cases t with
  | nil => exact absurd rfl hne
  | cons b rest =>
    have hb := hdigits b (List.mem_cons_self ..)
    have hrest : ∀ c ∈ rest, isDigit c := fun c hc => hdigits c (List.mem_cons_of_mem _ hc)
    have hword : ∀ {n : Nat}, n < 2 ^ 63 → (Int64.ofNat n).toInt = n := fun h => Int64.toInt_ofNat_of_lt h
    simp only [decimal_iff_of_digits hne hdigits, Announced, readInteger_of_digits hb hrest, Plain,
      List.head?_cons, Option.some.injEq]
    by_cases hzero : b = 0x30
    · subst hzero
      have hvalue : continued 10 0 (0x30 :: rest) = continued 10 0 rest := continued_cons ..
      simp only [if_true, magnitude_signed_eq_ok_iff (show 0 < 8 by decide) (show 8 ≤ 10 by decide), hvalue,
        true_imp_iff]
      constructor
      · rintro ⟨v, hdecimal, hoctal, hannounced⟩
        have hsmall := (continued_eq_continued_iff hrest).1 ⟨hoctal, by omega⟩
        exact ⟨by omega, hsmall⟩
      · rintro ⟨hrange, hsmall⟩
        obtain ⟨hoctal, heq⟩ := (continued_eq_continued_iff hrest).2 hsmall
        exact ⟨Int64.ofNat (continued 10 0 rest), hword hrange, hoctal, by rw [hword hrange, heq]⟩
    · have hdigitsOf : ∀ c ∈ b :: rest, IsDigitOf 10 c := fun c hc => isDigitOf_ten.2 (hdigits c hc)
      simp only [hzero, if_false, magnitude_signed_eq_ok_iff (show 0 < 10 by decide) (Nat.le_refl 10),
        false_imp_iff, and_true]
      constructor
      · rintro ⟨v, hdecimal, -⟩
        have hhigh := v.toInt_lt
        omega
      · intro hrange
        exact ⟨Int64.ofNat _, hword hrange, hdigitsOf, hword hrange⟩

end RatLang.Numeral
