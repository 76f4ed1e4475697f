import RatLang.Fingerprint
import RatLang.Proofs.Text.Numeral
import RatLang.Proofs.Text.Split

/-!
# What a fingerprint tells apart

The text that is condensed to a fingerprint names the options and the source without ambiguity
(`fingerprintText_injective`): two pairs can share a fingerprint only if the digest makes two texts equal.
-/
namespace RatLang

/-- The line of options, in fields. -/
def optionFields (opts : Options) : List Text :=
  [bytes "base=" ++ decimal opts.base.toInt, bytes "strict=" ++ boolText opts.strict,
    bytes "arithmetic=" ++ boolText opts.arithmetic]

theorem notMem_optionFields {opts : Options} {sep : UInt8} (hsep : sep = 0x20 ∨ sep = 0x0a) :
    ∀ field ∈ optionFields opts, sep ∉ field := by
  have hdecimal : sep ∉ decimal opts.base.toInt := by
    rcases hsep with rfl | rfl <;> exact Numeral.notMem_decimal (by decide) (by decide) _
  have hbool : ∀ b, sep ∉ boolText b := by rcases hsep with rfl | rfl <;> decide
  have hnames : sep ∉ bytes "base=" ∧ sep ∉ bytes "strict=" ∧ sep ∉ bytes "arithmetic=" := by
    rcases hsep with rfl | rfl <;> decide
  simp only [optionFields, List.forall_mem_cons, List.mem_append, not_or]
  exact ⟨⟨hnames.1, hdecimal⟩, ⟨hnames.2.1, hbool _⟩, ⟨hnames.2.2, hbool _⟩, by simp⟩

theorem fingerprintText_eq (opts : Options) (src : Text) :
    fingerprintText opts src = Text.join [0x20] (optionFields opts) ++ 0x0a :: src := by
  have hstrict : bytes " strict=" = 0x20 :: bytes "strict=" := by decide
  have harithmetic : bytes " arithmetic=" = 0x20 :: bytes "arithmetic=" := by decide
  rw [fingerprintText, optionFields, Text.join_cons_cons, Text.join_cons_cons, hstrict, harithmetic]
  simp [Text.line, Text.join]

theorem optionFields_injective {opts opts' : Options} (h : optionFields opts = optionFields opts') : opts = opts' := by
  have hbool : ∀ b b' : Bool, boolText b = boolText b' → b = b' := by decide
  simp only [optionFields, List.cons.injEq, List.append_cancel_left_eq, and_true] at h
  obtain ⟨hbase, hstrict, harithmetic⟩ := h
  have hdecimal : Numeral.Decimal (decimal opts.base.toInt) opts.base := Numeral.denotes_decimal _
  have hdecimal' : Numeral.Decimal (decimal opts'.base.toInt) opts'.base := Numeral.denotes_decimal _
  rw [hbase] at hdecimal
  obtain ⟨base, strict, arithmetic⟩ := opts
  obtain ⟨base', strict', arithmetic'⟩ := opts'
  rw [Options.mk.injEq]
  exact ⟨hdecimal.unique hdecimal', hbool _ _ hstrict, hbool _ _ harithmetic⟩

/-- The first line ends at the first line feed, and its fields at the spaces. -/
theorem fingerprintText_injective {opts opts' : Options} {src src' : Text}
    (h : fingerprintText opts src = fingerprintText opts' src') : opts = opts' ∧ src = src' := by
  rw [fingerprintText_eq, fingerprintText_eq] at h
  have hline : ∀ opts : Options, 0x0a ∉ Text.join [0x20] (optionFields opts) :=
    fun opts => Text.notMem_join _ (by decide) (notMem_optionFields (.inr rfl))
  have hpieces := congrArg (Text.splitOn 0x0a) h
  rw [Text.splitOn_append_sep, Text.splitOn_append_sep, Text.splitOn_of_notMem _ (hline opts),
    Text.splitOn_of_notMem _ (hline opts'), List.singleton_append, List.singleton_append, List.cons.injEq] at hpieces
  have hfields := congrArg (Text.splitOn 0x20) hpieces.1
  rw [Text.splitOn_join _ (by simp [optionFields]) (notMem_optionFields (.inl rfl)),
    Text.splitOn_join _ (by simp [optionFields]) (notMem_optionFields (.inl rfl))] at hfields
  rw [hpieces.1, List.append_cancel_left_eq, List.cons.injEq] at h
  exact ⟨optionFields_injective hfields, h.2⟩

end RatLang
