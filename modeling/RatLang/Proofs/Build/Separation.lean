import RatLang.Proofs.Build.Artifact
import RatLang.Proofs.Fingerprint

/-!
# Jobs with one fingerprint

The text behind a fingerprint tells the source and every option that matters for the tables, and the name of the file
is not among them. So jobs with one fingerprint are translated alike, unless their texts collide in the digest. Main
statement: `fingerprint_separates`.
-/
namespace RatLang

/-- Two different texts have one digest. -/
def Collide (t t' : Text) : Prop := t ≠ t' ∧ md5 t = md5 t'

/-- Both fail, or both succeed and give the same as far as `f` sees. -/
def SameOutcome {ε α β : Type} (f : α → β) (x y : Except ε α) : Prop :=
  (∃ e e', x = .error e ∧ y = .error e') ∨ ∃ a b, x = .ok a ∧ y = .ok b ∧ f a = f b

theorem sameOutcome_of_iff {ε α β : Type} {f : α → β} {x y : Except ε α}
    (h : ∀ c, (∃ a, x = .ok a ∧ f a = c) ↔ ∃ b, y = .ok b ∧ f b = c) : SameOutcome f x y := by
  cases x with
  | error e =>
    cases y with
    | error e' => exact Or.inl ⟨e, e', rfl, rfl⟩
    | ok b =>
      obtain ⟨a, ha, -⟩ := (h (f b)).2 ⟨b, rfl, rfl⟩
      cases ha
  | ok a =>
    obtain ⟨b, hb, hsame⟩ := (h (f a)).1 ⟨a, rfl, rfl⟩
    exact Or.inr ⟨a, b, rfl, hb, hsame.symm⟩

/-- The two tables of a program. -/
def Program.tables (p : Program) : Text × Text := (symbolTable p.symbols, instructionTable p.code)

theorem fingerprintText_eq_iff {opts opts' : Options} {src src' : Text} :
    fingerprintText opts src = fingerprintText opts' src' ↔
      src = src' ∧ opts.base = opts'.base ∧ opts.strict = opts'.strict ∧ opts.arithmetic = opts'.arithmetic := by
  constructor
  · intro h
    obtain ⟨rfl, rfl⟩ := fingerprintText_injective h
    exact ⟨rfl, rfl, rfl, rfl⟩
  · rintro ⟨rfl, hbase, hstrict, harithmetic⟩
    obtain ⟨base, strict, arithmetic⟩ := opts
    cases hbase
    cases hstrict
    cases harithmetic
    rfl

theorem Source.sameOutcome_translate (opts : Options) (file file' src : Text) :
    SameOutcome Program.tables (Source.translate opts file src) (Source.translate opts file' src) := by
  apply sameOutcome_of_iff
  intro c
  simp only [← Source.program?_eq_some_iff]

theorem BuildSettings.sameOutcome_translate {s s' : BuildSettings} (hoptions : s.options = s'.options)
    (hllvm : s.llvm = s'.llvm) (file file' src : Text) :
    SameOutcome Prod.fst (s.translate file src) (s'.translate file' src) := by
  have hfirst : ∀ (s : BuildSettings) (file artifacts),
      (∃ a, s.translate file src = .ok a ∧ a.1 = artifacts) ↔
        ∃ warnings, s.translate file src = .ok (artifacts, warnings) := by
    intro s file artifacts
    constructor
    · rintro ⟨⟨_, warnings⟩, ha, rfl⟩
      exact ⟨warnings, ha⟩
    · rintro ⟨warnings, ha⟩
      exact ⟨_, ha, rfl⟩
  have hkinds : s.kinds = s'.kinds := by rw [kinds, kinds, hllvm]
  apply sameOutcome_of_iff
  intro artifacts
  rw [hfirst, hfirst, translate_eq_ok_iff, translate_eq_ok_iff, hkinds, hoptions]

/-- **Fingerprints separate what is translated differently.** The texts behind two fingerprints are equal exactly if
the sources and the three options are. So if these texts do not collide in the digest, then jobs with one fingerprint,
whatever their files are called, both fail or have the same tables; and if both builds make IR or both make none, all
their artifacts are the same. -/
theorem fingerprint_separates (opts opts' : Options) (src src' : Text) :
    (fingerprintText opts src = fingerprintText opts' src' ↔
      src = src' ∧ opts.base = opts'.base ∧ opts.strict = opts'.strict ∧ opts.arithmetic = opts'.arithmetic) ∧
    (¬Collide (fingerprintText opts src) (fingerprintText opts' src') →
      fingerprint opts src = fingerprint opts' src' → ∀ file file',
        SameOutcome Program.tables (Source.translate opts file src) (Source.translate opts' file' src') ∧
        ∀ s s' : BuildSettings, s.options = opts → s'.options = opts' → s.llvm = s'.llvm →
          SameOutcome Prod.fst (s.translate file src) (s'.translate file' src')) := by
  refine ⟨fingerprintText_eq_iff, fun hfree hsum file file' => ?_⟩
  have htext : fingerprintText opts src = fingerprintText opts' src' := by
    apply Classical.byContradiction
    intro hne
    exact hfree ⟨hne, hsum⟩
  obtain ⟨rfl, rfl⟩ := fingerprintText_injective htext
  refine ⟨Source.sameOutcome_translate opts file file' src, fun s s' hs hs' hllvm => ?_⟩
  exact BuildSettings.sameOutcome_translate (hs.trans hs'.symm) hllvm file file' src

/-- A source that begins with a comment like the first line of a fingerprint's text, and uses a word of it as a name. -/
def headed : Text := bytes "[*\nbase=1 strict=false arithmetic=false\n*]integer base; base = 7;\nput(base);"

/-- What `headed` is translated to. -/
def headedProgram : Program where
  symbols := [⟨bytes "base", 9000, bytes "integer"⟩]
  code := [⟨1, .pushi, some 7⟩, ⟨2, .popm, some 9000⟩, ⟨3, .pushm, some 9000⟩, ⟨4, .stdout, none⟩]

/-- It has one fingerprint, one pair of tables and one set of artifacts under two file names and for two builds. -/
theorem fingerprint_separates_renamed :
    let s : BuildSettings := ⟨{}, bytes "out", true, true, false⟩
    let s' : BuildSettings := ⟨{}, [], true, false, true⟩
    fingerprint s.options headed = fingerprint s'.options headed ∧
      Source.translate {} (bytes "a.rat") headed = .ok headedProgram ∧
      SameOutcome Program.tables (Source.translate {} (bytes "a.rat") headed)
        (Source.translate {} (bytes "b.rat") headed) ∧
      SameOutcome Prod.fst (s.translate (bytes "a.rat") headed) (s'.translate (bytes "b.rat") headed) := by
  intro s s'
  have hfree : ¬Collide (fingerprintText {} headed) (fingerprintText {} headed) := fun h => h.1 rfl
  obtain ⟨htables, hartifacts⟩ :=
    (fingerprint_separates {} {} headed headed).2 hfree rfl (bytes "a.rat") (bytes "b.rat")
  exact ⟨rfl, (Source.program?_eq_some_iff _).1 (by decide +kernel), htables, hartifacts s s' rfl rfl rfl⟩

end RatLang
