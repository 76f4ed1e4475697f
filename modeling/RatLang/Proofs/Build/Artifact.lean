import RatLang.Build
import RatLang.Proofs.Path
import RatLang.Proofs.Statement.Relocation

/-!
# Artifacts

What a job writes: two tables and, on request, IR. Each artifact has a file of its own
(`Artifact.fileName_injective`), and its content is told by the options and the source alone
(`BuildSettings.translate_eq_ok_iff`): neither the name of the source nor the other artifacts matter.
-/
namespace RatLang

/-- The files that a job can write. -/
inductive Artifact where
  | symbols
  | instructions
  | ir
  deriving DecidableEq, Repr

namespace Artifact

/-- How the names of the files end. -/
def ending : Artifact → Text
  | symbols => bytes "_symbol_table.txt"
  | instructions => bytes "_instruction_table.txt"
  | ir => bytes ".ll"

/-- The file of an artifact, given the name of the tables. -/
def fileName (name : Text) (k : Artifact) : Text := name ++ k.ending

/-- No ending is the end of another. -/
theorem eq_of_ending_suffix {k k' : Artifact} (h : k.ending <:+ k'.ending) : k = k' := by
  revert h
  cases k <;> cases k' <;> decide

theorem fileName_injective {name name' : Text} {k k' : Artifact} (h : fileName name k = fileName name' k') :
    name = name' ∧ k = k' := by
  have hk : k.ending <:+ fileName name k := List.suffix_append ..
  have hk' : k'.ending <:+ fileName name k := h ▸ List.suffix_append ..
  have heq : k = k' := by
    rcases List.suffix_or_suffix_of_suffix hk hk' with hsuffix | hsuffix
    · exact eq_of_ending_suffix hsuffix
    · exact (eq_of_ending_suffix hsuffix).symm
  subst heq
  exact ⟨List.append_cancel_right h, rfl⟩

theorem fileName_ne_sumFile (name : Text) (k : Artifact) : fileName name k ≠ SumFile.name := by
  intro h
  have hsuffix : k.ending <:+ SumFile.name := h ▸ List.suffix_append ..
  revert hsuffix
  cases k <;> decide

theorem fileName_plain {name : Text} (h : Path.slash ∉ name) (k : Artifact) : Path.Plain (fileName name k) := by
  have hends : ∀ other : Text, (¬k.ending <:+ other) → fileName name k ≠ other :=
    fun other hother heq => hother (heq ▸ List.suffix_append ..)
  refine ⟨hends _ ?_, hends _ ?_, hends _ ?_, ?_⟩
  · cases k <;> decide
  · cases k <;> decide
  · cases k <;> decide
  · rw [fileName, List.mem_append, not_or]
    exact ⟨h, by cases k <;> decide⟩

/-- The content of an artifact of a program. Not every program has IR. -/
def of (p : Program) : Artifact → Option Text
  | symbols => some (symbolTable p.symbols)
  | instructions => some (instructionTable p.code)
  | ir => p.lower.toOption.map (·.text)

end Artifact

theorem SumFile.name_plain : Path.Plain SumFile.name := by
  refine ⟨?_, ?_, ?_, ?_⟩ <;> decide

/-! ### Sources and their artifacts -/

/-- The program of a source, whatever its file is called. -/
def Source.program? (opts : Options) (src : Text) : Option Program := (Source.translate opts [] src).toOption

/-- The content of an artifact of a source. -/
def rendering (opts : Options) (src : Text) (k : Artifact) : Option Text :=
  (Source.program? opts src).bind fun p => k.of p

theorem Source.translate_eq_ok_iff {opts : Options} {file src : Text} {p : Program} :
    Source.translate opts file src = .ok p ↔
      ∃ stmts, Source.parse opts.strict file src = .ok stmts ∧ compile opts stmts = .ok p := by
  rw [Source.translate]
  cases Source.parse opts.strict file src with
  | error e => simp
  | ok stmts => cases h : compile opts stmts <;> simp [h]

theorem Source.program?_eq_some_iff {opts : Options} {src : Text} {p : Program} (file : Text) :
    Source.program? opts src = some p ↔ Source.translate opts file src = .ok p := by
  have hmove : ∀ {f f' : Text}, Source.translate opts f src = .ok p → Source.translate opts f' src = .ok p := by
    intro f f' h
    rw [Source.translate_eq_ok_iff] at h ⊢
    obtain ⟨stmts, hparse, hcompile⟩ := h
    obtain ⟨stmts', hparse', hsame⟩ := Source.exists_parse_inFile hparse f'
    exact ⟨stmts', hparse', hsame.2 hcompile⟩
  have hoption : Source.program? opts src = some p ↔ Source.translate opts [] src = .ok p := by
    rw [Source.program?]
    cases Source.translate opts [] src <;> simp [Except.toOption]
  rw [hoption]
  exact ⟨hmove, hmove⟩

namespace BuildSettings

/-- The artifacts that a build writes, in the order of their paths. -/
def kinds (s : BuildSettings) : List Artifact := [.symbols, .instructions] ++ if s.llvm then [.ir] else []

theorem paths_eq (s : BuildSettings) (name : Text) :
    s.paths name = s.kinds.map fun k => Path.join [s.outDir, Artifact.fileName name k] := by
  rw [paths, kinds]
  cases s.llvm <;> rfl

theorem mem_kinds_iff {s : BuildSettings} {k : Artifact} : k ∈ s.kinds ↔ k = .ir → s.llvm := by
  rw [kinds]
  cases s.llvm <;> cases k <;> simp

theorem artifacts_eq_ok_iff {s : BuildSettings} {p : Program} {artifacts : List Text} :
    p.artifacts s.llvm = .ok artifacts ↔ s.kinds.map (·.of p) = artifacts.map some := by
  have hsome : ∀ {texts : List Text}, texts.map some = artifacts.map some ↔ texts = artifacts :=
    List.map_inj_right fun _ _ => Option.some.inj
  cases hllvm : s.llvm with
  | false =>
    have hkinds : s.kinds.map (·.of p) = [symbolTable p.symbols, instructionTable p.code].map some := by
      rw [kinds, hllvm]
      rfl
    rw [hkinds, hsome]
    simp [Program.artifacts]
  | true =>
    cases hlower : p.lower with
    | error e =>
      have hnone : none ∈ s.kinds.map (·.of p) := by
        rw [List.mem_map]
        exact ⟨.ir, mem_kinds_iff.2 fun _ => hllvm, by rw [Artifact.of, hlower]; rfl⟩
      simp only [Program.artifacts, hlower, if_true, reduceCtorEq, false_iff]
      intro heq
      rw [heq] at hnone
      simp at hnone
    | ok m =>
      have hkinds : s.kinds.map (·.of p) = [symbolTable p.symbols, instructionTable p.code, m.text].map some := by
        rw [kinds, hllvm]
        simp [Artifact.of, hlower, Except.toOption]
      rw [hkinds, hsome]
      simp [Program.artifacts, hlower]

/-- The artifacts of a source do not depend on its name. -/
theorem translate_eq_ok_iff {s : BuildSettings} {file src : Text} {artifacts : List Text} :
    (∃ warnings, s.translate file src = .ok (artifacts, warnings)) ↔
      s.kinds.map (rendering s.options src) = artifacts.map some := by
  have hprogram : (∃ warnings, s.translate file src = .ok (artifacts, warnings)) ↔
      ∃ p, Source.translate s.options file src = .ok p ∧ p.artifacts s.llvm = .ok artifacts := by
    simp only [Source.translate_eq_ok_iff, translate]
    cases Source.parse s.options.strict file src with
    | error e => simp
    | ok stmts =>
      cases hcompile : compile s.options stmts with
      | error e => simp [hcompile]
      | ok p => cases hartifacts : p.artifacts s.llvm <;> simp [hcompile, hartifacts]
  have hrendering : ∀ {p : Program}, Source.program? s.options src = some p →
      s.kinds.map (rendering s.options src) = s.kinds.map (·.of p) := by
    intro p hp
    refine List.map_congr_left fun k _ => ?_
    rw [rendering, hp, Option.bind_some]
  rw [hprogram]
  constructor
  · rintro ⟨p, hp, hartifacts⟩
    rw [hrendering ((Source.program?_eq_some_iff file).2 hp), artifacts_eq_ok_iff.1 hartifacts]
  · intro h
    cases hp : Source.program? s.options src with
    | none =>
      have hnone : none ∈ s.kinds.map (rendering s.options src) := by
        rw [List.mem_map]
        exact ⟨.symbols, mem_kinds_iff.2 (by simp), by rw [rendering, hp, Option.bind_none]⟩
      rw [h] at hnone
      simp at hnone
    | some p =>
      rw [hrendering hp] at h
      exact ⟨p, (Source.program?_eq_some_iff file).1 hp, artifacts_eq_ok_iff.2 h⟩

end BuildSettings

end RatLang
