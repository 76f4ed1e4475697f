import RatLang.Proofs.Build.Ledger
import RatLang.Proofs.Fingerprint

/-!
# A build and its record

The record of a job is backed when everything that is there of the job is a rendering of one source with the recorded
fingerprint (`Backed`). A careful build keeps the records of its directory backed, and when no job fails it leaves
every job's artifacts as its source has them, the jobs that it skips included (`Consistent.run`).
-/
namespace RatLang

open FileTree (Changes Own OwnAny Writes)

/-! ### Workspaces -/

/-- The jobs of some builds, each with the directory and the name of its tables, and the sources that they translate. -/
structure Workspace where
  jobs : Location → Text → Prop
  sources : Options → Text → Prop
  slash_notMem : ∀ {D name}, jobs D name → Path.slash ∉ name

/-- No two sources of a workspace have one digest. -/
def Workspace.CollisionFree (W : Workspace) : Prop :=
  ∀ {opts src opts' src'}, W.sources opts src → W.sources opts' src' →
    md5 (fingerprintText opts src) = md5 (fingerprintText opts' src') →
      fingerprintText opts src = fingerprintText opts' src'

theorem Workspace.CollisionFree.eq_of_fingerprint {W : Workspace} (h : W.CollisionFree) {opts opts' : Options}
    {src src' : Text} (hs : W.sources opts src) (hs' : W.sources opts' src')
    (heq : fingerprint opts src = fingerprint opts' src') : opts = opts' ∧ src = src' :=
  fingerprintText_injective (h hs hs' heq)

/-- The places that only builds write to: artifacts and sum files. -/
def Workspace.Keeps (W : Workspace) (l : Location) : Prop :=
  ∃ D name, W.jobs D name ∧ (Own D name l ∨ l = D ++ [SumFile.name])

/-- What is there of a job is made from one source with the given fingerprint. -/
def Backed (W : Workspace) (t : FileTree) (D : Location) (name sum : Text) : Prop :=
  ∃ opts src, W.sources opts src ∧ sum = fingerprint opts src ∧
    ∀ k e, t.entryAt (Artifact.location D name k) = some e → (rendering opts src k).map Entry.file = some e

/-- Every record is backed. -/
def Consistent (W : Workspace) (t : FileTree) : Prop :=
  ∀ {D name}, W.jobs D name → ∀ {sum}, t.recorded D name = some sum → Backed W t D name sum

/-- Taking artifacts away does no harm. -/
theorem Backed.mono {W : Workspace} {t t' : FileTree} {D : Location} {name sum : Text} (h : Backed W t D name sum)
    (hentry : ∀ k, t'.entryAt (Artifact.location D name k) = none ∨
      t'.entryAt (Artifact.location D name k) = t.entryAt (Artifact.location D name k)) :
    Backed W t' D name sum := by
  obtain ⟨opts, src, hsource, hsum, hrendering⟩ := h
  refine ⟨opts, src, hsource, hsum, fun k e he => ?_⟩
  rcases hentry k with hnone | hsame
  · rw [hnone] at he
    cases he
  · rw [hsame] at he
    exact hrendering k e he

/-! ### Careful jobs -/

/-- A job that belongs to the workspace: its source is known and lies apart from what builds write. -/
structure Workspace.Hosts (W : Workspace) (s : BuildSettings) (t : FileTree) (job : Job) : Prop where
  mem : W.jobs (t.folder s.outDir) job.output
  source : ∀ {src}, t.read job.input = .ok src → W.sources s.options src
  apart : ∀ {l}, t.locate job.input = .ok l → ¬W.Keeps l

/-- A build leaves nothing behind. If the fingerprint of the source is not the recorded one, then a build without sums
finds no record, which it would not renew, and a build that makes no IR finds no IR, which it would not renew either.
And no directory is made where an artifact of a recorded job is missing. -/
structure Workspace.Careful (W : Workspace) (s : BuildSettings) (t : FileTree) (job : Job) : Prop where
  record : s.useCache = false → ∀ {src}, t.read job.input = .ok src →
    t.recorded (t.folder s.outDir) job.output = some (fingerprint s.options src) ∨
      t.recorded (t.folder s.outDir) job.output = none
  ir : s.useCache = true → s.llvm = false → ∀ {src}, t.read job.input = .ok src →
    t.recorded (t.folder s.outDir) job.output = some (fingerprint s.options src) ∨
      t.entryAt (Artifact.location (t.folder s.outDir) job.output .ir) = none
  directory : ∀ {D name}, W.jobs D name → t.recorded D name ≠ none → ∀ k,
    t.entryAt (Artifact.location D name k) = none → ¬Artifact.location D name k <+: t.folder s.outDir

/-- A job of the workspace that a build is careful with. -/
structure Workspace.Admits (W : Workspace) (s : BuildSettings) (t : FileTree) (job : Job) : Prop extends
  W.Hosts s t job, W.Careful s t job

/-- The artifacts of a job are those of its source. -/
def Written (s : BuildSettings) (D : Location) (name src : Text) (t : FileTree) : Prop :=
  ∀ k ∈ s.kinds, ∃ content, rendering s.options src k = some content ∧
    t.entryAt (Artifact.location D name k) = some (.file content)

namespace BuildSettings

variable {s : BuildSettings} {t : FileTree} {sums : Option Sums} {job : Job}

/-- What a job comes to before anything is written. -/
theorem prepare_cases (ht : t.WellFormed) (hname : Path.slash ∉ job.output) :
    (∃ e, s.prepare t sums job = .failed e) ∨
      ∃ src, t.read job.input = .ok src ∧
        ((s.prepare t sums job = .unchanged ∧
            (∃ σ, sums = some σ ∧ σ.sum? job.output = some (fingerprint s.options src)) ∧
            ∀ k ∈ s.kinds, ∃ e, t.entryAt (Artifact.location (t.folder s.outDir) job.output k) = some e) ∨
          ∃ artifacts warnings, s.prepare t sums job = .translated (fingerprint s.options src) artifacts warnings ∧
            s.kinds.map (rendering s.options src) = artifacts.map some) := by
  rw [prepare]
  cases hread : t.read job.input with
  | error e => exact .inl ⟨_, rfl⟩
  | ok src =>
    simp only
    split
    · rename_i hfresh
      obtain ⟨σ, rfl, hσ⟩ := (Option.any_eq_true _ _).1 hfresh
      rw [Sums.fresh, Bool.and_eq_true, beq_iff_eq, List.all_eq_true, s.paths_eq] at hσ
      refine .inr ⟨src, rfl, .inl ⟨rfl, ⟨σ, rfl, hσ.1⟩, fun k hk => ?_⟩⟩
      exact (ht.has_join_iff (Artifact.fileName_plain hname k)).1 (hσ.2 _ (List.mem_map_of_mem hk))
    · cases htranslate : s.translate job.input src with
      | error e => exact .inl ⟨_, rfl⟩
      | ok result =>
        obtain ⟨artifacts, warnings⟩ := result
        exact .inr ⟨src, rfl, .inr ⟨artifacts, warnings, rfl, translate_eq_ok_iff.1 ⟨warnings, htranslate⟩⟩⟩

end BuildSettings

/-! ### One job -/

/-- The fingerprint of a job as a build has it: from its sums, or else from the sum file. -/
def Build.recorded (b : Build) (D : Location) (name : Text) : Option Text :=
  match b.sums with
  | some σ => σ.sum? name
  | none => b.files.recorded D name

/-- The sums of a build that started from `t` are those of its directory, and where it is to use them and has none,
nothing was recorded. -/
structure SumsFor (s : BuildSettings) (t : FileTree) (sums : Option Sums) : Prop where
  path : ∀ {σ}, sums = some σ → σ.path = Sums.filePath s.outDir
  useCache : sums ≠ none → s.useCache = true
  unrecorded : sums = none → s.useCache = true → ∀ name, t.recorded (t.folder s.outDir) name = none

theorem SumsFor.map {s : BuildSettings} {t : FileTree} {sums : Option Sums} (h : SumsFor s t sums) {f : Sums → Sums}
    (hpath : ∀ σ, (f σ).path = σ.path) : SumsFor s t (sums.map f) := by
  have hnone : sums.map f = none ↔ sums = none := Option.map_eq_none_iff
  refine ⟨fun hσ => ?_, fun hne => h.useCache fun heq => hne (hnone.2 heq), fun heq => h.unrecorded (hnone.1 heq)⟩
  obtain ⟨σ, hsome, rfl⟩ := Option.map_eq_some_iff.1 hσ
  rw [hpath, h.path hsome]

/-- A build that started from `t` and is through with some jobs. -/
structure Underway (W : Workspace) (s : BuildSettings) (t : FileTree) (done : List Text) (b : Build) : Prop where
  changes : Changes (OwnAny (t.folder s.outDir) done) (t.folder s.outDir) t b.files
  path : ∀ {σ}, b.sums = some σ → σ.path = Sums.filePath s.outDir
  useCache : b.sums ≠ none → s.useCache = true
  unrecorded : b.sums = none → s.useCache = true → ∀ name, t.recorded (t.folder s.outDir) name = none
  pending : ∀ {name}, name ∉ done → b.recorded (t.folder s.outDir) name = t.recorded (t.folder s.outDir) name
  backed : ∀ {name}, W.jobs (t.folder s.outDir) name → ∀ {sum}, b.recorded (t.folder s.outDir) name = some sum →
    Backed W b.files (t.folder s.outDir) name sum

section

variable {W : Workspace} {s : BuildSettings} {t : FileTree} {done : List Text} {b b' : Build} {job : Job}

theorem rendering_of_map {opts : Options} {src : Text} {kinds : List Artifact} {artifacts : List Text}
    (h : kinds.map (rendering opts src) = artifacts.map some) :
    ∀ f ∈ kinds.zip artifacts, rendering opts src f.1 = some f.2 := by
  induction kinds generalizing artifacts with
  | nil => simp
  | cons first rest ih =>
    cases artifacts with
    | nil => simp
    | cons content contents =>
      rw [List.map_cons, List.map_cons, List.cons.injEq] at h
      rw [List.zip_cons_cons, List.forall_mem_cons]
      exact ⟨h.1, ih h.2⟩

theorem length_kinds {src : Text} {artifacts : List Text}
    (h : s.kinds.map (rendering s.options src) = artifacts.map some) : s.kinds.length = artifacts.length := by
  simpa using congrArg List.length h

theorem zip_kinds {src : Text} {artifacts : List Text}
    (h : s.kinds.map (rendering s.options src) = artifacts.map some) : (s.kinds.zip artifacts).map (·.1) = s.kinds :=
  List.map_fst_zip (Nat.le_of_eq (length_kinds h))

/-- A build that changes no more than one job's artifacts and sum is through with that job if its record is backed. -/
theorem Underway.step (h : Underway W s t done b)
    (hchanges : Changes (Own (t.folder s.outDir) job.output) (t.folder s.outDir) b.files b'.files) {f : Sums → Sums}
    (hsums : b'.sums = b.sums.map f) (hpath : ∀ σ, (f σ).path = σ.path)
    (hothers : ∀ σ {name}, name ≠ job.output → (f σ).sum? name = σ.sum? name)
    (hbacked : ∀ {sum}, b'.recorded (t.folder s.outDir) job.output = some sum →
      Backed W b'.files (t.folder s.outDir) job.output sum) :
    Underway W s t (job.output :: done) b' := by
  have hrecorded : ∀ {name}, name ≠ job.output →
      b'.recorded (t.folder s.outDir) name = b.recorded (t.folder s.outDir) name := by
    intro name hname
    rw [Build.recorded, Build.recorded, hsums]
    cases b.sums with
    | none => exact hchanges.recorded_eq name
    | some σ => exact hothers σ hname
  have hfor := SumsFor.map ⟨h.path, h.useCache, h.unrecorded⟩ hpath
  rw [← hsums] at hfor
  refine ⟨h.changes.cons hchanges, hfor.path, hfor.useCache, hfor.unrecorded, fun {name} hname => ?_,
    fun {name} hjob {sum} hsum => ?_⟩
  · rw [List.mem_cons, not_or] at hname
    rw [hrecorded hname.1, h.pending hname.2]
  · by_cases hname : name = job.output
    · subst hname
      exact hbacked hsum
    · rw [hrecorded hname] at hsum
      exact (h.backed hjob hsum).mono fun k => .inr (hchanges.entryAt_other hname k)

/-- A build that is told nothing new stays as it is. -/
theorem Underway.same (h : Underway W s t done b) (hmem : W.jobs (t.folder s.outDir) job.output)
    (hfiles : b'.files = b.files) (hsums : b'.sums = b.sums) : Underway W s t (job.output :: done) b' := by
  refine h.step (f := id) ?_ (by rw [hsums, Option.map_id, id_eq]) (fun _ => rfl) (fun _ _ _ => rfl) fun hsum => ?_
  · rw [hfiles]
    exact .refl h.changes.wellFormed
  · rw [Build.recorded, hfiles, hsums] at hsum
    rw [hfiles]
    exact h.backed hmem hsum

/-- If the recorded fingerprint is that of a known source, what is there is made from that source. -/
theorem Underway.rendering_of_recorded (h : Underway W s t done b) (hW : W.CollisionFree)
    (hmem : W.jobs (t.folder s.outDir) job.output) {opts : Options} {src : Text} (hsource : W.sources opts src)
    (hrecorded : b.recorded (t.folder s.outDir) job.output = some (fingerprint opts src)) {k : Artifact} {e : Entry}
    (he : b.files.entryAt (Artifact.location (t.folder s.outDir) job.output k) = some e) :
    (rendering opts src k).map Entry.file = some e := by
  obtain ⟨opts', src', hsource', hsum, hrendering⟩ := h.backed hmem hrecorded
  obtain ⟨rfl, rfl⟩ := hW.eq_of_fingerprint hsource hsource' hsum
  exact hrendering k e he

/-- The outcome of a job: an invariant `I` of the build goes on with one more job done. -/
structure Finishes (I : List Text → Build → Prop) (s : BuildSettings) (t : FileTree) (done : List Text) (job : Job)
    (b b' : Build) : Prop where
  invariant : I (job.output :: done) b'
  changes : Changes (Own (t.folder s.outDir) job.output) (t.folder s.outDir) b.files b'.files
  outcome : b'.failed = b.failed + 1 ∨
    b'.failed = b.failed ∧ ∃ src, t.read job.input = .ok src ∧ Written s (t.folder s.outDir) job.output src b'.files

/-- A job that is skipped has the artifacts of its source. -/
theorem Underway.finish_unchanged (h : Underway W s t done b) (hW : W.CollisionFree) (ha : W.Admits s t job)
    (hdone : job.output ∉ done) {src : Text} (hread : t.read job.input = .ok src)
    (hrecorded : t.recorded (t.folder s.outDir) job.output = some (fingerprint s.options src))
    (hthere : ∀ k ∈ s.kinds, ∃ e, t.entryAt (Artifact.location (t.folder s.outDir) job.output k) = some e) :
    Finishes (Underway W s t) s t done job b (b.finish s job .unchanged) := by
  refine ⟨h.same ha.mem rfl rfl, .refl h.changes.wellFormed, .inr ⟨rfl, src, hread, fun k hk => ?_⟩⟩
  obtain ⟨e, he⟩ := hthere k hk
  rw [← h.changes.entryAt_pending hdone] at he
  rw [← h.pending hdone] at hrecorded
  have hrendering := h.rendering_of_recorded hW ha.mem (ha.source hread) hrecorded he
  obtain ⟨content, hcontent, rfl⟩ := Option.map_eq_some_iff.1 hrendering
  exact ⟨content, hcontent, he⟩

theorem Underway.finish_failed (h : Underway W s t done b) (ha : W.Admits s t job) (e : JobError) :
    Finishes (Underway W s t) s t done job b (b.finish s job (.failed e)) :=
  ⟨h.same ha.mem rfl rfl, .refl h.changes.wellFormed, .inl rfl⟩

/-- A build that could not write a job's artifacts forgets the job. -/
theorem Underway.forget (h : Underway W s t done b) (hmem : W.jobs (t.folder s.outDir) job.output)
    {files : List (Artifact × Text)} {r : FileTree × Option JobError}
    (hwrites : Writes {} s.outDir (t.folder s.outDir) job.output [] files b.files r) (hfailed : r.2 ≠ none)
    (hfiles : b'.files = r.1) (hsums : b'.sums = b.sums.map (·.forget job.output)) :
    Underway W s t (job.output :: done) b' := by
  have hchanges := hwrites.changes
  rw [← hfiles] at hchanges
  refine h.step hchanges hsums (fun _ => rfl) (fun σ _ hname => (σ.sum?_forget ..).trans (if_neg hname))
    fun {sum} hsum => ?_
  rw [Build.recorded, hsums] at hsum
  cases hb : b.sums with
  | none =>
    rw [hb] at hsum
    have hrecorded : b.recorded (t.folder s.outDir) job.output = some sum := by
      rw [Build.recorded, hb, ← hchanges.recorded_eq]
      exact hsum
    refine (h.backed hmem hrecorded).mono fun k => ?_
    rw [hfiles]
    exact hwrites.gone_or_kept hfailed k
  | some σ =>
    rw [hb] at hsum
    have hforgotten := (σ.sum?_forget job.output job.output).trans (if_pos rfl)
    exact nomatch hforgotten.symm.trans hsum

/-- What a build does not write of a job is gone, or it was made from the same source. -/
theorem Underway.rendering_of_kept (h : Underway W s t done b) (hW : W.CollisionFree) (ha : W.Admits s t job)
    (hdone : job.output ∉ done) {src : Text} (hread : t.read job.input = .ok src)
    (hstale : s.useCache = false → t.recorded (t.folder s.outDir) job.output = some (fingerprint s.options src))
    {k : Artifact} (hk : k ∉ s.kinds) {e : Entry}
    (he : b.files.entryAt (Artifact.location (t.folder s.outDir) job.output k) = some e) :
    (rendering s.options src k).map Entry.file = some e := by
  have hrecorded : t.recorded (t.folder s.outDir) job.output = some (fingerprint s.options src) := by
    cases huse : s.useCache with
    | false => exact hstale huse
    | true =>
      rw [BuildSettings.mem_kinds_iff, Classical.not_imp, Bool.not_eq_true] at hk
      obtain ⟨rfl, hllvm⟩ := hk
      refine (ha.ir huse hllvm hread).resolve_right fun hnone => ?_
      rw [h.changes.entryAt_pending hdone, hnone] at he
      cases he
  rw [← h.pending hdone] at hrecorded
  exact h.rendering_of_recorded hW ha.mem (ha.source hread) hrecorded he

/-- A build that has written a job's artifacts records the job. -/
theorem Underway.record (h : Underway W s t done b) (hW : W.CollisionFree) (ha : W.Admits s t job)
    (hdone : job.output ∉ done) {src : Text} (hread : t.read job.input = .ok src) {files : List (Artifact × Text)}
    {r : FileTree × Option JobError} (hwrites : Writes {} s.outDir (t.folder s.outDir) job.output [] files b.files r)
    (hsucceeded : r.2 = none) (hkinds : files.map (·.1) = s.kinds)
    (hrendering : ∀ f ∈ files, rendering s.options src f.1 = some f.2) (hfiles : b'.files = r.1)
    (hsums : b'.sums = b.sums.map (·.record job.output (fingerprint s.options src))) :
    Underway W s t (job.output :: done) b' := by
  have hchanges := hwrites.changes
  rw [← hfiles] at hchanges
  refine h.step hchanges hsums (fun _ => rfl) (fun σ _ hname => (σ.sum?_record ..).trans (if_neg hname))
    fun {sum} hsum => ?_
  -- the record is the new one, or one that was there and says the same
  have hrecord : sum = fingerprint s.options src ∧
      (s.useCache = false → t.recorded (t.folder s.outDir) job.output = some (fingerprint s.options src)) := by
    rw [Build.recorded, hsums] at hsum
    cases hb : b.sums with
    | some σ =>
      rw [hb] at hsum
      have hrecorded := (σ.sum?_record job.output (fingerprint s.options src) job.output).trans (if_pos rfl)
      have huse := h.useCache (by simp [hb])
      exact ⟨(Option.some.inj (hrecorded.symm.trans hsum)).symm, fun hfalse => by simp [huse] at hfalse⟩
    | none =>
      rw [hb] at hsum
      have hrecorded : t.recorded (t.folder s.outDir) job.output = some sum := by
        rw [← h.pending hdone, Build.recorded, hb, ← hchanges.recorded_eq]
        exact hsum
      cases huse : s.useCache with
      | true =>
        rw [h.unrecorded hb huse] at hrecorded
        cases hrecorded
      | false =>
        rcases ha.record huse hread with hsame | hnone
        · exact ⟨Option.some.inj (hrecorded.symm.trans hsame), fun _ => hsame⟩
        · rw [hnone] at hrecorded
          cases hrecorded
  obtain ⟨rfl, hstale⟩ := hrecord
  refine ⟨s.options, src, ha.source hread, rfl, fun k e he => ?_⟩
  rw [hfiles] at he
  by_cases hk : k ∈ s.kinds
  · rw [← hkinds, List.mem_map] at hk
    obtain ⟨f, hf, rfl⟩ := hk
    rw [hwrites.written hsucceeded f hf] at he
    rw [hrendering f hf, Option.map_some]
    exact he
  · rw [hwrites.kept k (hkinds ▸ hk) (.inl hsucceeded)] at he
    exact h.rendering_of_kept hW ha hdone hread hstale hk he

/-- Writing the artifacts of a source. -/
theorem Written.of_writes {d : Device} {D : Location} {dir name src : Text} {t : FileTree} {artifacts : List Text}
    {r : FileTree × Option JobError} (hartifacts : s.kinds.map (rendering s.options src) = artifacts.map some)
    (h : Writes d dir D name [] (s.kinds.zip artifacts) t r) (hsucceeded : r.2 = none) : Written s D name src r.1 := by
  intro k hk
  rw [← zip_kinds hartifacts, List.mem_map] at hk
  obtain ⟨f, hf, rfl⟩ := hk
  exact ⟨f.2, rendering_of_map hartifacts f hf, h.written hsucceeded f hf⟩

/-- A job that is translated has the artifacts of its source, or the build forgets it. -/
theorem Underway.finish_translated (h : Underway W s t done b) (hW : W.CollisionFree) (ha : W.Admits s t job)
    (hdone : job.output ∉ done) {src : Text} (hread : t.read job.input = .ok src) {artifacts : List Text}
    {warnings : List Warning} (hartifacts : s.kinds.map (rendering s.options src) = artifacts.map some) :
    Finishes (Underway W s t) s t done job b
      (b.finish s job (.translated (fingerprint s.options src) artifacts warnings)) := by
  have hwrites := h.changes.wellFormed.writeArtifacts (W.slash_notMem ha.mem) s (length_kinds hartifacts) {}
  rw [h.changes.folder s.outDir] at hwrites
  rw [Build.finish]
  cases hresult : b.files.writeArtifacts (s.paths job.output) artifacts with
  | mk files failure =>
    rw [hresult] at hwrites
    cases failure with
    | some e => exact ⟨h.forget ha.mem hwrites (by simp) rfl rfl, hwrites.changes, .inl rfl⟩
    | none =>
      exact ⟨h.record hW ha hdone hread hwrites rfl (zip_kinds hartifacts) (rendering_of_map hartifacts) rfl rfl,
        hwrites.changes, .inr ⟨rfl, src, hread, .of_writes hartifacts hwrites rfl⟩⟩

/-- Every job of a build keeps the records backed, and it has the artifacts of its source unless it fails. -/
theorem Underway.finish (h : Underway W s t done b) (hW : W.CollisionFree) (ht : t.WellFormed) (ha : W.Admits s t job)
    (hdone : job.output ∉ done) {sums : Option Sums}
    (hsums : ∀ {σ}, sums = some σ → ∀ name, σ.sum? name = t.recorded (t.folder s.outDir) name) :
    Finishes (Underway W s t) s t done job b (b.finish s job (s.prepare t sums job)) := by
  rcases BuildSettings.prepare_cases ht (W.slash_notMem ha.mem) with
    ⟨e, hfailed⟩ | ⟨src, hread, ⟨hunchanged, ⟨σ, hσ, hsum⟩, hthere⟩ | ⟨artifacts, warnings, htranslated, hartifacts⟩⟩
  · rw [hfailed]
    exact h.finish_failed ha e
  · rw [hunchanged]
    rw [hsums hσ] at hsum
    exact h.finish_unchanged hW ha hdone hread hsum hthere
  · rw [htranslated]
    exact h.finish_translated hW ha hdone hread hartifacts

/-! ### All jobs -/

theorem Written.of_entryAt {D : Location} {name src : Text} {t t' : FileTree} (h : Written s D name src t)
    (hentry : ∀ k, t'.entryAt (Artifact.location D name k) = t.entryAt (Artifact.location D name k)) :
    Written s D name src t' := by
  intro k hk
  rw [hentry]
  exact h k hk

/-- The outcome of several jobs. -/
structure FinishesAll (I : List Text → Build → Prop) (s : BuildSettings) (t : FileTree) (jobs : List Job)
    (b b' : Build) : Prop where
  invariant : ∃ done, I done b'
  changes : Changes (OwnAny (t.folder s.outDir) (jobs.map (·.output))) (t.folder s.outDir) b.files b'.files
  failed : b.failed ≤ b'.failed
  written : b'.failed = b.failed → ∀ job ∈ jobs, ∃ src, t.read job.input = .ok src ∧
    Written s (t.folder s.outDir) job.output src b'.files

/-- What holds of one job holds of several that share no name. -/
theorem Build.finishAll_of_finish {c : Conditions} {I : List Text → Build → Prop}
    (hwf : ∀ {done b}, I done b → b.files.WellFormed) (results : Job → JobResult) (jobs : List Job)
    (hstep : ∀ job ∈ jobs, ∀ {done b}, I done b → job.output ∉ done →
      Finishes I s t done job b (b.finish s job (results job) (c.finishing job))) :
    ∀ {done : List Text} {b : Build}, I done b → (jobs.map (·.output)).Nodup → (∀ job ∈ jobs, job.output ∉ done) →
      FinishesAll I s t jobs b (b.finishAll s (jobs.map fun job => (job, results job)) c) := by
  induction jobs with
  | nil =>
    intro done b h _ _
    exact ⟨⟨done, h⟩, .refl (hwf h), Nat.le_refl _, fun _ => by simp⟩
  | cons job rest ih =>
    intro done b h hnodup hdone
    rw [List.forall_mem_cons] at hstep hdone
    rw [List.map_cons, List.nodup_cons] at hnodup
    have hfirst := hstep.1 h hdone.1
    rw [List.map_cons, Build.finishAll]
    generalize b.finish s job (results job) (c.finishing job) = next at hfirst
    have hown := hfirst.changes.mono (Q := OwnAny (t.folder s.outDir) ((job :: rest).map (·.output)))
      fun l hl => ⟨job.output, List.mem_cons_self .., hl⟩
    split
    · rename_i hstop
      rw [Bool.and_eq_true, decide_eq_true_eq] at hstop
      exact ⟨⟨_, hfirst.invariant⟩, hown, Nat.le_of_lt hstop.2, fun heq => by omega⟩
    · have hrest := ih hstep.2 hfirst.invariant hnodup.2 fun job' hjob' => by
        rw [List.mem_cons, not_or]
        exact ⟨fun heq => hnodup.1 (heq ▸ List.mem_map_of_mem hjob'), hdone.2 job' hjob'⟩
      have hle : b.failed ≤ next.failed := by
        rcases hfirst.outcome with hfailed | ⟨hsame, -⟩ <;> omega
      have hfailed := hrest.failed
      refine ⟨hrest.invariant, hown.trans (hrest.changes.mono ?_), by omega, fun heq => ?_⟩
      · rintro l ⟨name, hname, hl⟩
        exact ⟨name, List.mem_cons_of_mem _ hname, hl⟩
      · rw [List.forall_mem_cons]
        refine ⟨?_, hrest.written (by omega)⟩
        obtain ⟨-, src, hread, hwritten⟩ := hfirst.outcome.resolve_left (by omega)
        -- the later jobs have other names
        exact ⟨src, hread, hwritten.of_entryAt fun k => hrest.changes.entryAt_pending hnodup.1 k⟩

/-! ### Whole builds -/

/-- A build starts with the recorded fingerprints, or without sums. -/
theorem loadSums_cases (ht : t.WellFormed) (s : BuildSettings) :
    (Build.loadSums s t).files = t ∧ (Build.loadSums s t).failed = 0 ∧
      ((∃ σ, (Build.loadSums s t).sums = some σ ∧ s.useCache = true ∧ σ.path = Sums.filePath s.outDir ∧
          ∀ name, σ.sum? name = t.recorded (t.folder s.outDir) name) ∨
        (Build.loadSums s t).sums = none ∧
          (s.useCache = true → ∀ name, t.recorded (t.folder s.outDir) name = none)) := by
  rw [Build.loadSums]
  cases huse : s.useCache with
  | false => exact ⟨rfl, rfl, .inr ⟨rfl, fun h => nomatch h⟩⟩
  | true =>
    rcases Sums.load_cases ht s.outDir with ⟨σ, hload, hpath, hsum⟩ | ⟨⟨e, hload⟩, hnone⟩
    · rw [if_pos rfl, hload]
      exact ⟨rfl, rfl, .inl ⟨σ, rfl, rfl, hpath, hsum⟩⟩
    · rw [if_pos rfl, hload]
      exact ⟨rfl, rfl, .inr ⟨rfl, fun _ => hnone⟩⟩

theorem sumsFor_loadSums (ht : t.WellFormed) (s : BuildSettings) : SumsFor s t (Build.loadSums s t).sums := by
  rcases (loadSums_cases ht s).2.2 with ⟨σ, hσ, huse, hpath, -⟩ | ⟨hnone, hunrecorded⟩
  · rw [hσ]
    exact ⟨fun hσ' => Option.some.inj hσ' ▸ hpath, fun _ => huse, (fun h => nomatch h)⟩
  · rw [hnone]
    exact ⟨(fun h => nomatch h), fun h => absurd rfl h, fun _ => hunrecorded⟩

theorem recorded_loadSums (ht : t.WellFormed) (s : BuildSettings) (notices : List BuildNotice) (name : Text) :
    ((Build.loadSums s t).note notices).recorded (t.folder s.outDir) name = t.recorded (t.folder s.outDir) name := by
  obtain ⟨hfiles, -, hsums⟩ := loadSums_cases ht s
  rw [Build.recorded, Build.note]
  rcases hsums with ⟨σ, hσ, -, -, hsum⟩ | ⟨hnone, -⟩
  · simp only [hσ, hsum]
  · simp only [hnone, hfiles]

theorem Consistent.underway (hconsistent : Consistent W t) (ht : t.WellFormed) (s : BuildSettings)
    (notices : List BuildNotice) : Underway W s t [] ((Build.loadSums s t).note notices) := by
  have hrecorded := recorded_loadSums ht s notices
  have hnote : ((Build.loadSums s t).note notices).files = t := (loadSums_cases ht s).1
  obtain ⟨hpath, huse, hunrecorded⟩ := sumsFor_loadSums ht s
  refine ⟨by rw [hnote]; exact .refl ht, hpath, huse, hunrecorded, fun _ => hrecorded _, fun hjob sum hsum => ?_⟩
  rw [hrecorded] at hsum
  rw [hnote]
  exact hconsistent hjob hsum

/-- Saving the sums writes what they say to the sum file. Where that fails there was no such file, or the device did not
write it. -/
theorem Build.saveSums_cases {D : Location} (hwf : b.files.WellFormed) (hfolder : b.files.folder s.outDir = D)
    (hpath : ∀ {σ}, b.sums = some σ → σ.path = Sums.filePath s.outDir) (d : Device) :
    b.sums = none ∧ b.saveSums d = b ∨
      b.sums ≠ none ∧ Changes (· = D ++ [SumFile.name]) D b.files (b.saveSums d).files ∧
        ((∀ name, (b.saveSums d).files.recorded D name = b.recorded D name) ∨
          (∃ e, .sumsNotSaved e ∈ (b.saveSums d).notices) ∧
            ((∀ name, (b.saveSums d).files.recorded D name = b.files.recorded D name) ∧
                (d.writing (Sums.filePath s.outDir) = none → ∀ name, b.files.recorded D name = none) ∨
              d.writing (Sums.filePath s.outDir) ≠ none ∧ ∀ name, (b.saveSums d).files.recorded D name = none)) := by
  subst hfolder
  rw [Build.saveSums]
  cases hb : b.sums with
  | none => exact .inl ⟨rfl, rfl⟩
  | some σ =>
    have hrecorded : ∀ name, b.recorded (b.files.folder s.outDir) name = σ.sum? name := by
      intro name
      rw [Build.recorded, hb]
    simp only [hrecorded]
    refine .inr ⟨Option.some_ne_none σ, ?_⟩
    rcases Sums.save_cases hwf (hpath hb) d with
      ⟨files, hsave, hchanges, hsaved⟩ | ⟨e, hsave, hchanges, hkept | ⟨hwriting, hcut | hsaved⟩⟩
    · rw [hsave]
      exact ⟨hchanges, .inl hsaved⟩
    · rw [hsave]
      exact ⟨hchanges, .inr ⟨⟨e.error, by simp [Build.note]⟩, .inl hkept⟩⟩
    · rw [hsave]
      exact ⟨hchanges, .inr ⟨⟨e.error, by simp [Build.note]⟩, .inr ⟨hwriting, hcut⟩⟩⟩
    · rw [hsave]
      exact ⟨hchanges, .inl hsaved⟩

theorem Build.failed_saveSums (b : Build) (d : Device) : (b.saveSums d).failed = b.failed := by
  rw [saveSums]
  split
  · rfl
  · split <;> rfl

/-- Saving the sums writes the sum file, and what it records then is what the build has. -/
theorem Underway.saveSums (h : Underway W s t done b) :
    Changes (· = t.folder s.outDir ++ [SumFile.name]) (t.folder s.outDir) b.files b.saveSums.files ∧
      b.saveSums.failed = b.failed ∧
      ∀ {name sum}, b.saveSums.files.recorded (t.folder s.outDir) name = some sum →
        b.recorded (t.folder s.outDir) name = some sum := by
  have hwf := h.changes.wellFormed
  rcases Build.saveSums_cases hwf (h.changes.folder s.outDir) h.path {} with
    ⟨hb, hsame⟩ | ⟨-, hchanges, hrecorded | ⟨-, ⟨hrecorded, hnone⟩ | ⟨hwriting, -⟩⟩⟩
  · refine ⟨by rw [hsame]; exact .refl hwf, b.failed_saveSums {}, fun hsum => ?_⟩
    rw [hsame] at hsum
    rwa [Build.recorded, hb]
  · refine ⟨hchanges, b.failed_saveSums {}, fun hsum => ?_⟩
    rwa [← hrecorded]
  · refine ⟨hchanges, b.failed_saveSums {}, fun {name sum} hsum => ?_⟩
    rw [hrecorded, hnone rfl] at hsum
    cases hsum
  · exact absurd rfl hwriting

/-- What is kept for another directory is out of a build's reach, unless it makes a directory in an artifact's place. -/
theorem Consistent.other {D : Location} {t t' : FileTree} (hconsistent : Consistent W t)
    (hchanges : Changes (fun l => ∃ file, l = D ++ [file]) D t t') {D' : Location} (hne : D' ≠ D) {name : Text}
    (hjob : W.jobs D' name) (hdirectory : t.recorded D' name ≠ none → ∀ k,
      t.entryAt (Artifact.location D' name k) = none → ¬Artifact.location D' name k <+: D)
    {sum : Text} (hsum : t'.recorded D' name = some sum) : Backed W t' D' name sum := by
  have hother : ∀ file, ¬∃ file', D' ++ [file] = D ++ [file'] := by
    rintro file ⟨file', heq⟩
    exact hne (List.append_inj' heq rfl).1
  obtain ⟨content, hcontent⟩ := FileTree.exists_of_recorded hsum
  have hsame := hcontent.trans (hchanges.entryAt_file (hother _) hcontent).symm
  rw [FileTree.recorded_congr hsame] at hsum
  refine (hconsistent hjob hsum).mono fun k => .inr ?_
  exact (hchanges.outside _ (hother _)).resolve_right fun ⟨hnone, _, hway⟩ =>
    hdirectory (by simp [hsum]) k hnone hway

/-- The outcome of a build. -/
structure Builds (W : Workspace) (s : BuildSettings) (t : FileTree) (jobs : List Job) (b : Build) : Prop where
  changes : Changes W.Keeps (t.folder s.outDir) t b.files
  consistent : Consistent W b.files
  written : b.failed = 0 → ∀ job ∈ jobs, ∃ src, t.read job.input = .ok src ∧
    Written s (t.folder s.outDir) job.output src b.files

/-- **One build**: the records stay backed, and if no job fails every job has the artifacts of its source. -/
theorem Consistent.run (hconsistent : Consistent W t) (hW : W.CollisionFree) (ht : t.WellFormed) {jobs : List Job}
    (hjobs : jobs ≠ []) (hadmits : ∀ job ∈ jobs, W.Admits s t job) (hnodup : (jobs.map (·.output)).Nodup) :
    Builds W s t jobs (Build.run s t jobs) := by
  obtain ⟨hfiles, hfailed, -⟩ := loadSums_cases ht s
  rw [Build.run]
  generalize (List.flatMap _ _ : List BuildNotice) = notices
  have hunderway := hconsistent.underway ht s notices
  have hstart : ∀ {σ}, (Build.loadSums s t).sums = some σ →
      ∀ name, σ.sum? name = t.recorded (t.folder s.outDir) name := by
    intro σ hσ name
    rw [← hunderway.pending List.not_mem_nil, Build.recorded, Build.note]
    simp only [hσ]
  have hall := Build.finishAll_of_finish (c := {}) (fun h => h.changes.wellFormed)
    (s.prepare t (Build.loadSums s t).sums) jobs
    (fun job hjob _ _ h hdone => h.finish hW ht (hadmits job hjob) hdone hstart) hunderway hnodup (by simp)
  have hchanges := hall.changes
  rw [show ((Build.loadSums s t).note notices).files = t from hfiles] at hchanges
  obtain ⟨done, hdone⟩ := hall.invariant
  obtain ⟨hsave, hsaved, hrecorded⟩ := hdone.saveSums
  have hsaveEntry := fun name k => hsave.entryAt_eq (l := Artifact.location (t.folder s.outDir) name k)
    (Artifact.location_ne_sumFile _ _ _ k) (Location.not_append_prefix _ _)
  obtain ⟨job₀, hjob₀⟩ := List.exists_mem_of_ne_nil jobs hjobs
  refine ⟨(hchanges.mono ?_).trans (hsave.mono ?_), fun {D' name} hjob {sum} hsum => ?_, fun hzero job hjob => ?_⟩
  · rintro l ⟨name, hname, hown⟩
    obtain ⟨job, hjob, rfl⟩ := List.mem_map.1 hname
    exact ⟨_, _, (hadmits job hjob).mem, .inl hown⟩
  · rintro l rfl
    exact ⟨_, _, (hadmits job₀ hjob₀).mem, .inr rfl⟩
  · by_cases hD : D' = t.folder s.outDir
    · subst hD
      exact (hdone.backed hjob (hrecorded hsum)).mono fun k => .inr (hsaveEntry name k)
    · refine hconsistent.other ((hchanges.mono ?_).trans (hsave.mono ?_)) hD hjob
        ((hadmits job₀ hjob₀).directory hjob) hsum
      · rintro l ⟨name', -, k, rfl⟩
        exact ⟨_, rfl⟩
      · rintro l rfl
        exact ⟨_, rfl⟩
  · have hsame : ((Build.loadSums s t).note notices).failed = 0 := hfailed
    obtain ⟨src, hread, hwritten⟩ := hall.written (by rw [hsame, ← hsaved]; exact hzero) job hjob
    exact ⟨src, hread, hwritten.of_entryAt (hsaveEntry job.output)⟩

end

end RatLang
