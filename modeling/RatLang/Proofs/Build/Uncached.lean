import RatLang.Proofs.Build.Run

/-!
# Builds without sums

A build without sums translates every job. If a build with sums fails at no job, neither does the build without sums
from the same tree, and it leaves every job's artifacts as the source has them (`Builds.uncached`).
-/
namespace RatLang

open FileTree (Changes OwnAny artifactPath)

variable {s : BuildSettings} {t : FileTree} {b : Build} {job : Job}

/-! ### Failures are counted -/

theorem Build.failed_le_finish (s : BuildSettings) (b : Build) (job : Job) (result : JobResult) :
    b.failed ≤ (b.finish s job result).failed := by
  cases result with
  | unchanged => exact Nat.le_refl _
  | failed e => exact Nat.le_succ _
  | translated sum artifacts warnings =>
    rw [finish]
    split
    · exact Nat.le_succ _
    · exact Nat.le_refl _

theorem Build.failed_le_finishAll (s : BuildSettings) (results : List (Job × JobResult)) :
    ∀ b : Build, b.failed ≤ (b.finishAll s results).failed := by
  induction results with
  | nil => exact fun b => Nat.le_refl _
  | cons first rest ih =>
    intro b
    have hfirst := failed_le_finish s b first.1 first.2
    rw [finishAll]
    split
    · exact hfirst
    · exact Nat.le_trans hfirst (ih _)

theorem Build.failed_finish_eq_zero {result : JobResult} {rest : List (Job × JobResult)}
    (h : (b.finishAll s ((job, result) :: rest)).failed = 0) : (b.finish s job result).failed = 0 := by
  rw [finishAll] at h
  split at h
  · exact h
  · exact Nat.le_zero.1 (h ▸ failed_le_finishAll s rest _)

/-! ### The directory -/

/-- The directory of a build that fails at no job is there or can be made. -/
theorem Build.exists_makeDirs_of_run (ht : t.WellFormed) {rest : List Job} (hname : Path.slash ∉ job.output)
    (h : (Build.run s t (job :: rest)).failed = 0) :
    ∃ t', t.makeDirs (Path.spell (Path.isAbsolute s.outDir) (Path.names s.outDir)) = .ok t' := by
  obtain ⟨hfiles, hfailed, -⟩ := loadSums_cases ht s
  have hplain := Artifact.fileName_plain hname .symbols
  have hparent : Path.parent (artifactPath s.outDir job.output .symbols) =
      Path.spell (Path.isAbsolute s.outDir) (Path.names s.outDir) := Path.parent_join hplain
  have hnext : ∃ b : Build, b.files = t ∧ (b.finish s job (s.prepare t (Build.loadSums s t).sums job)).failed = 0 := by
    rw [Build.run, failed_saveSums, List.map_cons] at h
    refine ⟨_, ?_, failed_finish_eq_zero h⟩
    exact hfiles
  obtain ⟨b, hb, hnext⟩ := hnext
  rcases BuildSettings.prepare_cases ht hname with
    ⟨e, hfailed⟩ | ⟨src, -, ⟨-, -, hthere⟩ | ⟨artifacts, warnings, htranslated, -⟩⟩
  · rw [hfailed] at hnext
    exact absurd hnext (Nat.succ_ne_zero _)
  · obtain ⟨e, he⟩ := hthere .symbols (BuildSettings.mem_kinds_iff.2 (by simp))
    rw [← hparent]
    exact ⟨t, ht.makeDirs_parent_join_of_isDirectory hplain (ht.parent_append he) {}⟩
  · rw [htranslated, Build.finish, hb] at hnext
    cases hmake : t.makeDirs (Path.parent (artifactPath s.outDir job.output .symbols)) with
    | ok t' => exact ⟨t', hparent ▸ hmake⟩
    | error e =>
      obtain ⟨others, hpaths⟩ := FileTree.paths_eq_cons s job.output
      rw [hpaths, FileTree.writeArtifacts, hmake] at hnext
      exact absurd hnext (Nat.succ_ne_zero _)

/-! ### Every job is translated -/

/-- The source of a job has all the artifacts of a build, and no directory is in their place. -/
def Feasible (s : BuildSettings) (t : FileTree) (job : Job) (src : Text) : Prop :=
  t.read job.input = .ok src ∧ ∀ k ∈ s.kinds, (∃ content, rendering s.options src k = some content) ∧
    ¬t.IsDirectory (Artifact.location (t.folder s.outDir) job.output k)

theorem exists_map_some {f : Artifact → Option Text} {kinds : List Artifact}
    (h : ∀ k ∈ kinds, ∃ content, f k = some content) : ∃ contents : List Text, kinds.map f = contents.map some := by
  induction kinds with
  | nil => exact ⟨[], rfl⟩
  | cons first rest ih =>
    rw [List.forall_mem_cons] at h
    obtain ⟨⟨content, hcontent⟩, hrest⟩ := h
    obtain ⟨contents, hcontents⟩ := ih hrest
    exact ⟨content :: contents, by rw [List.map_cons, hcontent, hcontents, List.map_cons]⟩

theorem Feasible.prepare {src : Text} (h : Feasible s t job src) :
    ∃ artifacts warnings, s.prepare t none job = .translated (fingerprint s.options src) artifacts warnings ∧
      s.kinds.map (rendering s.options src) = artifacts.map some := by
  obtain ⟨artifacts, hartifacts⟩ := exists_map_some fun k hk => (h.2 k hk).1
  obtain ⟨warnings, htranslate⟩ : ∃ warnings, s.translate job.input src = .ok (artifacts, warnings) :=
    BuildSettings.translate_eq_ok_iff.2 hartifacts
  refine ⟨artifacts, warnings, ?_, hartifacts⟩
  rw [BuildSettings.prepare, h.1]
  simp [htranslate]

/-- A build without sums that has failed at no job so far, and whose directory is there or can be made. -/
structure Succeeding (s : BuildSettings) (t : FileTree) (done : List Text) (b : Build) : Prop where
  changes : Changes (OwnAny (t.folder s.outDir) done) (t.folder s.outDir) t b.files
  directory : ∃ t', b.files.makeDirs (Path.spell (Path.isAbsolute s.outDir) (Path.names s.outDir)) = .ok t'
  sums : b.sums = none
  failed : b.failed = 0

theorem Succeeding.finish {done : List Text} (h : Succeeding s t done b) (hname : Path.slash ∉ job.output)
    (hdone : job.output ∉ done) {src : Text} (hfeasible : Feasible s t job src) :
    Finishes (Succeeding s t) s t done job b (b.finish s job (s.prepare t none job)) := by
  obtain ⟨artifacts, warnings, hprepare, hartifacts⟩ := hfeasible.prepare
  have hfolder := h.changes.folder s.outDir
  have hwrites := h.changes.wellFormed.writeArtifacts hname s (length_kinds hartifacts) {}
  have hsucceeds : (b.files.writeArtifacts (s.paths job.output) artifacts).2 = none := by
    obtain ⟨t', hmake⟩ := h.directory
    refine h.changes.wellFormed.writeArtifacts_succeeds hname s hmake fun k hk => ?_
    rw [hfolder, FileTree.IsDirectory, h.changes.entryAt_pending hdone]
    exact (hfeasible.2 k hk).2
  rw [hfolder] at hwrites
  have hwritten : Written s (t.folder s.outDir) job.output src
      (b.files.writeArtifacts (s.paths job.output) artifacts).1 := .of_writes hartifacts hwrites hsucceeds
  rw [hprepare, Build.finish]
  cases hresult : b.files.writeArtifacts (s.paths job.output) artifacts with
  | mk files failure =>
    rw [hresult] at hwrites hwritten
    obtain rfl : failure = none := by
      rw [hresult] at hsucceeds
      exact hsucceeds
    have hchanges := h.changes.cons hwrites.changes
    have hmake : files.makeDirs (Path.spell (Path.isAbsolute s.outDir) (Path.names s.outDir)) = .ok files := by
      obtain ⟨content, -, hentry⟩ := hwritten .symbols (BuildSettings.mem_kinds_iff.2 (by simp))
      have hplain := Artifact.fileName_plain hname .symbols
      rw [← Path.parent_join hplain]
      refine hchanges.wellFormed.makeDirs_parent_join_of_isDirectory hplain ?_ {}
      rw [hchanges.folder]
      exact hchanges.wellFormed.parent_append hentry
    have hsums : b.sums.map (·.record job.output (fingerprint s.options src)) = none := by
      rw [h.sums, Option.map_none]
    exact ⟨⟨hchanges, ⟨files, hmake⟩, hsums, h.failed⟩, hwrites.changes, .inr ⟨rfl, src, hfeasible.1, hwritten⟩⟩

/-- A build that writes the artifacts of every job, and nothing else. -/
structure BuildsOnly (s : BuildSettings) (t : FileTree) (jobs : List Job) (b : Build) : Prop where
  failed : b.failed = 0
  changes : Changes (OwnAny (t.folder s.outDir) (jobs.map (·.output))) (t.folder s.outDir) t b.files
  written : ∀ job ∈ jobs, ∃ src, t.read job.input = .ok src ∧ Written s (t.folder s.outDir) job.output src b.files

/-- A build without sums succeeds where every job is feasible. -/
theorem Build.run_of_feasible (ht : t.WellFormed) (huse : s.useCache = false) {jobs : List Job}
    (hmake : ∃ t', t.makeDirs (Path.spell (Path.isAbsolute s.outDir) (Path.names s.outDir)) = .ok t')
    (hjobs : ∀ job ∈ jobs, Path.slash ∉ job.output ∧ ∃ src, Feasible s t job src)
    (hnodup : (jobs.map (·.output)).Nodup) : BuildsOnly s t jobs (Build.run s t jobs) := by
  have hload : Build.loadSums s t = { files := t } := by rw [Build.loadSums, huse]; rfl
  rw [Build.run, hload]
  generalize (List.flatMap _ _ : List BuildNotice) = notices
  have hstart : Succeeding s t [] (Build.note { files := t } notices) := ⟨.refl ht, hmake, rfl, rfl⟩
  have hall := Build.finishAll_of_finish (c := {}) (fun h => h.changes.wellFormed) (s.prepare t none) jobs
    (fun job hjob _ _ h hdone => by
      obtain ⟨hname, src, hfeasible⟩ := hjobs job hjob
      exact h.finish hname hdone hfeasible) hstart hnodup (by simp)
  obtain ⟨done, hdone⟩ := hall.invariant
  have hsave : ∀ b : Build, b.sums = none → b.saveSums = b := by
    intro b hb
    rw [Build.saveSums, hb]
  rw [hsave _ hdone.sums]
  exact ⟨hdone.failed, hall.changes, hall.written hdone.failed⟩

/-- **Builds without sums**: where a build fails at no job, it does not without sums either. -/
theorem Builds.uncached {W : Workspace} {jobs : List Job} (h : Builds W s t jobs (Build.run s t jobs))
    (ht : t.WellFormed) (hjobs : jobs ≠ []) (hadmits : ∀ job ∈ jobs, W.Admits s t job)
    (hnodup : (jobs.map (·.output)).Nodup) (hzero : (Build.run s t jobs).failed = 0) :
    BuildsOnly { s with useCache := false } t jobs (Build.run { s with useCache := false } t jobs) := by
  have hfeasible : ∀ job ∈ jobs, Path.slash ∉ job.output ∧ ∃ src, Feasible { s with useCache := false } t job src := by
    intro job hjob
    refine ⟨W.slash_notMem (hadmits job hjob).mem, ?_⟩
    obtain ⟨src, hread, hwritten⟩ := h.written hzero job hjob
    refine ⟨src, hread, fun k hk => ?_⟩
    obtain ⟨content, hcontent, hentry⟩ := hwritten k hk
    refine ⟨⟨content, hcontent⟩, fun hdirectory => ?_⟩
    have hstill := h.changes.directory _ hdirectory
    rw [FileTree.IsDirectory, hentry] at hstill
    cases hstill
  obtain ⟨job, rest, rfl⟩ := List.exists_cons_of_ne_nil hjobs
  have hmake := Build.exists_makeDirs_of_run ht (W.slash_notMem (hadmits job (List.mem_cons_self ..)).mem) hzero
  exact Build.run_of_feasible ht rfl hmake hfeasible hnodup

end RatLang
