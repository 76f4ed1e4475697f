import RatLang.Proofs.Build.Verdicts

/-!
# What becomes of jobs

Where the artifacts of the jobs of a build lie apart, every verdict is right not only when it is given but at the end of
the build, and what no verdict is about is as it was. This holds whatever the device does; what is up to it are
artifacts that it breaks off or does not remove, and a sum file that it does not write, and the build says so. Main
statement: `Build.settled_run`.

The artifacts have to lie apart from the sum file as well: to save it the build makes its directory, and that can be
the place of an artifact (`failed_job_leaves_directory`).
-/
namespace RatLang

open FileTree (Changes)

/-- No artifact of a job lies at or above one of another job or, if the build uses it, the sum file. -/
structure Job.Apart (s : BuildSettings) (t : FileTree) (jobs : List Job) : Prop where
  others : jobs.Pairwise fun job other => ∀ p ∈ s.paths job.output, ∀ q ∈ s.paths other.output,
    ¬t.folder p <+: t.folder q ∧ ¬t.folder q <+: t.folder p
  sums : s.useCache = true → ∀ job ∈ jobs, ∀ p ∈ s.paths job.output, ¬t.folder p <+: t.folder (Sums.filePath s.outDir)

/-- The device did not write the sum file, and the build says that the sums could not be saved. -/
def Build.Unsaved (s : BuildSettings) (c : Conditions) (b : Build) : Prop :=
  c.saving.writing (Sums.filePath s.outDir) ≠ none ∧ ∃ e, .sumsNotSaved e ∈ b.notices

/-- What a build has done: its verdicts are right, and what they are not about is as it was. -/
structure Settled (s : BuildSettings) (t : FileTree) (jobs : List Job) (c : Conditions) (b : Build) : Prop where
  /-- The verdicts are about the jobs in their order, and they are right. -/
  told : List.Forall₂
    (fun job => job.Fits s t (c.finishing job) (b.Unsaved s c) (t.traces s job) (b.files.traces s job))
    (jobs.take b.verdicts.length) b.verdicts
  /-- There is one for every job, unless the build was to stop at a failure and has done so. -/
  whole : b.verdicts.length = jobs.length ∨ s.failFast = true ∧ ∃ v ∈ b.verdicts.getLast?, v.isFailure
  /-- It stops at the first one. -/
  first : s.failFast = true → ∀ v ∈ b.verdicts.dropLast, v.isFailure = false
  /-- The jobs that it does not come to have what they had. -/
  rest : ∀ job ∈ jobs.drop b.verdicts.length, (t.traces s job).Kept (b.Unsaved s c) (b.files.traces s job)
  /-- So have the names that belong to no job. -/
  others : ∀ name, (∀ job ∈ jobs, job.output ≠ name) →
    SumKept (b.Unsaved s c) (t.sum? s.outDir name) (b.files.sum? s.outDir name)
  /-- The command that builds the jobs exits with an error exactly if one of them failed. -/
  exit : ∀ (setting : Setting) (a : Arguments), buildPlan? t a = some (s, jobs) →
    (buildCommand { setting with files := t } a c).files = b.files ∧
      ((buildCommand { setting with files := t } a c).exitCode ≠ 0 ↔ ∃ v ∈ b.verdicts, v.isFailure)

/-! ### All jobs -/

section Run

variable {s : BuildSettings} {t : FileTree} {c : Conditions} {b b' : Build} {jobs : List Job}

/-- The outcome of several jobs, as far as the build comes. -/
structure FinishedAll (s : BuildSettings) (t : FileTree) (jobs : List Job) (c : Conditions) (b b' : Build)
    (vs : List BuildNotice) : Prop where
  ongoing : Ongoing s t b'
  verdicts : b'.verdicts = b.verdicts ++ vs
  told : List.Forall₂ (fun job => job.Fits s t (c.finishing job) False (b.traces s t job) (b'.traces s t job))
    (jobs.take vs.length) vs
  whole : vs.length = jobs.length ∨ s.failFast = true ∧ ∃ v ∈ vs.getLast?, v.isFailure
  first : s.failFast = true → ∀ v ∈ vs.dropLast, v.isFailure = false
  clear : ∀ job, (∀ other ∈ jobs.take vs.length, job.Clear s t other) → b'.traces s t job = b.traces s t job
  others : ∀ name, (∀ job ∈ jobs, job.output ≠ name) →
    b'.recorded (t.folder s.outDir) name = b.recorded (t.folder s.outDir) name

/-- The build stops behind a job. -/
theorem Finished.stop {job : Job} {v : BuildNotice} (h : Finished s t (c.finishing job) job b b' v)
    (hb : Ongoing s t b) (hfast : s.failFast = true) (hfailure : v.isFailure = true) (rest : List Job) :
    FinishedAll s t (job :: rest) c b b' [v] where
  ongoing := h.ongoing
  verdicts := h.verdicts
  told := .cons h.fits .nil
  whole := .inr ⟨hfast, v, rfl, hfailure⟩
  first := fun _ _ hv => nomatch hv
  clear := fun _ hclear => h.traces_eq hb (hclear job (List.mem_cons_self ..))
  others := fun name hname => h.others name (hname job (List.mem_cons_self ..)).symm

/-- The build goes on behind a job. -/
theorem Finished.cons {job : Job} {rest : List Job} {b'' : Build} {v : BuildNotice} {vs : List BuildNotice}
    (h : Finished s t (c.finishing job) job b b' v) (hb : Ongoing s t b)
    (hgoes : s.failFast = true → v.isFailure = false)
    (hclear : ∀ other ∈ rest, job.Clear s t other ∧ other.Clear s t job) (hrest : FinishedAll s t rest c b' b'' vs) :
    FinishedAll s t (job :: rest) c b b'' (v :: vs) := by
  have hmem : ∀ other ∈ rest.take vs.length, other ∈ rest := fun other hother => List.mem_of_mem_take hother
  refine ⟨hrest.ongoing, ?_, .cons ?_ ?_, ?_, fun hfast w hw => ?_, fun other hother => ?_, fun name hname => ?_⟩
  · rw [hrest.verdicts, h.verdicts, List.append_assoc, List.singleton_append]
  · rw [hrest.clear job fun other hother => (hclear other (hmem other hother)).1]
    exact h.fits
  · refine ((List.forall₂_and_left _ _).2 ⟨hmem, hrest.told⟩).imp fun other w ⟨hother, hfits⟩ => ?_
    rwa [h.traces_eq hb (hclear other hother).2] at hfits
  · refine hrest.whole.imp (congrArg Nat.succ) fun ⟨hfast, w, hw, hfailure⟩ => ⟨hfast, w, ?_, hfailure⟩
    rw [List.getLast?_cons, hw]
    rfl
  · cases vs with
    | nil => cases hw
    | cons next vs =>
      rcases List.mem_cons.1 hw with rfl | hw
      · exact hgoes hfast
      · exact hrest.first hfast w hw
  · rw [List.length_cons, List.take_succ_cons, List.forall_mem_cons] at hother
    rw [hrest.clear other hother.2, h.traces_eq hb hother.1]
  · rw [List.forall_mem_cons] at hname
    rw [hrest.others name hname.2, h.others name hname.1.symm]

/-- **All jobs**: if they are clear of each other, the verdicts are right at the end of the build. -/
theorem Ongoing.finishAll (c : Conditions) (sums : Option Sums) (jobs : List Job) : ∀ {b : Build}, Ongoing s t b →
    jobs.Pairwise (fun job other => job.Clear s t other ∧ other.Clear s t job) →
      ∃ vs, FinishedAll s t jobs c b (b.finishAll s (jobs.map fun job => (job, s.prepare t sums job)) c) vs := by
  induction jobs with
  | nil =>
    intro b h _
    exact ⟨[], h, (List.append_nil _).symm, .nil, .inl rfl, (fun _ _ hv => nomatch hv), fun _ _ => rfl, fun _ _ => rfl⟩
  | cons job rest ih =>
    intro b h hclear
    rw [List.pairwise_cons] at hclear
    obtain ⟨v, hfirst⟩ := h.finish sums job (c.finishing job)
    rw [List.map_cons, Build.finishAll]
    split
    · next hstop =>
      rw [Bool.and_eq_true, decide_eq_true_eq, hfirst.failed] at hstop
      exact ⟨[v], hfirst.stop h hstop.1 hstop.2 rest⟩
    · next hgoes =>
      rw [Bool.and_eq_true, decide_eq_true_eq, hfirst.failed, not_and, Bool.not_eq_true] at hgoes
      obtain ⟨vs, hrest⟩ := ih hfirst.ongoing hclear.2
      exact ⟨v :: vs, hfirst.cons h hgoes hclear.1 hrest⟩

/-! ### Whole builds -/

/-- What is recorded at the end: what the build has, unless saving failed, which leaves the old sum file or none. -/
def SumSaved (unsaved : Prop) (old before after : Option Text) : Prop :=
  after = before ∨ unsaved ∧ (after = none ∨ after = old) ∨ after = none ∧ old = none

/-- Saving the sums writes the sum file, or the device does not. Otherwise it cannot fail where anything is recorded. -/
theorem Ongoing.saveSums (h : Ongoing s t b) (c : Conditions) :
    ((b.saveSums c.saving).files = b.files ∨ s.useCache = true ∧
      Changes (· = t.folder s.outDir ++ [SumFile.name]) (t.folder s.outDir) b.files (b.saveSums c.saving).files) ∧
    ∀ name, SumSaved ((b.saveSums c.saving).Unsaved s c) (t.recorded (t.folder s.outDir) name)
      (b.recorded (t.folder s.outDir) name) ((b.saveSums c.saving).files.recorded (t.folder s.outDir) name) := by
  rcases Build.saveSums_cases h.wellFormed (FileTree.folder_congr h.cwd s.outDir) h.sums.path c.saving with
    ⟨hb, hsame⟩ | ⟨hsome, hchanges, hrecorded | ⟨hnotice, ⟨hrecorded, hnone⟩ | ⟨hwriting, hrecorded⟩⟩⟩
  · refine ⟨.inl (congrArg Build.files hsame), fun name => .inl ?_⟩
    rw [hsame, Build.recorded, hb]
  · exact ⟨.inr ⟨h.sums.useCache hsome, hchanges⟩, fun name => .inl (hrecorded name)⟩
  · refine ⟨.inr ⟨h.sums.useCache hsome, hchanges⟩, fun name => .inr ?_⟩
    rw [hrecorded, h.ledger]
    by_cases hwriting : c.saving.writing (Sums.filePath s.outDir) = none
    · have hold := hnone hwriting name
      rw [h.ledger] at hold
      exact .inr ⟨hold, hold⟩
    · exact .inl ⟨⟨hwriting, hnotice⟩, .inr rfl⟩
  · exact ⟨.inr ⟨h.sums.useCache hsome, hchanges⟩, fun name => .inr (.inl ⟨⟨hwriting, hnotice⟩, .inl (hrecorded name)⟩)⟩

theorem Build.verdicts_saveSums (b : Build) (d : Device) : (b.saveSums d).verdicts = b.verdicts := by
  rw [saveSums]
  split
  · rfl
  · split
    · rfl
    · rw [verdicts_note]
      exact List.append_nil _

theorem Job.exists_path (s : BuildSettings) (t : FileTree) (job : Job) {k : Artifact} (hk : k ∈ s.kinds) :
    ∃ p ∈ s.paths job.output, t.folder p = job.place s t k := by
  rw [← List.mem_map, job.map_folder_paths s t]
  exact List.mem_map_of_mem hk

theorem Job.Apart.clear (h : Job.Apart s t jobs) (hnodup : (jobs.map (·.output)).Nodup) :
    jobs.Pairwise fun job other => job.Clear s t other ∧ other.Clear s t job := by
  refine ((List.pairwise_map.1 hnodup).and h.others).imp fun {job other} ⟨hne, hapart⟩ => ?_
  have hplaces : ∀ k ∈ s.kinds, ∀ k' ∈ s.kinds,
      ¬job.place s t k <+: other.place s t k' ∧ ¬other.place s t k' <+: job.place s t k := by
    intro k hk k' hk'
    obtain ⟨p, hp, hplace⟩ := job.exists_path s t hk
    obtain ⟨q, hq, hplace'⟩ := other.exists_path s t hk'
    rw [← hplace, ← hplace']
    exact hapart p hp q hq
  exact ⟨⟨hne, fun k hk k' hk' => (hplaces k hk k' hk').1⟩, hne.symm, fun k hk k' hk' => (hplaces k' hk' k hk).2⟩

/-- Saving the sums leaves the artifacts that do not lie above the sum file. -/
theorem Ongoing.traces_saveSums (h : Ongoing s t b) {job : Job}
    (hsums : s.useCache = true → ∀ p ∈ s.paths job.output, ¬t.folder p <+: t.folder (Sums.filePath s.outDir)) :
    ((b.saveSums c.saving).files.traces s job).artifacts = (b.traces s t job).artifacts := by
  rcases (h.saveSums c).1 with hsame | ⟨huse, hchanges⟩
  · rw [FileTree.traces, hsame]
    rfl
  · rw [h.artifacts_traces]
    refine (Job.map_found?_paths hchanges.wellFormed (hchanges.cwd.trans h.cwd) s job).trans ?_
    refine List.map_congr_left fun k hk => hchanges.entryAt_eq (fun heq => ?_) fun habove => ?_
    · exact Artifact.location_ne_sumFile _ _ _ _ heq
    · obtain ⟨p, hp, hplace⟩ := job.exists_path s t hk
      refine hsums huse p hp ?_
      rw [hplace, Sums.filePath, FileTree.folder_join SumFile.name_plain]
      exact habove.trans (List.prefix_append _ _)

theorem Ongoing.sum?_saveSums (h : Ongoing s t b) (name : Text) :
    (b.saveSums c.saving).files.sum? s.outDir name =
      (b.saveSums c.saving).files.recorded (t.folder s.outDir) name := by
  rcases (h.saveSums c).1 with hsame | ⟨-, hchanges⟩
  · rw [hsame, h.wellFormed.sum?_eq, FileTree.folder_congr h.cwd]
  · rw [hchanges.wellFormed.sum?_eq, FileTree.folder_congr (hchanges.cwd.trans h.cwd)]

/-- A fingerprint that was kept is kept when the sums are saved. -/
theorem SumSaved.kept {unsaved : Prop} {old before after : Option Text} (h : SumSaved unsaved old before after)
    (hbefore : before = old) : SumKept unsaved old after := by
  rcases h with hsame | ⟨hunsaved, hnone | hold⟩ | ⟨hnone, hnone'⟩
  · exact .inl (hsame.trans hbefore)
  · exact .inr ⟨hunsaved, hnone⟩
  · exact .inl hold
  · exact .inl (hnone.trans hnone'.symm)

theorem Traces.Kept.saved {unsaved : Prop} {old before after : Traces} (h : old.Kept False before)
    (hartifacts : after.artifacts = before.artifacts) (hsum : SumSaved unsaved old.sum before.sum after.sum) :
    old.Kept unsaved after :=
  ⟨hartifacts.trans h.1, hsum.kept (h.2.resolve_right And.left)⟩

/-- A verdict that was right is right when the sums are saved. -/
theorem Job.Fits.saved {job : Job} {d : Device} {unsaved : Prop} {old before after : Traces} {v : BuildNotice}
    (h : job.Fits s t d False old before v) (hartifacts : after.artifacts = before.artifacts)
    (hsum : SumSaved unsaved old.sum before.sum after.sum) : job.Fits s t d unsaved old after v := by
  cases v with
  | unchanged input paths => exact ⟨h.1, h.2.1, h.2.2.saved hartifacts hsum⟩
  | failed input e =>
    obtain ⟨hinput, hfailed⟩ := h
    refine ⟨hinput, ?_⟩
    by_cases hwriting : e.ofWriting = true
    · rw [if_pos hwriting] at hfailed ⊢
      obtain ⟨hleft, hforgotten⟩ := hfailed
      refine ⟨by rwa [hartifacts], fun huse => ?_⟩
      have hnone : before.sum = none := (hforgotten huse).resolve_right And.left
      rcases hsum with hsame | ⟨hunsaved, hnone' | hold⟩ | ⟨hnone', -⟩
      · exact .inl (hsame.trans hnone)
      · exact .inl hnone'
      · exact .inr ⟨hunsaved, hold⟩
      · exact .inl hnone'
    · rw [if_neg hwriting] at hfailed ⊢
      exact ⟨hfailed.1, hfailed.2.saved hartifacts hsum⟩
  | processed input paths =>
    obtain ⟨hinput, hpaths, artifacts, hrendered, hwritten⟩ := h
    exact ⟨hinput, hpaths, artifacts, hrendered, hartifacts.trans hwritten⟩
  | sumsIgnored | sumsNotSaved | translating | skipped | warning => exact h

theorem Build.exit_of_plan {setting : Setting} {a : Arguments} (h : buildPlan? t a = some (s, jobs)) (c : Conditions) :
    (buildCommand { setting with files := t } a c).exitCode ≠ 0 ↔ (Build.run s t jobs c).failed ≠ 0 := by
  rw [Ne, Ne, not_iff_not, ← (buildCommand_of_plan setting h c).2, Outcome.exitCode]
  cases (buildCommand { setting with files := t } a c).failure with
  | none => simp
  | some message => simp

/-- The verdicts on the jobs when the sums are saved as well. -/
theorem FinishedAll.settled {start : Build} {vs : List BuildNotice} (h : FinishedAll s t jobs c start b vs)
    (ht : t.WellFormed) (hapart : Job.Apart s t jobs) (hnodup : (jobs.map (·.output)).Nodup)
    (hverdicts : start.verdicts = []) (hfiles : start.files = t)
    (hrecorded : ∀ name, start.recorded (t.folder s.outDir) name = t.recorded (t.folder s.outDir) name)
    (hrun : Build.run s t jobs c = b.saveSums c.saving) : Settled s t jobs c (b.saveSums c.saving) := by
  have hvs : (b.saveSums c.saving).verdicts = vs := by
    rw [Build.verdicts_saveSums, h.verdicts, hverdicts, List.nil_append]
  have hbefore : ∀ job, start.traces s t job = t.traces s job := by
    intro job
    rw [Build.traces, FileTree.traces, hfiles, hrecorded, ht.sum?_eq]
  have hsum : ∀ name, SumSaved ((b.saveSums c.saving).Unsaved s c) (t.sum? s.outDir name)
      (b.recorded (t.folder s.outDir) name) ((b.saveSums c.saving).files.sum? s.outDir name) := by
    intro name
    rw [h.ongoing.sum?_saveSums, ht.sum?_eq]
    exact (h.ongoing.saveSums c).2 name
  have hafter : ∀ job ∈ jobs, ((b.saveSums c.saving).files.traces s job).artifacts = (b.traces s t job).artifacts :=
    fun job hjob => h.ongoing.traces_saveSums fun huse => hapart.sums huse job hjob
  refine ⟨?_, ?_, ?_, fun job hjob => ?_, fun name hname => ?_, fun setting a hplan => ⟨?_, ?_⟩⟩
  · rw [hvs]
    refine ((List.forall₂_and_left _ _).2 ⟨fun _ => List.mem_of_mem_take, h.told⟩).imp fun job v htold => ?_
    have hfits := htold.2
    rw [hbefore] at hfits
    exact hfits.saved (hafter job htold.1) (hsum job.output)
  · rw [hvs]
    exact h.whole
  · rw [hvs]
    exact h.first
  · rw [hvs] at hjob
    have hclear := hapart.clear hnodup
    rw [← List.take_append_drop vs.length jobs, List.pairwise_append] at hclear
    have hkept : b.traces s t job = t.traces s job := by
      rw [h.clear job fun other hother => (hclear.2.2 other hother job hjob).2, hbefore]
    have hall : (t.traces s job).Kept False (b.traces s t job) := by
      rw [hkept]
      exact ⟨rfl, .inl rfl⟩
    exact hall.saved (hafter job (List.mem_of_mem_drop hjob)) (hsum job.output)
  · refine (hsum name).kept ?_
    rw [h.others name hname, hrecorded, ht.sum?_eq]
  · rw [(buildCommand_of_plan setting hplan c).1, hrun]
  · rw [Build.exit_of_plan hplan, hrun, Build.failed_saveSums, h.ongoing.counted, Build.verdicts_saveSums]
    simp

end Run

/-! ### Some builds -/

namespace Verdicts

/-- Four sources, of which the second is no program. A directory is where a table of the third is to go, and there are
fingerprints of the second, the third and another job. -/
def start : FileTree :=
  { entries :=
      [([bytes "a.rat"], .file (bytes "put(1);")), ([bytes "b.rat"], .file (bytes "integer ;")),
        ([bytes "c.rat"], .file (bytes "put(2);")), ([bytes "d.rat"], .file (bytes "put(3);")),
        ([bytes "b_symbol_table.txt"], .file (bytes "Symbol Table\n")), ([bytes "c_symbol_table.txt"], .file []),
        ([bytes "c_instruction_table.txt"], .directory),
        ([SumFile.name], .file (SumFile.encode [(bytes "b", [1]), (bytes "c", [2]), (bytes "z", [3])]))] }

def settings : BuildSettings := ⟨{}, Path.here, false, true, false⟩

def jobs : List Job :=
  [⟨bytes "a.rat", bytes "a"⟩, ⟨bytes "b.rat", bytes "b"⟩, ⟨bytes "c.rat", bytes "c"⟩, ⟨bytes "d.rat", bytes "d"⟩]

/-- The device is full while the last job is finished, and files cannot be removed from it. -/
def full : Conditions where
  finishing job :=
    if job.output = bytes "d" then
      { writing := fun path =>
          if path = bytes "d_instruction_table.txt" then some (.brokenOff (bytes "no space left on device") 11)
          else none
        removing := fun _ => some (bytes "permission denied") }
    else {}

/-- What is wrong with the third one: a directory where a file should be. -/
def noFile : JobError :=
  .writing (bytes "c_instruction_table.txt") ⟨.opening, bytes "c_instruction_table.txt", .isDirectory⟩

end Verdicts

end RatLang
