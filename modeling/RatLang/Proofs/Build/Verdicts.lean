import Mathlib.Data.List.Forall2
import RatLang.Proofs.Build.Paths

/-!
# Verdicts

A build says of every job that it comes to whether the job was unchanged, failed or was processed. What there is of a
job are its artifacts and its fingerprint. A verdict is right (`Job.Fits`) if a processed job has the artifacts of its
source, a job that could not be written has none but those it had before and no fingerprint, and any other job has what
it had. Two things are up to the device: an artifact that it breaks off or does not remove, and a sum file that it does
not write. Here one job is finished: the build says one thing about it, which is right (`Ongoing.finish`), and it leaves
the jobs that are clear of it (`Finished.traces_eq`).
-/
namespace RatLang

open FileTree (Changes Own Writes)

/-! ### Traces of a job -/

/-- What is found at a path. -/
def FileTree.found? (t : FileTree) (path : Text) : Option Entry := (t.find path).toOption

/-- The fingerprint of a job in the sums that are kept in a directory. -/
def FileTree.sum? (t : FileTree) (dir name : Text) : Option Text := (Sums.load t dir).toOption.bind (·.sum? name)

/-- What there is of a job: what is found at its paths, and its fingerprint. -/
@[ext]
structure Traces where
  artifacts : List (Option Entry)
  sum : Option Text
  deriving DecidableEq

/-- What a tree holds of a job. -/
def FileTree.traces (s : BuildSettings) (t : FileTree) (job : Job) : Traces :=
  ⟨(s.paths job.output).map t.found?, t.sum? s.outDir job.output⟩

/-- What a build has of a job when it has started from `t`. -/
def Build.traces (s : BuildSettings) (t : FileTree) (b : Build) (job : Job) : Traces :=
  ⟨(s.paths job.output).map b.files.found?, b.recorded (t.folder s.outDir) job.output⟩

/-- The fingerprint is as it was, or gone with a sum file that was left unsaved. -/
def SumKept (unsaved : Prop) (old new : Option Text) : Prop := new = old ∨ unsaved ∧ new = none

/-- The job has what it had. -/
def Traces.Kept (unsaved : Prop) (before after : Traces) : Prop :=
  after.artifacts = before.artifacts ∧ SumKept unsaved before.sum after.sum

/-! ### Verdicts -/

/-- The notice says what became of a job. -/
def BuildNotice.isVerdict : BuildNotice → Bool
  | .unchanged .. | .failed .. | .processed .. => true
  | .sumsIgnored _ | .sumsNotSaved _ | .translating _ | .skipped _ | .warning _ => false

/-- The notice says that a job failed. -/
def BuildNotice.isFailure : BuildNotice → Bool
  | .failed .. => true
  | .unchanged .. | .processed .. | .sumsIgnored _ | .sumsNotSaved _ | .translating _ | .skipped _ | .warning _ => false

/-- What a build says about the jobs that it comes to, in order. -/
def Build.verdicts (b : Build) : List BuildNotice := b.notices.filter (·.isVerdict)

@[simp]
theorem Build.verdicts_note (b : Build) (notices : List BuildNotice) :
    (b.note notices).verdicts = b.verdicts ++ notices.filter (·.isVerdict) :=
  List.filter_append ..

@[simp]
theorem Build.verdicts_fail (b : Build) (job : Job) (e : JobError) :
    (b.fail job e).verdicts = b.verdicts ++ [.failed job.input e] :=
  List.filter_append ..

/-- The job was translated and its artifacts could not be written. -/
def JobError.ofWriting : JobError → Bool
  | .makingDirectory _ | .writing .. => true
  | .reading .. | .translation _ | .lowering _ => false

namespace Job

/-- The source of the job is translated to the artifacts. -/
def Rendered (s : BuildSettings) (t : FileTree) (job : Job) (artifacts : List Text) : Prop :=
  ∃ src warnings, t.read job.input = .ok src ∧ s.translate job.input src = .ok (artifacts, warnings)

/-- The source of the job cannot be read or translated. -/
def Refused (s : BuildSettings) (t : FileTree) (job : Job) (e : JobError) : Prop :=
  (∃ fault, t.read job.input = .error fault ∧ e = .reading job.input fault) ∨
    ∃ src, t.read job.input = .ok src ∧ s.translate job.input src = .error e

/-- The verdict on a job is right, given its traces before and after the build of the tree, the device at that time, and
whether the sum file was left unsaved. -/
def Fits (s : BuildSettings) (t : FileTree) (d : Device) (unsaved : Prop) (job : Job) (before after : Traces) :
    BuildNotice → Prop
  | .unchanged input paths => input = job.input ∧ paths = s.paths job.output ∧ before.Kept unsaved after
  | .failed input e => input = job.input ∧
      if e.ofWriting then
        (∃ artifacts, job.Rendered s t artifacts ∧
          List.Forall₂ (fun file entry => entry.2 = none ∨ entry.2 = entry.1 ∨ d.Leaves e file.1 file.2 entry.2)
            ((s.paths job.output).zip artifacts) (before.artifacts.zip after.artifacts)) ∧
          (s.useCache → after.sum = none ∨ unsaved ∧ after.sum = before.sum)
      else job.Refused s t e ∧ before.Kept unsaved after
  | .processed input paths => input = job.input ∧ paths = s.paths job.output ∧
      ∃ artifacts, job.Rendered s t artifacts ∧ after.artifacts = artifacts.map fun content => some (.file content)
  | .sumsIgnored _ | .sumsNotSaved _ | .translating _ | .skipped _ | .warning _ => False

end Job

/-! ### Places of artifacts -/

section Places

variable {s : BuildSettings} {t t' : FileTree} {dir name : Text} {job other : Job} {k : Artifact}

theorem FileTree.folder_congr (hcwd : t'.cwd = t.cwd) (dir : Text) : t'.folder dir = t.folder dir := by
  rw [folder, folder, origin, origin, hcwd]

theorem FileTree.folder_join (hname : Path.Plain name) : t.folder (Path.join [dir, name]) = t.folder dir ++ [name] := by
  rw [folder, origin_join hname, Path.names_join hname, reach_append_plain _ _ hname]
  rfl

theorem FileTree.WellFormed.found?_join (ht : t.WellFormed) (hname : Path.Plain name) :
    t.found? (Path.join [dir, name]) = t.entryAt (t.folder dir ++ [name]) := by
  have hfind : ∀ e, t.found? (Path.join [dir, name]) = some e ↔ t.entryAt (t.folder dir ++ [name]) = some e := by
    intro e
    rw [← ht.find_join_eq_ok_iff hname, found?]
    cases t.find (Path.join [dir, name]) <;> simp [Except.toOption]
  exact Option.ext hfind

theorem FileTree.WellFormed.sum?_eq (ht : t.WellFormed) (dir name : Text) :
    t.sum? dir name = t.recorded (t.folder dir) name := by
  rw [sum?]
  rcases Sums.load_cases ht dir with ⟨σ, hload, -, hsum⟩ | ⟨⟨e, hload⟩, hnone⟩
  · rw [hload]
    exact hsum name
  · rw [hload, hnone]
    rfl

/-- The directory of a job's artifacts. -/
def Job.home (s : BuildSettings) (t : FileTree) (job : Job) : Location := t.folder (Path.front s.outDir job.output)

/-- The name of a job's tables in their directory. -/
def Job.table (job : Job) : Text := Path.lastName job.output

/-- Where an artifact of a job goes. -/
def Job.place (s : BuildSettings) (t : FileTree) (job : Job) (k : Artifact) : Location :=
  Artifact.location (job.home s t) job.table k

/-- The paths of a job lead to its places. -/
theorem Job.map_folder_paths (s : BuildSettings) (t : FileTree) (job : Job) :
    (s.paths job.output).map t.folder = s.kinds.map (job.place s t) := by
  rw [s.paths_front, BuildSettings.paths_eq, BuildSettings.kinds_within, List.map_map]
  exact List.map_congr_left fun k _ => FileTree.folder_join (BuildSettings.plain_lastName job.output k)

theorem Job.map_found?_paths (ht : t'.WellFormed) (hcwd : t'.cwd = t.cwd) (s : BuildSettings) (job : Job) :
    (s.paths job.output).map t'.found? = s.kinds.map fun k => t'.entryAt (job.place s t k) := by
  rw [s.paths_front, BuildSettings.paths_eq, BuildSettings.kinds_within, List.map_map]
  refine List.map_congr_left fun k _ => ?_
  rw [Function.comp_apply, ht.found?_join (BuildSettings.plain_lastName job.output k), FileTree.folder_congr hcwd]
  rfl

/-- No place of a job is at or above one of the other job, and they have different names. -/
def Job.Clear (s : BuildSettings) (t : FileTree) (job other : Job) : Prop :=
  job.output ≠ other.output ∧ ∀ k ∈ s.kinds, ∀ k' ∈ s.kinds, ¬job.place s t k <+: other.place s t k'

/-- What changes at the places of one job only leaves those of the others. -/
theorem FileTree.Changes.entryAt_clear {u u' : FileTree}
    (h : Changes (Own (other.home s t) other.table) (other.home s t) u u') (hclear : job.Clear s t other)
    (hk : k ∈ s.kinds) : u'.entryAt (job.place s t k) = u.entryAt (job.place s t k) := by
  refine h.entryAt_eq ?_ fun habove => ?_
  · rintro ⟨k', hplace⟩
    obtain ⟨-, -, rfl⟩ := Artifact.location_injective hplace
    refine hclear.2 k hk k hk ?_
    rw [hplace]
    exact List.prefix_rfl
  · have hsymbols : Artifact.symbols ∈ s.kinds := BuildSettings.mem_kinds_iff.2 (by simp)
    exact hclear.2 k hk .symbols hsymbols (habove.trans (List.prefix_append _ _))

/-- Where only artifacts change, no fingerprint does. -/
theorem FileTree.Changes.recorded_of_own {u u' : FileTree} {D : Location} (h : Changes (Own D name) D u u')
    (D' : Location) (other : Text) : u'.recorded D' other = u.recorded D' other := by
  have hother : ¬Own D name (D' ++ [SumFile.name]) := by
    rintro ⟨k, hk⟩
    exact Artifact.location_ne_sumFile D D' name k hk.symm
  rcases h.outside _ hother with heq | ⟨hnone, hdirectory, -⟩
  · exact recorded_congr heq other
  · rw [recorded, recorded, hnone, hdirectory]

end Places

/-! ### One job -/

section Step

variable {s : BuildSettings} {t : FileTree} {d : Device} {b b' : Build} {job other : Job} {sums : Option Sums}

/-- A build under way from the tree `t`, as far as its jobs are concerned. -/
structure Ongoing (s : BuildSettings) (t : FileTree) (b : Build) : Prop where
  wellFormed : b.files.WellFormed
  cwd : b.files.cwd = t.cwd
  sums : SumsFor s t b.sums
  /-- The sum file is not touched before the end. -/
  ledger : ∀ name, b.files.recorded (t.folder s.outDir) name = t.recorded (t.folder s.outDir) name
  counted : b.failed = b.verdicts.countP (·.isFailure)

theorem Ongoing.artifacts_traces (h : Ongoing s t b) (job : Job) :
    (b.traces s t job).artifacts = s.kinds.map fun k => b.files.entryAt (job.place s t k) :=
  Job.map_found?_paths h.wellFormed h.cwd s job

/-- The outcome of one job. -/
structure Finished (s : BuildSettings) (t : FileTree) (d : Device) (job : Job) (b b' : Build) (v : BuildNotice) :
    Prop where
  ongoing : Ongoing s t b'
  verdicts : b'.verdicts = b.verdicts ++ [v]
  failed : b.failed < b'.failed ↔ v.isFailure
  fits : job.Fits s t d False (b.traces s t job) (b'.traces s t job) v
  changes : Changes (Own (job.home s t) job.table) (job.home s t) b.files b'.files
  others : ∀ name, name ≠ job.output → b'.recorded (t.folder s.outDir) name = b.recorded (t.folder s.outDir) name

/-- A job leaves the traces of those that it is clear of. -/
theorem Finished.traces_eq {v : BuildNotice} (h : Finished s t d other b b' v) (hb : Ongoing s t b)
    (hclear : job.Clear s t other) : b'.traces s t job = b.traces s t job := by
  refine Traces.ext ?_ (h.others job.output hclear.1)
  rw [h.ongoing.artifacts_traces, hb.artifacts_traces]
  exact List.map_congr_left fun k hk => h.changes.entryAt_clear hclear hk

/-- A build that has changed nothing but the artifacts and the fingerprint of a job is through with it. -/
theorem Ongoing.finished (h : Ongoing s t b) {v : BuildNotice} {f : Sums → Sums}
    (hverdicts : b'.verdicts = b.verdicts ++ [v])
    (hfailed : b'.failed = b.failed + if v.isFailure then 1 else 0)
    (hchanges : Changes (Own (job.home s t) job.table) (job.home s t) b.files b'.files)
    (hsums : b'.sums = b.sums.map f) (hpath : ∀ σ, (f σ).path = σ.path)
    (hothers : ∀ σ name, name ≠ job.output → (f σ).sum? name = σ.sum? name)
    (hfits : Ongoing s t b' → job.Fits s t d False (b.traces s t job) (b'.traces s t job) v) :
    Finished s t d job b b' v := by
  have hongoing : Ongoing s t b' := by
    refine ⟨hchanges.wellFormed, hchanges.cwd.trans h.cwd, ?_, fun name => ?_, ?_⟩
    · rw [hsums]
      exact h.sums.map hpath
    · rw [hchanges.recorded_of_own, h.ledger]
    · rw [hfailed, hverdicts, List.countP_append, List.countP_singleton, h.counted]
  refine ⟨hongoing, hverdicts, ?_, hfits hongoing, hchanges, fun name hname => ?_⟩
  · rw [hfailed]
    split <;> simp [*]
  · rw [Build.recorded, Build.recorded, hsums]
    cases b.sums with
    | none => exact hchanges.recorded_of_own _ name
    | some σ => exact hothers σ name hname

/-- A verdict without consequences. -/
theorem Ongoing.finished_same (h : Ongoing s t b) {v : BuildNotice} (hfiles : b'.files = b.files)
    (hsums : b'.sums = b.sums) (hverdicts : b'.verdicts = b.verdicts ++ [v])
    (hfailed : b'.failed = b.failed + if v.isFailure then 1 else 0)
    (hfits : ∀ traces, job.Fits s t d False traces traces v) : Finished s t d job b b' v := by
  refine h.finished (f := id) hverdicts hfailed ?_ (by rw [hsums, Option.map_id, id_eq]) (fun _ => rfl)
    (fun _ _ _ => rfl) fun _ => ?_
  · rw [hfiles]
    exact .refl h.wellFormed
  · have htraces : b'.traces s t job = b.traces s t job := by
      rw [Build.traces, Build.traces, Build.recorded, Build.recorded, hfiles, hsums]
    rw [htraces]
    exact hfits _

theorem Job.Rendered.length_kinds {artifacts : List Text} (h : job.Rendered s t artifacts) :
    s.kinds.length = artifacts.length := by
  obtain ⟨src, warnings, -, htranslate⟩ := h
  exact RatLang.length_kinds (BuildSettings.translate_eq_ok_iff.1 ⟨warnings, htranslate⟩)

/-- Writing a job's artifacts. -/
theorem Ongoing.writes (h : Ongoing s t b) (job : Job) {artifacts : List Text}
    (hlength : s.kinds.length = artifacts.length) (d : Device) :
    Writes d (Path.front s.outDir job.output) (job.home s t) job.table [] (s.kinds.zip artifacts) b.files
      (b.files.writeArtifacts (s.paths job.output) artifacts d) := by
  have hwrites := h.wellFormed.writeArtifacts (Path.slash_notMem_lastName job.output) (s.within job.output) hlength d
  rw [← BuildSettings.paths_front, FileTree.folder_congr h.cwd] at hwrites
  exact hwrites

theorem map_eq_map_of_zip {α β γ : Type} {f : α → γ} {g : β → γ} {as : List α} {bs : List β}
    (hlength : as.length = bs.length) (h : ∀ x ∈ as.zip bs, f x.1 = g x.2) : as.map f = bs.map g := by
  rw [← List.map_fst_zip (Nat.le_of_eq hlength), List.map_map]
  nth_rewrite 2 [← List.map_snd_zip (Nat.le_of_eq hlength.symm)]
  rw [List.map_map]
  exact List.map_congr_left h

theorem FileTree.ofWriting_writeEach {files : List (Text × Text)} :
    ∀ {u : FileTree} {written : List Text} {e : JobError}, (u.writeEach written files d).2 = some e →
      e.ofWriting = true := by
  induction files with
  | nil => exact fun h => nomatch h
  | cons first rest ih =>
    intro u written e h
    rw [writeEach] at h
    split at h
    · exact ih h
    · cases h
      rfl

theorem FileTree.ofWriting_writeArtifacts {u : FileTree} {paths artifacts : List Text} {e : JobError}
    (h : (u.writeArtifacts paths artifacts d).2 = some e) : e.ofWriting = true := by
  cases paths with
  | nil => cases h
  | cons first rest =>
    rw [writeArtifacts] at h
    split at h
    · cases h
      rfl
    · exact ofWriting_writeEach h

/-- The artifacts with what was found of them before and after. -/
theorem Ongoing.zip_traces (h : Ongoing s t b) (h' : Ongoing s t b') {artifacts : List Text}
    (hlength : s.kinds.length = artifacts.length) (job : Job) :
    (b.traces s t job).artifacts.zip (b'.traces s t job).artifacts = (s.kinds.zip artifacts).map fun f =>
      (b.files.entryAt (job.place s t f.1), b'.files.entryAt (job.place s t f.1)) := by
  rw [h.artifacts_traces, h'.artifacts_traces, List.zip_map']
  nth_rewrite 1 [← List.map_fst_zip (Nat.le_of_eq hlength)]
  rw [List.map_map]
  rfl

/-- The artifacts of a job could not be written. -/
theorem Ongoing.finished_unwritten (h : Ongoing s t b) {artifacts : List Text} (hrendered : job.Rendered s t artifacts)
    {files : FileTree} {e : JobError}
    (hresult : b.files.writeArtifacts (s.paths job.output) artifacts d = (files, some e)) :
    Finished s t d job b (Build.fail { b with files, sums := b.sums.map fun sums => sums.forget job.output } job e)
      (.failed job.input e) := by
  have hwrites := h.writes job hrendered.length_kinds d
  have hwriting : e.ofWriting = true := FileTree.ofWriting_writeArtifacts (congrArg Prod.snd hresult)
  rw [hresult] at hwrites
  refine h.finished (Build.verdicts_fail ..) rfl hwrites.changes rfl
    (fun _ => rfl) (fun σ name hname => (σ.sum?_forget ..).trans (if_neg hname)) fun hongoing => ?_
  refine ⟨rfl, ?_⟩
  rw [if_pos hwriting]
  refine ⟨⟨artifacts, hrendered, ?_⟩, fun huse => .inl ?_⟩
  · rw [h.zip_traces hongoing hrendered.length_kinds, s.paths_front, FileTree.zip_paths, BuildSettings.kinds_within,
      List.forall₂_map_left_iff, List.forall₂_map_right_iff, List.forall₂_same]
    exact fun f hf => hwrites.failed rfl f hf
  · cases hb : b.sums with
    | none =>
      have hnone := h.sums.unrecorded hb huse job.output
      rw [← hongoing.ledger] at hnone
      simpa [Build.traces, Build.recorded, Build.fail, Build.note, hb] using hnone
    | some σ =>
      have hforgotten := (σ.sum?_forget job.output job.output).trans (if_pos rfl)
      simpa [Build.traces, Build.recorded, Build.fail, Build.note, hb] using hforgotten

/-- The artifacts of a job have been written. -/
theorem Ongoing.finished_written (h : Ongoing s t b) {artifacts : List Text} (hrendered : job.Rendered s t artifacts)
    {files : FileTree} (hresult : b.files.writeArtifacts (s.paths job.output) artifacts d = (files, none)) (sum : Text)
    (warnings : List Warning) :
    Finished s t d job b (Build.note { b with files, sums := b.sums.map fun sums => sums.record job.output sum }
      (warnings.map .warning ++ [.processed job.input (s.paths job.output)]))
      (.processed job.input (s.paths job.output)) := by
  have hwrites := h.writes job hrendered.length_kinds d
  rw [hresult] at hwrites
  refine h.finished ?_ rfl hwrites.changes rfl (fun _ => rfl)
    (fun σ name hname => (σ.sum?_record ..).trans (if_neg hname)) fun hongoing => ?_
  · have hwarnings : (warnings.map BuildNotice.warning).filter (·.isVerdict) = [] := by simp [BuildNotice.isVerdict]
    rw [Build.verdicts_note, List.filter_append, hwarnings]
    rfl
  · refine ⟨rfl, rfl, artifacts, hrendered, ?_⟩
    rw [hongoing.artifacts_traces]
    exact map_eq_map_of_zip hrendered.length_kinds (hwrites.written rfl)

theorem Program.ofWriting_artifacts {p : Program} {llvm : Bool} {e : JobError} (h : p.artifacts llvm = .error e) :
    e.ofWriting = false := by
  rw [artifacts] at h
  split at h
  · split at h
    · cases h
      rfl
    · cases h
  · cases h

theorem BuildSettings.ofWriting_translate {file src : Text} {e : JobError} (h : s.translate file src = .error e) :
    e.ofWriting = false := by
  rw [translate] at h
  split at h
  · cases h
    rfl
  · split at h
    · cases h
      rfl
    · split at h
      · next hartifacts =>
        cases h
        exact Program.ofWriting_artifacts hartifacts
      · cases h

/-- What a job comes to before anything is written. -/
theorem BuildSettings.prepare_result (s : BuildSettings) (t : FileTree) (sums : Option Sums) (job : Job) :
    (∃ e, s.prepare t sums job = .failed e ∧ e.ofWriting = false ∧ job.Refused s t e) ∨
      s.prepare t sums job = .unchanged ∨
      ∃ sum artifacts warnings, s.prepare t sums job = .translated sum artifacts warnings ∧
        job.Rendered s t artifacts := by
  rw [prepare]
  cases hread : t.read job.input with
  | error fault => exact .inl ⟨_, rfl, rfl, .inl ⟨fault, hread, rfl⟩⟩
  | ok src =>
    simp only
    split
    · exact .inr (.inl rfl)
    · cases htranslate : s.translate job.input src with
      | error e => exact .inl ⟨e, rfl, ofWriting_translate htranslate, .inr ⟨src, hread, htranslate⟩⟩
      | ok result => exact .inr (.inr ⟨_, result.1, result.2, rfl, src, result.2, hread, htranslate⟩)

/-- **One job**: the build says one thing about it, which is right. -/
theorem Ongoing.finish (h : Ongoing s t b) (sums : Option Sums) (job : Job) (d : Device) :
    ∃ v, Finished s t d job b (b.finish s job (s.prepare t sums job) d) v := by
  rcases s.prepare_result t sums job with
    ⟨e, hfailed, hwriting, hrefused⟩ | hunchanged | ⟨sum, artifacts, warnings, htranslated, hrendered⟩
  · rw [hfailed]
    refine ⟨.failed job.input e, h.finished_same rfl rfl (b.verdicts_fail ..) rfl fun traces => ⟨rfl, ?_⟩⟩
    rw [hwriting, if_neg Bool.false_ne_true]
    exact ⟨hrefused, rfl, .inl rfl⟩
  · rw [hunchanged]
    exact ⟨.unchanged job.input (s.paths job.output),
      h.finished_same rfl rfl (b.verdicts_note _) rfl fun traces => ⟨rfl, rfl, rfl, .inl rfl⟩⟩
  · rw [htranslated, Build.finish]
    cases hresult : b.files.writeArtifacts (s.paths job.output) artifacts d with
    | mk files failure =>
      cases failure with
      | some e => exact ⟨_, h.finished_unwritten hrendered hresult⟩
      | none => exact ⟨_, h.finished_written hrendered hresult sum warnings⟩

end Step

end RatLang
