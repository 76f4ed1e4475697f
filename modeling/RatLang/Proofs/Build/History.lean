import RatLang.Command.Build
import RatLang.Proofs.Build.Uncached

/-!
# Histories of builds

Builds and edits follow each other, on a device that makes, writes and removes what a build asks for. Where every build
of a history is careful with its jobs, what is recorded stays backed from one event to the next, and every build that
exits without error leaves what it would have left without the cache (`build_cache_transparent`).

Without that care it need not (`build_cache_keeps_stale_artifacts`). A build without the cache renews the tables and not
the record, and when the source is changed back, the next build takes the tables for those of the source. A build
without IR renews the record and not the IR, and the next build with IR keeps the old one.
-/
namespace RatLang

/-! ### The build command -/

/-- What a build command is going to build, unless it fails at once. -/
def buildPlan? (t : FileTree) (a : Arguments) : Option (BuildSettings × List Job) :=
  match findProject t ((a.text? "config").getD []) with
  | .error _ => none
  | .ok project =>
    if (BuildSettings.of a project).options.base < 0 then none
    else match Job.all a.rest project with
      | .error _ => none
      | .ok jobs => some (BuildSettings.of a project, jobs)

theorem buildPlan?_eq_some_iff {t : FileTree} {a : Arguments} {s : BuildSettings} {jobs : List Job} :
    buildPlan? t a = some (s, jobs) ↔ ∃ project, findProject t ((a.text? "config").getD []) = .ok project ∧
      s = BuildSettings.of a project ∧ ¬s.options.base < 0 ∧ Job.all a.rest project = .ok jobs := by
  rw [buildPlan?]
  constructor
  · intro h
    split at h
    · cases h
    · rename_i project hproject
      split at h
      · cases h
      · rename_i hbase
        split at h
        · cases h
        · rename_i hjobs
          obtain ⟨rfl, rfl⟩ := Prod.mk.inj (Option.some.inj h)
          exact ⟨project, hproject, rfl, hbase, hjobs⟩
  · rintro ⟨project, hproject, rfl, hbase, hjobs⟩
    simp only [hproject, if_neg hbase, hjobs]

theorem buildCommand_of_plan (setting : Setting) {t : FileTree} {a : Arguments} {s : BuildSettings} {jobs : List Job}
    (h : buildPlan? t a = some (s, jobs)) (c : Conditions) :
    (buildCommand { setting with files := t } a c).files = (Build.run s t jobs c).files ∧
      ((buildCommand { setting with files := t } a c).failure = none ↔ (Build.run s t jobs c).failed = 0) := by
  obtain ⟨project, hproject, rfl, hbase, hjobs⟩ := buildPlan?_eq_some_iff.1 h
  rw [buildCommand]
  simp only [hproject, if_neg hbase, hjobs]
  split
  · rename_i hzero
    exact ⟨rfl, by simpa using hzero⟩
  · rename_i hne
    exact ⟨rfl, by simpa [Outcome.failing] using hne⟩

theorem buildCommand_of_no_plan (setting : Setting) {t : FileTree} {a : Arguments} (h : buildPlan? t a = none) :
    (buildCommand { setting with files := t } a).files = t ∧
      (buildCommand { setting with files := t } a).failure ≠ none := by
  rw [buildPlan?] at h
  rw [buildCommand]
  cases hproject : findProject t ((a.text? "config").getD []) with
  | error e => exact ⟨rfl, by simp [Setting.fail]⟩
  | ok project =>
    simp only [hproject] at h ⊢
    split at h
    · rename_i hbase
      rw [if_pos hbase]
      exact ⟨rfl, by simp [Setting.fail]⟩
    · rename_i hbase
      rw [if_neg hbase]
      cases hjobs : Job.all a.rest project with
      | error e => exact ⟨rfl, by simp [Setting.fail]⟩
      | ok jobs => simp [hjobs] at h

theorem Job.nodup_of_conflict?_eq_none {jobs : List Job} : ∀ {seen : List Job}, Job.conflict? seen jobs = none →
    (jobs.map (·.output)).Nodup ∧ ∀ job ∈ jobs, ∀ other ∈ seen, other.output ≠ job.output := by
  induction jobs with
  | nil => exact fun _ => ⟨by simp, by simp⟩
  | cons job rest ih =>
    intro seen h
    rw [conflict?] at h
    split at h
    · cases h
    · rename_i hfind
      obtain ⟨hnodup, hapart⟩ := ih h
      rw [List.map_cons, List.nodup_cons, List.forall_mem_cons]
      refine ⟨⟨?_, hnodup⟩, ?_, fun job' hjob' other hother => hapart job' hjob' other (List.mem_cons_of_mem _ hother)⟩
      · intro hmem
        obtain ⟨job', hjob', heq⟩ := List.mem_map.1 hmem
        exact hapart job' hjob' job (List.mem_cons_self ..) heq.symm
      · intro other hother
        simpa using List.find?_eq_none.1 hfind other hother

theorem Job.nodup_of_all {inputs : List Text} {project : Option Project} {jobs : List Job}
    (h : Job.all inputs project = .ok jobs) : jobs ≠ [] ∧ (jobs.map (·.output)).Nodup := by
  unfold Job.all at h
  extract_lets candidates at h
  split at h
  · cases h
  · rename_i hne
    split at h
    · cases h
    · rename_i hconflict
      obtain rfl := Except.ok.inj h
      exact ⟨by simpa using hne, (nodup_of_conflict?_eq_none hconflict).1⟩

/-- A plan has jobs, and no two of them share a name. -/
theorem nodup_of_buildPlan? {t : FileTree} {a : Arguments} {s : BuildSettings} {jobs : List Job}
    (h : buildPlan? t a = some (s, jobs)) : jobs ≠ [] ∧ (jobs.map (·.output)).Nodup := by
  obtain ⟨project, -, -, -, hjobs⟩ := buildPlan?_eq_some_iff.1 h
  exact Job.nodup_of_all hjobs

/-- The same command with the cache turned off. -/
def Arguments.withoutCache (a : Arguments) : Arguments :=
  { a with flags := (bytes "no-cache", bytes "true") :: a.flags }

theorem Arguments.text?_withoutCache (a : Arguments) {name : String} (hname : bytes name ≠ bytes "no-cache") :
    a.withoutCache.text? name = a.text? name := by
  rw [text?, withoutCache, List.lookup_cons, beq_false_of_ne hname, text?]

theorem BuildSettings.of_withoutCache (a : Arguments) (project : Option Project) :
    BuildSettings.of a.withoutCache project = { BuildSettings.of a project with useCache := false } := by
  have hoff : a.withoutCache.isOn "no-cache" = true := by
    rw [Arguments.isOn, Arguments.switch?, Arguments.text?, Arguments.withoutCache, List.lookup_cons,
      beq_self_eq_true]
    show ((some (bytes "true")).bind readBool?).getD false = true
    decide
  simp only [BuildSettings.of, Arguments.number?, Arguments.switch?, hoff, Bool.not_true]
  rw [a.text?_withoutCache (by decide : bytes "base" ≠ _), a.text?_withoutCache (by decide : bytes "strict" ≠ _),
    a.text?_withoutCache (by decide : bytes "arithmetic" ≠ _), a.text?_withoutCache (by decide : bytes "out" ≠ _),
    a.text?_withoutCache (by decide : bytes "llvm" ≠ _), Arguments.isOn, Arguments.switch?,
    a.text?_withoutCache (by decide : bytes "fail-fast" ≠ _), Arguments.isOn, Arguments.switch?]

theorem buildPlan?_withoutCache {t : FileTree} {a : Arguments} {s : BuildSettings} {jobs : List Job}
    (h : buildPlan? t a = some (s, jobs)) :
    buildPlan? t a.withoutCache = some ({ s with useCache := false }, jobs) := by
  obtain ⟨project, hproject, rfl, hbase, hjobs⟩ := buildPlan?_eq_some_iff.1 h
  refine buildPlan?_eq_some_iff.2 ⟨project, ?_, (BuildSettings.of_withoutCache a project).symm, hbase, hjobs⟩
  rw [a.text?_withoutCache (by decide : bytes "config" ≠ _)]
  exact hproject

/-! ### Events -/

/-- What happens to the files: a build, or something else that leaves the given tree. -/
inductive Event where
  | build (setting : Setting) (arguments : Arguments)
  | edit (files : FileTree)

/-- The files after an event. -/
def Event.after (t : FileTree) : Event → FileTree
  | build setting a => (buildCommand { setting with files := t } a).files
  | edit files => files

/-- The files after several events. -/
def FileTree.afterAll (t : FileTree) (events : List Event) : FileTree := events.foldl Event.after t

/-- The events that are permitted in a workspace, given what is asked of the jobs of a build. Edits may take away what
builds write, but not change it. -/
def Workspace.Permits (W : Workspace) (P : BuildSettings → FileTree → Job → Prop) (t : FileTree) : Event → Prop
  | .build _ a => ∀ s jobs, buildPlan? t a = some (s, jobs) → ∀ job ∈ jobs, P s t job
  | .edit files => files.WellFormed ∧ ∀ l, W.Keeps l → files.entryAt l = none ∨ files.entryAt l = t.entryAt l

/-- A history of permitted events. -/
def Workspace.PermitsAll (W : Workspace) (P : BuildSettings → FileTree → Job → Prop) (t : FileTree) :
    List Event → Prop
  | [] => True
  | e :: rest => W.Permits P t e ∧ W.PermitsAll P (e.after t) rest

variable {W : Workspace} {t : FileTree}

theorem Workspace.permitsAll_append {P : BuildSettings → FileTree → Job → Prop} {events events' : List Event} :
    W.PermitsAll P t (events ++ events') ↔ W.PermitsAll P t events ∧ W.PermitsAll P (t.afterAll events) events' := by
  induction events generalizing t with
  | nil => simp [PermitsAll, FileTree.afterAll]
  | cons e rest ih => simp only [List.cons_append, PermitsAll, ih, and_assoc, FileTree.afterAll, List.foldl_cons]

/-- **One event** keeps the tree well formed and its records backed. -/
theorem Consistent.after (hconsistent : Consistent W t) (hW : W.CollisionFree) (ht : t.WellFormed) {e : Event}
    (he : W.Permits W.Admits t e) : (e.after t).WellFormed ∧ Consistent W (e.after t) := by
  cases e with
  | edit files =>
    refine ⟨he.1, fun {D name} hjob {sum} hsum => ?_⟩
    obtain ⟨content, hcontent⟩ := FileTree.exists_of_recorded hsum
    have hsumFile : files.entryAt (D ++ [SumFile.name]) = t.entryAt (D ++ [SumFile.name]) := by
      refine (he.2 _ ⟨D, name, hjob, .inr rfl⟩).resolve_left fun hnone => ?_
      exact nomatch hnone.symm.trans hcontent
    have hrecorded : t.recorded D name = some sum := by
      rw [← FileTree.recorded_congr hsumFile]
      exact hsum
    exact (hconsistent hjob hrecorded).mono fun k => he.2 _ ⟨D, name, hjob, .inl ⟨k, rfl⟩⟩
  | build setting a =>
    rw [Event.after]
    cases hplan : buildPlan? t a with
    | none =>
      rw [(buildCommand_of_no_plan setting hplan).1]
      exact ⟨ht, hconsistent⟩
    | some plan =>
      obtain ⟨s, jobs⟩ := plan
      obtain ⟨hjobs, hnodup⟩ := nodup_of_buildPlan? hplan
      have hbuilds := hconsistent.run hW ht hjobs (he s jobs hplan) hnodup
      rw [(buildCommand_of_plan setting hplan {}).1]
      exact ⟨hbuilds.changes.wellFormed, hbuilds.consistent⟩

/-- **A whole history** does. -/
theorem Consistent.afterAll (hW : W.CollisionFree) (events : List Event) : ∀ {t : FileTree}, Consistent W t →
    t.WellFormed → W.PermitsAll W.Admits t events →
      (t.afterAll events).WellFormed ∧ Consistent W (t.afterAll events) := by
  induction events with
  | nil => exact fun hconsistent ht _ => ⟨ht, hconsistent⟩
  | cons e rest ih =>
    intro t hconsistent ht hpermits
    obtain ⟨ht', hconsistent'⟩ := hconsistent.after hW ht hpermits.1
    exact ih hconsistent' ht' hpermits.2

/-! ### Transparency -/

/-- The artifacts of a job hold what its source, as it is now, is translated to. -/
def Job.Current (s : BuildSettings) (t : FileTree) (job : Job) : Prop :=
  ∃ src artifacts warnings, t.read job.input = .ok src ∧ s.translate job.input src = .ok (artifacts, warnings) ∧
    (s.paths job.output).map t.read = artifacts.map .ok

instance (s : BuildSettings) (t : FileTree) (job : Job) : Decidable (job.Current s t) :=
  match hread : t.read job.input with
  | .error e => isFalse fun ⟨_, _, _, hread', _⟩ => nomatch hread.symm.trans hread'
  | .ok src =>
    match htranslate : s.translate job.input src with
    | .error e => isFalse fun ⟨_, _, _, hread', htranslate', _⟩ => by
        obtain rfl := Except.ok.inj (hread.symm.trans hread')
        exact nomatch htranslate.symm.trans htranslate'
    | .ok (artifacts, warnings) =>
      decidable_of_iff ((s.paths job.output).map t.read = artifacts.map .ok)
        ⟨fun h => ⟨src, artifacts, warnings, hread, htranslate, h⟩, fun ⟨_, _, _, hread', htranslate', h⟩ => by
          obtain rfl := Except.ok.inj (hread.symm.trans hread')
          obtain ⟨rfl, -⟩ := Prod.mk.inj (Except.ok.inj (htranslate.symm.trans htranslate'))
          exact h⟩

theorem Written.paths_read {s : BuildSettings} {name src : Text} {artifacts : List Text} (ht : t.WellFormed)
    (hname : Path.slash ∉ name) (h : Written s (t.folder s.outDir) name src t)
    (hartifacts : s.kinds.map (rendering s.options src) = artifacts.map some) :
    (s.paths name).map t.read = artifacts.map .ok := by
  have hread : ∀ k ∈ s.kinds, (rendering s.options src k).map .ok =
      some (t.read (Path.join [s.outDir, Artifact.fileName name k])) := by
    intro k hk
    obtain ⟨content, hcontent, hentry⟩ := h k hk
    rw [hcontent, (ht.read_join_eq_ok_iff (Artifact.fileName_plain hname k)).2 hentry, Option.map_some]
  have hmap : ((s.paths name).map t.read).map some = (artifacts.map .ok).map some := calc
    ((s.paths name).map t.read).map some = s.kinds.map fun k => (rendering s.options src k).map .ok := by
      rw [s.paths_eq, List.map_map, List.map_map]
      exact List.map_congr_left fun k hk => (hread k hk).symm
    _ = (s.kinds.map (rendering s.options src)).map (Option.map .ok) := by rw [List.map_map]; rfl
    _ = (artifacts.map .ok).map some := by rw [hartifacts, List.map_map, List.map_map]; rfl
  exact (List.map_inj_right fun _ _ => Option.some.inj).1 hmap

/-- **The build cache is transparent to careful builds.** Take any history of builds and edits that starts without sum
files, in which no edit writes to an artifact or a sum file and every build is careful. After every build that exits
without error, the artifacts of its jobs are those of the sources, and they are what the same build without the cache
would have left, which would have exited without error as well. -/
theorem build_cache_transparent (hW : W.CollisionFree) {t₀ : FileTree} (ht₀ : t₀.WellFormed)
    (hfresh : ∀ D name, W.jobs D name → t₀.entryAt (D ++ [SumFile.name]) = none) {before after : List Event}
    {setting : Setting} {a : Arguments}
    (hpermits : W.PermitsAll W.Admits t₀ (before ++ .build setting a :: after))
    (hsuccess : (buildCommand { setting with files := t₀.afterAll before } a).failure = none) :
    (buildCommand { setting with files := t₀.afterAll before } a.withoutCache).failure = none ∧
      ∃ s jobs, buildPlan? (t₀.afterAll before) a = some (s, jobs) ∧ ∀ job ∈ jobs,
        job.Current s (buildCommand { setting with files := t₀.afterAll before } a).files ∧
        (s.paths job.output).map (buildCommand { setting with files := t₀.afterAll before } a).files.read =
          (s.paths job.output).map
            (buildCommand { setting with files := t₀.afterAll before } a.withoutCache).files.read := by
  have hconsistent : Consistent W t₀ := by
    intro D name hjob sum hsum
    obtain ⟨content, hcontent⟩ := FileTree.exists_of_recorded hsum
    exact nomatch (hfresh D name hjob).symm.trans hcontent
  rw [Workspace.permitsAll_append] at hpermits
  obtain ⟨ht, hconsistent⟩ := hconsistent.afterAll hW before ht₀ hpermits.1
  generalize t₀.afterAll before = t at *
  cases hplan : buildPlan? t a with
  | none => exact absurd hsuccess (buildCommand_of_no_plan setting hplan).2
  | some plan =>
    obtain ⟨s, jobs⟩ := plan
    obtain ⟨hjobs, hnodup⟩ := nodup_of_buildPlan? hplan
    have hadmits : ∀ job ∈ jobs, W.Admits s t job := hpermits.2.1 s jobs hplan
    have hbuilds := hconsistent.run hW ht hjobs hadmits hnodup
    obtain ⟨hfiles, hfailure⟩ := buildCommand_of_plan setting hplan {}
    obtain ⟨hfiles', hfailure'⟩ := buildCommand_of_plan setting (buildPlan?_withoutCache hplan) {}
    have hzero := hfailure.1 hsuccess
    have huncached := hbuilds.uncached ht hjobs hadmits hnodup hzero
    refine ⟨hfailure'.2 huncached.failed, s, jobs, rfl, fun job hjob => ?_⟩
    rw [hfiles, hfiles']
    have hname := W.slash_notMem (hadmits job hjob).mem
    obtain ⟨src, hread, hwritten⟩ := hbuilds.written hzero job hjob
    obtain ⟨src', hread', hwritten'⟩ := huncached.written job hjob
    obtain rfl := Except.ok.inj (hread.symm.trans hread')
    obtain ⟨artifacts, hartifacts⟩ := exists_map_some fun k hk => (hwritten k hk).imp fun _ h => h.1
    obtain ⟨warnings, htranslate⟩ : ∃ warnings, s.translate job.input src = .ok (artifacts, warnings) :=
      BuildSettings.translate_eq_ok_iff.2 hartifacts
    rw [← hbuilds.changes.folder] at hwritten
    rw [← huncached.changes.folder] at hwritten'
    have hpaths := hwritten.paths_read hbuilds.changes.wellFormed hname hartifacts
    have hpaths' := hwritten'.paths_read huncached.changes.wellFormed hname hartifacts
    have hinput := hbuilds.changes.read_eq_ok hread (hadmits job hjob).apart
    exact ⟨⟨src, artifacts, warnings, hinput, htranslate, hpaths⟩, hpaths.trans hpaths'.symm⟩

/-! ### One source in two versions -/

namespace Versions

/-- The source. -/
def input : Text := bytes "a.rat"

/-- The two versions. -/
def isVersion (src : Text) : Prop := src = bytes "put(1);" ∨ src = bytes "put(2);"

instance (src : Text) : Decidable (isVersion src) := inferInstanceAs (Decidable (_ ∨ _))

/-- The job of the source, in the root directory. -/
def workspace : Workspace where
  jobs D name := D = [] ∧ name = bytes "a"
  sources opts src := opts = {} ∧ isVersion src
  slash_notMem := by
    rintro D name ⟨-, rfl⟩
    decide

theorem collisionFree : workspace.CollisionFree := by
  rintro opts src opts' src' ⟨rfl, rfl | rfl⟩ ⟨rfl, rfl | rfl⟩ h
  · rfl
  · exact absurd h (by decide +kernel)
  · exact absurd h (by decide +kernel)
  · rfl

theorem input_not_kept : ¬workspace.Keeps [input] := by
  rintro ⟨D, name, ⟨rfl, rfl⟩, ⟨k, hk⟩ | hsums⟩
  · revert hk
    cases k <;> decide
  · exact absurd hsums (by decide)

/-- The first version, and nothing else. -/
def start : FileTree := { entries := [([input], .file (bytes "put(1);"))] }

theorem start_wellFormed : start.WellFormed := FileTree.wellFormed_of_entries (by decide) (by decide)

theorem start_fresh (D : Location) (name : Text) (h : workspace.jobs D name) :
    start.entryAt (D ++ [SumFile.name]) = none ∧ ∀ k, start.entryAt (Artifact.location D name k) = none := by
  obtain ⟨rfl, rfl⟩ := h
  refine ⟨by decide, fun k => ?_⟩
  cases k <;> decide

/-! #### Builds -/

def job : Job := ⟨input, bytes "a"⟩

/-- Builds the source with some switches on. -/
def arguments (switches : List String) : Arguments :=
  { flags := switches.map fun name => (bytes name, bytes "true"), rest := [input] }

def build (switches : List String) : Event := .build { files := start } (arguments switches)

/-- The build has one job, which is the one of the workspace. -/
def Ready (t : FileTree) (switches : List String) (s : BuildSettings) : Prop :=
  buildPlan? t (arguments switches) = some (s, [job]) ∧ t.folder s.outDir = [] ∧ s.options = {} ∧
    t.locate input = .ok [input] ∧ (t.read input = .ok (bytes "put(1);") ∨ t.read input = .ok (bytes "put(2);"))

instance (t : FileTree) (switches : List String) (s : BuildSettings) : Decidable (Ready t switches s) :=
  inferInstanceAs (Decidable (_ ∧ _))

theorem Ready.hosts {t : FileTree} {switches : List String} {s : BuildSettings} (h : Ready t switches s) :
    workspace.Hosts s t job := by
  obtain ⟨-, hfolder, hoptions, hlocate, hread⟩ := h
  refine ⟨⟨hfolder, rfl⟩, fun hsrc => ⟨hoptions, ?_⟩, fun hl => ?_⟩
  · rcases hread with hread | hread
    · exact .inl (Except.ok.inj (hsrc.symm.trans hread))
    · exact .inr (Except.ok.inj (hsrc.symm.trans hread))
  · obtain rfl := Except.ok.inj (hl.symm.trans hlocate)
    exact input_not_kept

/-- With the cache, and without IR that is in the way, the build is careful. -/
theorem Ready.admits {t : FileTree} {switches : List String} {s : BuildSettings} (h : Ready t switches s)
    (hcache : s.useCache = true) (hir : t.entryAt (Artifact.location [] (bytes "a") .ir) = none) :
    workspace.Admits s t job := by
  refine ⟨h.hosts, ⟨fun hoff => ?_, fun _ _ {_} _ => .inr ?_, fun _ _ k _ => ?_⟩⟩
  · exact nomatch hoff.symm.trans hcache
  · rw [h.2.1]
    exact hir
  · rw [h.2.1, List.prefix_nil]
    exact List.append_ne_nil_of_right_ne_nil _ (List.cons_ne_nil _ _)

theorem Ready.permits {P : BuildSettings → FileTree → Job → Prop} {t : FileTree} {switches : List String}
    {s : BuildSettings} (h : Ready t switches s) (hP : P s t job) : workspace.Permits P t (build switches) := by
  intro s' jobs hplan job' hjob'
  obtain ⟨rfl, rfl⟩ := Prod.mk.inj (Option.some.inj (h.1.symm.trans hplan))
  rw [List.mem_singleton.1 hjob']
  exact hP

/-! #### Edits -/

/-- Saves a version. -/
def save (t : FileTree) (version : String) : Event := .edit (t.put [input] (.file (bytes version)))

/-- The source is a file of a tree that looks well formed. -/
def Editable (t : FileTree) : Prop :=
  (∀ x ∈ t.entries, t.IsDirectory x.1.dropLast) ∧ t.IsDirectory t.cwd ∧ ¬t.IsDirectory [input]

instance (t : FileTree) : Decidable (Editable t) := inferInstanceAs (Decidable (_ ∧ _))

theorem Editable.permits_save {P : BuildSettings → FileTree → Job → Prop} {t : FileTree} (h : Editable t)
    (version : String) : workspace.Permits P t (save t version) := by
  obtain ⟨hentries, hcwd, hinput⟩ := h
  have ht := FileTree.wellFormed_of_entries hentries hcwd
  refine ⟨ht.put (l := []) (FileTree.isDirectory_root t) hinput _, fun l hl => .inr ?_⟩
  have hother : l ≠ [input] := fun heq => input_not_kept (heq ▸ hl)
  exact (FileTree.entryAt_put t [] input (.file (bytes version)) l).trans (if_neg hother)

/-! #### Histories -/

/-- The source is built with some switches, changed, and built with others. -/
def changed (first second : List String) : List Event :=
  [build first, save (start.afterAll [build first]) "put(2);", build second]

theorem permitsAll_changed {P : BuildSettings → FileTree → Job → Prop} {first second : List String}
    (hfirst : workspace.Permits P start (build first)) (hbuilt : Editable (start.afterAll [build first]))
    (hsecond : workspace.Permits P (start.afterAll ((changed first second).take 2)) (build second)) :
    workspace.PermitsAll P start (changed first second) :=
  ⟨hfirst, hbuilt.permits_save _, hsecond, trivial⟩

/-- Then it is changed back. -/
def changedBack (first second : List String) : List Event :=
  changed first second ++ [save (start.afterAll (changed first second)) "put(1);"]

/-- Settings that take everything but the cache and IR from the defaults. -/
def settings (useCache llvm : Bool) : BuildSettings :=
  { options := {}, outDir := Path.here, llvm, useCache, failFast := false }

/-- After these events, a build that exits without error leaves artifacts that are not those of the source. -/
def Misled (before : List Event) (switches : List String) (s : BuildSettings) : Prop :=
  workspace.PermitsAll workspace.Hosts start (before ++ [build switches]) ∧
    (buildCommand { files := start.afterAll before } (arguments switches)).failure = none ∧
    ¬job.Current s (buildCommand { files := start.afterAll before } (arguments switches)).files

end Versions

open Versions in
/-- A source that is built, changed, built again and left alone. -/
theorem build_cache_transparent_of_two_versions :
    workspace.PermitsAll workspace.Admits start (changed [] [] ++ [build []]) ∧
      (buildCommand { files := start.afterAll (changed [] []) } (arguments [])).failure = none ∧
      job.Current (settings true false)
        (buildCommand { files := start.afterAll (changed [] []) } (arguments [])).files := by
  obtain ⟨hfirst, hfirstIr⟩ :
      Ready start [] (settings true false) ∧ start.entryAt (Artifact.location [] (bytes "a") .ir) = none := by
    decide +kernel
  -- one evaluation for all that is to be known of the later trees, which share their computation
  obtain ⟨hbuilt, hsecond, hsecondIr, hlast, hlastIr, hsuccess⟩ :
      Editable (start.afterAll [build []]) ∧
      Ready (start.afterAll ((changed [] []).take 2)) [] (settings true false) ∧
      (start.afterAll ((changed [] []).take 2)).entryAt (Artifact.location [] (bytes "a") .ir) = none ∧
      Ready (start.afterAll (changed [] [])) [] (settings true false) ∧
      (start.afterAll (changed [] [])).entryAt (Artifact.location [] (bytes "a") .ir) = none ∧
      (buildCommand { files := start.afterAll (changed [] []) } (arguments [])).failure = none := by
    decide +kernel
  have hpermits : workspace.PermitsAll workspace.Admits start (changed [] [] ++ [build []]) := by
    refine Workspace.permitsAll_append.2 ⟨permitsAll_changed ?_ hbuilt ?_, ?_, trivial⟩
    · exact hfirst.permits (hfirst.admits rfl hfirstIr)
    · exact hsecond.permits (hsecond.admits rfl hsecondIr)
    · exact hlast.permits (hlast.admits rfl hlastIr)
  obtain ⟨-, s, jobs, hplan, hcurrent⟩ := build_cache_transparent collisionFree start_wellFormed
    (fun D name h => (start_fresh D name h).1) hpermits hsuccess
  obtain ⟨rfl, rfl⟩ := Prod.mk.inj (Option.some.inj (hlast.1.symm.trans hplan))
  exact ⟨hpermits, hsuccess, (hcurrent job (List.mem_singleton_self _)).1⟩

open Versions in
/-- **Careless builds leave stale artifacts behind a hit.** A build without the cache renews the tables and not the
record, which is wrong once the source is changed back; a build without IR renews the record and not the IR. -/
theorem build_cache_keeps_stale_artifacts :
    workspace.CollisionFree ∧ start.WellFormed ∧
      (∀ D name, workspace.jobs D name →
        start.entryAt (D ++ [SumFile.name]) = none ∧ ∀ k, start.entryAt (Artifact.location D name k) = none) ∧
      Misled (changedBack [] ["no-cache"]) [] (settings true false) ∧
      Misled (changed ["llvm"] []) ["llvm"] (settings true true) := by
  refine ⟨collisionFree, start_wellFormed, start_fresh, ?_, ?_⟩
  · have hfirst : Ready start [] (settings true false) := by decide +kernel
    obtain ⟨hbuilt, hsecond, hrebuilt, hlast, hstale⟩ :
        Editable (start.afterAll [build []]) ∧
        Ready (start.afterAll ((changed [] ["no-cache"]).take 2)) ["no-cache"] (settings false false) ∧
        Editable (start.afterAll (changed [] ["no-cache"])) ∧
        Ready (start.afterAll (changedBack [] ["no-cache"])) [] (settings true false) ∧
        (buildCommand { files := start.afterAll (changedBack [] ["no-cache"]) } (arguments [])).failure = none ∧
        ¬job.Current (settings true false)
          (buildCommand { files := start.afterAll (changedBack [] ["no-cache"]) } (arguments [])).files := by
      decide +kernel
    have hchanged : workspace.PermitsAll workspace.Hosts start (changed [] ["no-cache"]) :=
      permitsAll_changed (hfirst.permits hfirst.hosts) hbuilt (hsecond.permits hsecond.hosts)
    have hback : workspace.PermitsAll workspace.Hosts start (changedBack [] ["no-cache"]) :=
      Workspace.permitsAll_append.2 ⟨hchanged, hrebuilt.permits_save _, trivial⟩
    exact ⟨Workspace.permitsAll_append.2 ⟨hback, hlast.permits hlast.hosts, trivial⟩, hstale⟩
  · have hfirst : Ready start ["llvm"] (settings true true) := by decide +kernel
    obtain ⟨hbuilt, hsecond, hlast, hstale⟩ :
        Editable (start.afterAll [build ["llvm"]]) ∧
        Ready (start.afterAll ((changed ["llvm"] []).take 2)) [] (settings true false) ∧
        Ready (start.afterAll (changed ["llvm"] [])) ["llvm"] (settings true true) ∧
        (buildCommand { files := start.afterAll (changed ["llvm"] []) } (arguments ["llvm"])).failure = none ∧
        ¬job.Current (settings true true)
          (buildCommand { files := start.afterAll (changed ["llvm"] []) } (arguments ["llvm"])).files := by
      decide +kernel
    have hchanged : workspace.PermitsAll workspace.Hosts start (changed ["llvm"] []) :=
      permitsAll_changed (hfirst.permits hfirst.hosts) hbuilt (hsecond.permits hsecond.hosts)
    exact ⟨Workspace.permitsAll_append.2 ⟨hchanged, hlast.permits hlast.hosts, trivial⟩, hstale⟩

end RatLang
