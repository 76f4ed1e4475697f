import RatLang.Proofs.Build.Artifact
import RatLang.Proofs.FileTree.MakeDirs

/-!
# Writing artifacts

The artifacts of a job are written next to each other in one directory, which is made first. Whether this succeeds or
not, nothing else in the tree changes. When it succeeds the artifacts hold what was to be written; when it fails each of
them is as it was or gone, apart from what the device breaks off or does not take back (`Device.Leaves`). `Writes` says
so, and `WellFormed.writeArtifacts` is the main statement.
-/
namespace RatLang

open RatLang.Path (Plain)

/-! ### Locations of artifacts -/

/-- Where an artifact of a job goes, given the directory and the name of the tables. -/
def Artifact.location (D : Location) (name : Text) (k : Artifact) : Location := D ++ [fileName name k]

theorem Artifact.location_injective {D D' : Location} {name name' : Text} {k k' : Artifact}
    (h : location D name k = location D' name' k') : D = D' ∧ name = name' ∧ k = k' := by
  obtain ⟨hD, hname⟩ := List.append_inj' h rfl
  exact ⟨hD, fileName_injective (List.cons.inj hname).1⟩

theorem Artifact.location_ne_sumFile (D D' : Location) (name : Text) (k : Artifact) :
    location D name k ≠ D' ++ [SumFile.name] := by
  intro h
  obtain ⟨-, hname⟩ := List.append_inj' h rfl
  exact fileName_ne_sumFile name k (List.cons.inj hname).1

theorem Location.not_append_prefix (D : Location) (name : Text) : ¬D ++ [name] <+: D := by
  intro h
  have hlength := h.length_le
  rw [List.length_append, List.length_singleton] at hlength
  omega

/-- What a device leaves of an artifact when writing fails: the beginning of it if it was broken off there, and all of
it if it is to be removed and is not. -/
def Device.Leaves (d : Device) (e : JobError) (path content : Text) (new : Option Entry) : Prop :=
  (∃ f reason count, e = .writing path f ∧ d.writing path = some (.brokenOff reason count) ∧
      new = some (.file (content.take count))) ∨
    d.removing path ≠ none ∧ new = some (.file content)

namespace FileTree

/-! ### Confined changes -/

/-- Entries change at some locations only, apart from new directories on the way to `D`. -/
structure Changes (P : Location → Prop) (D : Location) (t t' : FileTree) : Prop where
  wellFormed : t'.WellFormed
  cwd : t'.cwd = t.cwd
  directory : ∀ l, t.IsDirectory l → t'.IsDirectory l
  outside : ∀ l, ¬P l → t'.entryAt l = t.entryAt l ∨ t.entryAt l = none ∧ t'.IsDirectory l ∧ l <+: D

namespace Changes

variable {P Q : Location → Prop} {D : Location} {t t' t'' : FileTree}

theorem refl (h : t.WellFormed) : Changes P D t t := ⟨h, rfl, fun _ hl => hl, fun _ _ => .inl rfl⟩

theorem trans (h : Changes P D t t') (h' : Changes P D t' t'') : Changes P D t t'' := by
  refine ⟨h'.wellFormed, h'.cwd.trans h.cwd, fun l hl => h'.directory l (h.directory l hl), fun l hl => ?_⟩
  rcases h.outside l hl with heq | ⟨hnone, hdirectory, hway⟩
  · rw [← heq]
    exact h'.outside l hl
  · exact .inr ⟨hnone, h'.directory l hdirectory, hway⟩

theorem mono (h : Changes P D t t') (hPQ : ∀ l, P l → Q l) : Changes Q D t t' :=
  ⟨h.wellFormed, h.cwd, h.directory, fun l hl => h.outside l fun hP => hl (hPQ l hP)⟩

theorem of_makes {r : Except FileFailure FileTree} (h : Makes t r D) : Changes P D t (left r) :=
  ⟨h.wellFormed, h.grows.cwd, fun _ hl => h.grows.isDirectory hl, fun l _ => h.grows.entryAt l⟩

/-- A file that takes no directory's place. -/
theorem put (h : t.WellFormed) {name : Text} (hD : t.IsDirectory D) (hne : ¬t.IsDirectory (D ++ [name]))
    (hP : P (D ++ [name])) (content : Text) : Changes P D t (t.put (D ++ [name]) (.file content)) := by
  refine ⟨h.put hD hne _, rfl, fun l hl => ?_, fun l hl => ?_⟩
  · have hother : l ≠ D ++ [name] := fun heq => hne (heq ▸ hl)
    rwa [IsDirectory, entryAt_put, if_neg hother]
  · have hother : l ≠ D ++ [name] := fun heq => hl (heq ▸ hP)
    exact .inl (by rw [entryAt_put, if_neg hother])

theorem drop (h : t.WellFormed) {name : Text} (hne : ¬t.IsDirectory (D ++ [name])) (hP : P (D ++ [name])) :
    Changes P D t (t.drop (D ++ [name])) := by
  refine ⟨h.drop hne, rfl, fun l hl => ?_, fun l hl => ?_⟩
  · have hother : l ≠ D ++ [name] := fun heq => hne (heq ▸ hl)
    rwa [IsDirectory, entryAt_drop, if_neg hother]
  · have hother : l ≠ D ++ [name] := fun heq => hl (heq ▸ hP)
    exact .inl (by rw [entryAt_drop, if_neg hother])

theorem folder (h : Changes P D t t') (dir : Text) : t'.folder dir = t.folder dir := by
  rw [FileTree.folder, origin, h.cwd, FileTree.folder, origin]

/-- What is not on the way to `D` stays. -/
theorem entryAt_eq (h : Changes P D t t') {l : Location} (hP : ¬P l) (hD : ¬l <+: D) :
    t'.entryAt l = t.entryAt l := (h.outside l hP).resolve_right fun hnew => hD hnew.2.2

/-- What is there stays. -/
theorem entryAt_eq_of_some (h : Changes P D t t') {l : Location} (hP : ¬P l) {e : Entry} (he : t.entryAt l = some e) :
    t'.entryAt l = some e := by
  rcases h.outside l hP with heq | ⟨hnone, -⟩
  · rw [heq, he]
  · rw [he] at hnone
    cases hnone

/-- A file that is there was there. -/
theorem entryAt_file (h : Changes P D t t') {l : Location} (hP : ¬P l) {content : Text}
    (hfile : t'.entryAt l = some (.file content)) : t.entryAt l = some (.file content) := by
  rcases h.outside l hP with heq | ⟨-, hdirectory, -⟩
  · rw [← heq, hfile]
  · exact nomatch hdirectory.symm.trans hfile

/-- A file outside is read as before. -/
theorem read_eq_ok (h : Changes P D t t') {path content : Text} (hread : t.read path = .ok content)
    (hP : ∀ {l}, t.locate path = .ok l → ¬P l) : t'.read path = .ok content := by
  rw [read_eq_ok_iff, find_eq_ok_iff] at hread ⊢
  obtain ⟨l, hlocate, hentry⟩ := hread
  refine ⟨l, ?_, h.entryAt_eq_of_some (hP hlocate) hentry⟩
  rw [locate] at hlocate ⊢
  split at hlocate
  · cases hlocate
  · rename_i hne
    rw [if_neg hne, origin, h.cwd]
    exact walk_mono h.directory hlocate

end Changes

/-! ### The files of a job -/

section

variable {t t' : FileTree} {dir name : Text}

/-- Where the artifacts of a job go. -/
def Own (D : Location) (name : Text) (l : Location) : Prop := ∃ k, l = Artifact.location D name k

/-- The files of several jobs. -/
def OwnAny (D : Location) (names : List Text) (l : Location) : Prop := ∃ name ∈ names, Own D name l

theorem Changes.entryAt_pending {D : Location} {names : List Text} (h : Changes (OwnAny D names) D t t')
    (hname : name ∉ names) (k : Artifact) :
    t'.entryAt (Artifact.location D name k) = t.entryAt (Artifact.location D name k) := by
  refine h.entryAt_eq ?_ (Location.not_append_prefix D _)
  rintro ⟨other, hother, k', hk'⟩
  exact hname ((Artifact.location_injective hk').2.1 ▸ hother)

/-- Writing the artifacts of one job leaves those of the others. -/
theorem Changes.entryAt_other {D : Location} {other : Text} (h : Changes (Own D name) D t t') (hother : other ≠ name)
    (k : Artifact) : t'.entryAt (Artifact.location D other k) = t.entryAt (Artifact.location D other k) :=
  (h.mono fun l hl => ⟨name, List.mem_singleton_self name, hl⟩ : Changes (OwnAny D [name]) D t t').entryAt_pending
    (by simpa using hother) k

theorem Changes.cons {t'' : FileTree} {D : Location} {names : List Text} (h : Changes (OwnAny D names) D t t')
    (h' : Changes (Own D name) D t' t'') : Changes (OwnAny D (name :: names)) D t t'' := by
  refine (h.mono ?_).trans (h'.mono ?_)
  · rintro l ⟨other, hother, hown⟩
    exact ⟨other, List.mem_cons_of_mem _ hother, hown⟩
  · exact fun l hown => ⟨name, List.mem_cons_self .., hown⟩

/-- The path of an artifact. -/
def artifactPath (dir name : Text) (k : Artifact) : Text := Path.join [dir, Artifact.fileName name k]

/-- Removing an artifact takes it away, if the device does so, and nothing else. -/
theorem WellFormed.remove_artifact (h : t.WellFormed) (hname : Path.slash ∉ name) {k : Artifact} {content : Text}
    (he : t.entryAt (Artifact.location (t.folder dir) name k) = some (.file content)) (d : Device) :
    Changes (Own (t.folder dir) name) (t.folder dir) t ((t.remove (artifactPath dir name k) d).toOption.getD t) ∧
      ∀ l, ((t.remove (artifactPath dir name k) d).toOption.getD t).entryAt l =
        if l = Artifact.location (t.folder dir) name k ∧ d.removing (artifactPath dir name k) = none then none
        else t.entryAt l := by
  have hne : ¬t.IsDirectory (Artifact.location (t.folder dir) name k) := by simp [IsDirectory, he]
  rw [artifactPath, h.remove_join (Artifact.fileName_plain hname k) he]
  split
  · next hremoving =>
    refine ⟨.drop h hne ⟨k, rfl⟩, fun l => ?_⟩
    simp only [hremoving, and_true]
    exact entryAt_drop ..
  · next hremoving => exact ⟨.refl h, fun l => by simp [hremoving]⟩

theorem WellFormed.removeEach (dir : Text) (hname : Path.slash ∉ name) (d : Device) (ks : List Artifact) :
    ∀ {t : FileTree}, t.WellFormed → ks.Nodup →
      (∀ k ∈ ks, ∃ content, t.entryAt (Artifact.location (t.folder dir) name k) = some (.file content)) →
      Changes (Own (t.folder dir) name) (t.folder dir) t (t.removeEach (ks.map (artifactPath dir name)) d) ∧
        ∀ k, (t.removeEach (ks.map (artifactPath dir name)) d).entryAt (Artifact.location (t.folder dir) name k) =
          if k ∈ ks ∧ d.removing (artifactPath dir name k) = none then none
          else t.entryAt (Artifact.location (t.folder dir) name k) := by
  induction ks with
  | nil => exact fun h _ _ => ⟨.refl h, fun k => by simp [FileTree.removeEach]⟩
  | cons first rest ih =>
    intro t h hnodup hfiles
    rw [List.nodup_cons] at hnodup
    rw [List.forall_mem_cons] at hfiles
    obtain ⟨⟨content, hcontent⟩, hfiles⟩ := hfiles
    obtain ⟨hchanges, hentry⟩ := h.remove_artifact hname hcontent d
    have hother : ∀ k, k ≠ first →
        ((t.remove (artifactPath dir name first) d).toOption.getD t).entryAt (Artifact.location (t.folder dir) name k) =
          t.entryAt (Artifact.location (t.folder dir) name k) := by
      intro k hk
      rw [hentry, if_neg fun hlocation => hk (Artifact.location_injective hlocation.1).2.2]
    have hfolder := hchanges.folder dir
    obtain ⟨hchanges', hentry'⟩ := ih hchanges.wellFormed hnodup.2 fun k hk => by
      rw [hfolder, hother k fun heq => hnodup.1 (heq ▸ hk)]
      exact hfiles k hk
    rw [hfolder] at hchanges' hentry'
    refine ⟨hchanges.trans hchanges', fun k => (hentry' k).trans ?_⟩
    by_cases hk : k = first
    · subst hk
      simp [hnodup.1, hentry]
    · simp [hk, hother k hk]

theorem entryAt_put_artifact (t : FileTree) (D : Location) (name : Text) (k : Artifact) (e : Entry) (l : Location) :
    (t.put (Artifact.location D name k) e).entryAt l =
      if l = Artifact.location D name k then some e else t.entryAt l := entryAt_put ..

theorem entryAt_put_other (t : FileTree) (D : Location) (name : Text) {k k' : Artifact} (hk : k' ≠ k) (e : Entry) :
    (t.put (Artifact.location D name k) e).entryAt (Artifact.location D name k') =
      t.entryAt (Artifact.location D name k') := by
  rw [entryAt_put_artifact, if_neg fun heq => hk (Artifact.location_injective heq).2.2]

theorem WellFormed.put_artifact (ht : t.WellFormed) {D : Location} (hD : t.IsDirectory D) {k : Artifact}
    (hne : ¬t.IsDirectory (Artifact.location D name k)) (content : Text) :
    Changes (Own D name) D t (t.put (Artifact.location D name k) (.file content)) :=
  .put ht hD hne ⟨k, rfl⟩ content

theorem WellFormed.write_artifact_eq_ok_iff (h : t.WellFormed) (hname : Path.slash ∉ name) {k : Artifact}
    {content : Text} {d : Device} : t.write (artifactPath dir name k) content d = .ok t' ↔
      t.IsDirectory (t.folder dir) ∧ ¬t.IsDirectory (Artifact.location (t.folder dir) name k) ∧
      d.writing (artifactPath dir name k) = none ∧
      t' = t.put (Artifact.location (t.folder dir) name k) (.file content) :=
  h.write_join_eq_ok_iff (Artifact.fileName_plain hname k)

/-- An artifact that cannot be written is as it was or broken off by the device, and the others are as they were. -/
theorem WellFormed.write_artifact_error (ht : t.WellFormed) (hname : Path.slash ∉ name) {k : Artifact} {content : Text}
    {d : Device} {e : FileFailure} (hwrite : t.write (artifactPath dir name k) content d = .error e) :
    Changes (Own (t.folder dir) name) (t.folder dir) t e.files ∧
      (∀ k' ≠ k, e.files.entryAt (Artifact.location (t.folder dir) name k') =
        t.entryAt (Artifact.location (t.folder dir) name k')) ∧
      (e.files.entryAt (Artifact.location (t.folder dir) name k) =
          t.entryAt (Artifact.location (t.folder dir) name k) ∨
        ∃ reason count, d.writing (artifactPath dir name k) = some (.brokenOff reason count) ∧
          e.files.entryAt (Artifact.location (t.folder dir) name k) = some (.file (content.take count))) := by
  rcases ht.write_join_error (Artifact.fileName_plain hname k) hwrite with
    hsame | ⟨reason, count, hwriting, hD, hne, hfiles⟩
  · rw [hsame]
    exact ⟨.refl ht, fun _ _ => rfl, .inl rfl⟩
  · rw [hfiles]
    refine ⟨ht.put_artifact hD hne _, fun k' hk' => t.entryAt_put_other _ name hk' _,
      .inr ⟨reason, count, hwriting, ?_⟩⟩
    exact (entryAt_put_artifact ..).trans (if_pos rfl)

/-- The outcome of writing some artifacts after those in `done`. -/
structure Writes (d : Device) (dir : Text) (D : Location) (name : Text) (done : List Artifact)
    (files : List (Artifact × Text)) (t : FileTree) (r : FileTree × Option JobError) : Prop where
  changes : Changes (Own D name) D t r.1
  written : r.2 = none → ∀ f ∈ files, r.1.entryAt (Artifact.location D name f.1) = some (.file f.2)
  kept : ∀ k ∉ files.map (·.1), r.2 = none ∨ k ∉ done →
    r.1.entryAt (Artifact.location D name k) = t.entryAt (Artifact.location D name k)
  failed : ∀ {e}, r.2 = some e → ∀ f ∈ files, r.1.entryAt (Artifact.location D name f.1) = none ∨
    r.1.entryAt (Artifact.location D name f.1) = t.entryAt (Artifact.location D name f.1) ∨
    d.Leaves e (artifactPath dir name f.1) f.2 (r.1.entryAt (Artifact.location D name f.1))
  undone : r.2 ≠ none → ∀ k ∈ done, r.1.entryAt (Artifact.location D name k) = none ∨
    d.removing (artifactPath dir name k) ≠ none ∧
      r.1.entryAt (Artifact.location D name k) = t.entryAt (Artifact.location D name k)

/-- Where the device does what it is asked to, an artifact that could not be written is gone or as it was. -/
theorem Writes.gone_or_kept {D : Location} {files : List (Artifact × Text)} {r : FileTree × Option JobError}
    (h : Writes {} dir D name [] files t r) (hfailed : r.2 ≠ none) (k : Artifact) :
    r.1.entryAt (Artifact.location D name k) = none ∨
      r.1.entryAt (Artifact.location D name k) = t.entryAt (Artifact.location D name k) := by
  by_cases hk : k ∈ files.map (·.1)
  · obtain ⟨f, hf, rfl⟩ := List.mem_map.1 hk
    obtain ⟨e, he⟩ := Option.ne_none_iff_exists'.1 hfailed
    rcases h.failed he f hf with hnone | hsame | ⟨_, _, _, _, htrouble, _⟩ | ⟨htrouble, _⟩
    · exact .inl hnone
    · exact .inr hsame
    · cases htrouble
    · exact absurd rfl htrouble
  · exact .inr (h.kept k hk (.inr List.not_mem_nil))

/-- One more artifact written first. -/
theorem Writes.cons {d : Device} {D : Location} {k : Artifact} {content : Text} {done : List Artifact}
    {rest : List (Artifact × Text)} {r : FileTree × Option JobError} (hk : k ∉ rest.map (·.1)) (hdone : k ∉ done)
    (ht : t.WellFormed) (hD : t.IsDirectory D) (hne : ¬t.IsDirectory (Artifact.location D name k))
    (h : Writes d dir D name (done ++ [k]) rest (t.put (Artifact.location D name k) (.file content)) r) :
    Writes d dir D name done ((k, content) :: rest) t r := by
  have hother : ∀ k', k' ≠ k → (t.put (Artifact.location D name k) (.file content)).entryAt
      (Artifact.location D name k') = t.entryAt (Artifact.location D name k') :=
    fun k' hk' => t.entryAt_put_other D name hk' _
  have hthis : (t.put (Artifact.location D name k) (.file content)).entryAt (Artifact.location D name k) =
      some (.file content) := by rw [entryAt_put_artifact, if_pos rfl]
  refine ⟨(ht.put_artifact hD hne content).trans h.changes, fun hnone => ?_, fun k' hk' hcase => ?_,
    fun {e} he => ?_, fun hsome k' hk' => ?_⟩
  · rw [List.forall_mem_cons]
    exact ⟨(h.kept k hk (.inl hnone)).trans hthis, h.written hnone⟩
  · rw [List.map_cons, List.mem_cons, not_or] at hk'
    have hkept := h.kept k' hk'.2 (hcase.imp_right fun hnot => by simp [hnot, hk'.1])
    exact hkept.trans (hother k' hk'.1)
  · rw [List.forall_mem_cons]
    constructor
    · rcases h.undone (by simp [he]) k (by simp) with hnone | ⟨hremoving, hsame⟩
      · exact .inl hnone
      · exact .inr (.inr (.inr ⟨hremoving, hsame.trans hthis⟩))
    · intro f hf
      have hfk : f.1 ≠ k := fun heq => hk (heq ▸ List.mem_map_of_mem hf)
      have hrest := h.failed he f hf
      rwa [hother f.1 hfk] at hrest
  · have hk'k : k' ≠ k := fun heq => hdone (heq ▸ hk')
    have hundone := h.undone hsome k' (List.mem_append_left _ hk')
    rwa [hother k' hk'k] at hundone

/-- An artifact that could not be written is left to the device, and those before it are removed. -/
theorem WellFormed.writeEach_error {d : Device} (ht : t.WellFormed) (hname : Path.slash ∉ name) {k : Artifact}
    {content : Text} {done : List Artifact} {rest : List (Artifact × Text)} {e : FileFailure}
    (hdone : ∀ k ∈ done, ∃ content, t.entryAt (Artifact.location (t.folder dir) name k) = some (.file content))
    (hnodup : (done ++ k :: rest.map (·.1)).Nodup) (hwrite : t.write (artifactPath dir name k) content d = .error e) :
    Writes d dir (t.folder dir) name done ((k, content) :: rest) t
      (e.files.removeEach (done.map (artifactPath dir name)) d, some (.writing (artifactPath dir name k) e.error)) := by
  rw [List.nodup_append] at hnodup
  obtain ⟨hnodup, hnodupfiles, hapart⟩ := hnodup
  have hkdone : ∀ k' ∈ k :: rest.map (·.1), k' ∉ done := fun k' hk' hmem => hapart k' hmem k' hk' rfl
  obtain ⟨hchanges, hother, hthis⟩ := ht.write_artifact_error hname hwrite
  have hfolder := hchanges.folder dir
  have hne : ∀ k' ∈ done, k' ≠ k := fun k' hk' heq => hkdone k (List.mem_cons_self ..) (heq ▸ hk')
  have hthere : ∀ k' ∈ done, ∃ content,
      e.files.entryAt (Artifact.location (e.files.folder dir) name k') = some (.file content) := by
    intro k' hk'
    rw [hfolder, hother k' (hne k' hk')]
    exact hdone k' hk'
  obtain ⟨hchanges', hentry⟩ := WellFormed.removeEach dir hname d done hchanges.wellFormed hnodup hthere
  rw [hfolder] at hchanges' hentry
  have hpending : ∀ k' ∉ done, (e.files.removeEach (done.map (artifactPath dir name)) d).entryAt
      (Artifact.location (t.folder dir) name k') = e.files.entryAt (Artifact.location (t.folder dir) name k') := by
    intro k' hk'
    rw [hentry, if_neg fun h => hk' h.1]
  refine ⟨hchanges.trans hchanges', by simp, fun k' hk' hcase => ?_, fun {e'} he' => ?_,
    fun _ k' hk' => ?_⟩
  · rw [List.map_cons, List.mem_cons, not_or] at hk'
    rw [hpending k' (hcase.resolve_left (by simp)), hother k' hk'.1]
  · obtain rfl := Option.some.inj he'
    rw [List.forall_mem_cons]
    constructor
    · simp only [hpending k (hkdone k (List.mem_cons_self ..))]
      rcases hthis with hsame | ⟨reason, count, hwriting, hcut⟩
      · exact .inr (.inl hsame)
      · exact .inr (.inr (.inl ⟨e.error, reason, count, rfl, hwriting, hcut⟩))
    · intro f hf
      have hmem : f.1 ∈ rest.map (·.1) := List.mem_map_of_mem hf
      have hfk : f.1 ≠ k := fun heq => (List.nodup_cons.1 hnodupfiles).1 (heq ▸ hmem)
      refine .inr (.inl ?_)
      rw [hpending f.1 (hkdone f.1 (List.mem_cons_of_mem _ hmem)), hother f.1 hfk]
  · rw [hentry, hother k' (hne k' hk')]
    by_cases hremoving : d.removing (artifactPath dir name k') = none
    · exact .inl (if_pos ⟨hk', hremoving⟩)
    · exact .inr ⟨hremoving, if_neg fun h => hremoving h.2⟩

theorem WellFormed.writeEach (d : Device) (dir : Text) (hname : Path.slash ∉ name) (files : List (Artifact × Text)) :
    ∀ (done : List Artifact) {t : FileTree}, t.WellFormed → t.IsDirectory (t.folder dir) →
      (∀ k ∈ done, ∃ content, t.entryAt (Artifact.location (t.folder dir) name k) = some (.file content)) →
      (done ++ files.map (·.1)).Nodup →
      Writes d dir (t.folder dir) name done files t
        (t.writeEach (done.map (artifactPath dir name)) (files.map (Prod.map (artifactPath dir name) id)) d) := by
  induction files with
  | nil =>
    intro done t ht _ _ _
    exact ⟨.refl ht, fun _ => by simp, fun _ _ _ => rfl, by simp, fun h => absurd rfl h⟩
  | cons first rest ih =>
    intro done t ht hD hdone hnodup
    obtain ⟨k, content⟩ := first
    rw [List.map_cons, Prod.map_apply, FileTree.writeEach, id_eq]
    rw [List.map_cons] at hnodup
    cases hwrite : t.write (artifactPath dir name k) content d with
    | error e => exact ht.writeEach_error hname hdone hnodup hwrite
    | ok t₁ =>
      obtain ⟨-, hne, -, rfl⟩ := (ht.write_artifact_eq_ok_iff hname).1 hwrite
      have hchanges := ht.put_artifact hD hne content
      have hapart : k ∉ done ∧ k ∉ rest.map (·.1) := by
        rw [List.nodup_append, List.nodup_cons] at hnodup
        exact ⟨fun hmem => hnodup.2.2 k hmem k (List.mem_cons_self ..) rfl, hnodup.2.1.1⟩
      have hdone' : ∀ k' ∈ done ++ [k], ∃ content', (t.put (Artifact.location (t.folder dir) name k)
          (.file content)).entryAt (Artifact.location (t.folder dir) name k') = some (.file content') := by
        intro k' hk'
        by_cases heq : k' = k
        · subst heq
          exact ⟨content, (entryAt_put_artifact ..).trans (if_pos rfl)⟩
        · rw [t.entryAt_put_other _ name heq]
          exact hdone k' (by simpa [heq] using hk')
      have hrest := ih (done ++ [k]) hchanges.wellFormed (hchanges.folder dir ▸ hchanges.directory _ hD) hdone'
        (by simpa using hnodup)
      rw [List.map_append] at hrest
      exact hrest.cons hapart.2 hapart.1 ht hD hne

/-- Writing succeeds where no directory is in the way and the device does it. -/
theorem WellFormed.writeEach_succeeds (hname : Path.slash ∉ name) (files : List (Artifact × Text)) :
    ∀ {t : FileTree} {written : List Text}, t.WellFormed → t.IsDirectory (t.folder dir) →
      (∀ f ∈ files, ¬t.IsDirectory (Artifact.location (t.folder dir) name f.1)) →
      (t.writeEach written (files.map (Prod.map (artifactPath dir name) id))).2 = none := by
  induction files with
  | nil => exact fun _ _ _ => rfl
  | cons first rest ih =>
    intro t written ht hD hne
    obtain ⟨k, content⟩ := first
    rw [List.forall_mem_cons] at hne
    rw [List.map_cons, Prod.map_apply, FileTree.writeEach, (ht.write_artifact_eq_ok_iff hname).2 ⟨hD, hne.1, rfl, rfl⟩]
    have hchanges := ht.put_artifact hD hne.1 content
    refine ih hchanges.wellFormed (hchanges.folder dir ▸ hchanges.directory _ hD) fun f hf => ?_
    have hentry := entryAt_put_artifact t (t.folder dir) name k (.file content)
      (Artifact.location (t.folder dir) name f.1)
    rw [IsDirectory, id_eq, hchanges.folder dir, hentry]
    split
    · simp
    · exact hne.2 f hf

theorem Makes.entryAt_location {D : Location} {r : Except FileFailure FileTree} (h : Makes t r D) (k : Artifact) :
    (left r).entryAt (Artifact.location D name k) = t.entryAt (Artifact.location D name k) := by
  rcases h.grows.entryAt (Artifact.location D name k) with heq | ⟨-, -, hbelow⟩
  · exact heq
  · exact absurd hbelow (Location.not_append_prefix D _)

/-- The directory made first changes no artifact. -/
theorem Writes.of_makes {d : Device} {D : Location} {done : List Artifact} {files : List (Artifact × Text)}
    {r : FileTree × Option JobError} (hmakes : Makes t (.ok t') D) (h : Writes d dir D name done files t' r) :
    Writes d dir D name done files t r := by
  have hentry : ∀ k, t'.entryAt (Artifact.location D name k) = t.entryAt (Artifact.location D name k) :=
    fun k => hmakes.entryAt_location k
  refine ⟨(Changes.of_makes hmakes).trans h.changes, h.written, fun k hk hcase => ?_, fun he f hf => ?_,
    fun hsome k hk => ?_⟩
  · rw [h.kept k hk hcase, hentry]
  · rw [← hentry]
    exact h.failed he f hf
  · rw [← hentry]
    exact h.undone hsome k hk

theorem paths_eq_cons (s : BuildSettings) (name : Text) :
    ∃ rest, s.paths name = artifactPath s.outDir name .symbols :: rest := ⟨_, rfl⟩

theorem zip_paths (s : BuildSettings) (name : Text) (artifacts : List Text) :
    (s.paths name).zip artifacts = (s.kinds.zip artifacts).map (Prod.map (artifactPath s.outDir name) id) := by
  rw [s.paths_eq, List.zip_map_left]
  rfl

theorem WellFormed.writeArtifacts (ht : t.WellFormed) (hname : Path.slash ∉ name) (s : BuildSettings)
    {artifacts : List Text} (hlength : s.kinds.length = artifacts.length) (d : Device) :
    Writes d s.outDir (t.folder s.outDir) name [] (s.kinds.zip artifacts) t
      (t.writeArtifacts (s.paths name) artifacts d) := by
  obtain ⟨rest, hpaths⟩ := paths_eq_cons s name
  have hnodup : ((s.kinds.zip artifacts).map (·.1)).Nodup := by
    rw [List.map_fst_zip (Nat.le_of_eq hlength), BuildSettings.kinds]
    cases s.llvm <;> decide
  rw [hpaths, FileTree.writeArtifacts, ← hpaths, zip_paths]
  have hmakes := ht.makeDirs_parent_join s.outDir (Artifact.fileName_plain hname .symbols) d
  rw [artifactPath]
  cases hmake : t.makeDirs (Path.parent (Path.join [s.outDir, Artifact.fileName name .symbols])) d with
  | error e =>
    rw [hmake] at hmakes
    have hentry : ∀ k, e.files.entryAt (Artifact.location (t.folder s.outDir) name k) =
        t.entryAt (Artifact.location (t.folder s.outDir) name k) := fun k => hmakes.entryAt_location k
    exact ⟨.of_makes hmakes, by simp, fun k _ _ => hentry k, fun _ f _ => .inr (.inl (hentry f.1)),
      by simp⟩
  | ok t₁ =>
    rw [hmake] at hmakes
    have hwf : t₁.WellFormed := hmakes.wellFormed
    have hfolder : t₁.folder s.outDir = t.folder s.outDir := (Changes.of_makes (P := fun _ => False) hmakes).folder _
    have hwrites := WellFormed.writeEach d s.outDir hname (s.kinds.zip artifacts) [] hwf (hfolder ▸ hmakes.made rfl)
      (by simp) hnodup
    rw [hfolder] at hwrites
    exact hwrites.of_makes hmakes

/-- The artifacts are written where their directory can be made and no directory is in the way. -/
theorem WellFormed.writeArtifacts_succeeds (ht : t.WellFormed) (hname : Path.slash ∉ name) (s : BuildSettings)
    {artifacts : List Text} (hmake : t.makeDirs (Path.spell (Path.isAbsolute s.outDir) (Path.names s.outDir)) = .ok t')
    (hne : ∀ k ∈ s.kinds, ¬t.IsDirectory (Artifact.location (t.folder s.outDir) name k)) :
    (t.writeArtifacts (s.paths name) artifacts).2 = none := by
  obtain ⟨rest, hpaths⟩ := paths_eq_cons s name
  have hplain := Artifact.fileName_plain hname .symbols
  have hparent : Path.parent (artifactPath s.outDir name .symbols) =
      Path.spell (Path.isAbsolute s.outDir) (Path.names s.outDir) := Path.parent_join hplain
  rw [hpaths, FileTree.writeArtifacts, ← hpaths, zip_paths, hparent, hmake]
  have hmakes := ht.makeDirs_parent_join s.outDir hplain {}
  rw [show Path.parent (Path.join [s.outDir, Artifact.fileName name .symbols]) = _ from hparent, hmake] at hmakes
  have hfolder : t'.folder s.outDir = t.folder s.outDir := (Changes.of_makes (P := fun _ => False) hmakes).folder _
  have hwf : t'.WellFormed := hmakes.wellFormed
  have hentry : ∀ k, t'.entryAt (Artifact.location (t.folder s.outDir) name k) =
      t.entryAt (Artifact.location (t.folder s.outDir) name k) := fun k => hmakes.entryAt_location k
  refine WellFormed.writeEach_succeeds hname _ hwf (hfolder ▸ hmakes.made rfl) fun f hf => ?_
  rw [hfolder, IsDirectory, hentry]
  exact hne f.1 (List.of_mem_zip hf).1

end

end FileTree

end RatLang
