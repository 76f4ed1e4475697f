import RatLang.Proofs.Build.SumFile
import RatLang.Proofs.Build.Writing

/-!
# Recorded fingerprints

What the sum file of a directory says about a job (`FileTree.recorded`). Loading sums gives what the file records
(`Sums.load_cases`), and saving them makes the file record them (`Sums.save_cases`). Saving cannot fail in a directory
that has a sum file, unless the device does not write it; then the file records what it did, or what the device leaves
of the new one, which is nothing or all (`Sums.Unwritten`).
-/
namespace RatLang

variable {t t' : FileTree} {dir : Text} {σ : Sums}

/-- The fingerprint of a job in the sum file of a directory, if there is such a file and it can be read. -/
def FileTree.recorded (t : FileTree) (D : Location) (name : Text) : Option Text :=
  match t.entryAt (D ++ [SumFile.name]) with
  | some (.file content) => (SumFile.decode? content).bind (·.lookup name)
  | _ => none

theorem FileTree.recorded_of_file {D : Location} {content : Text}
    (h : t.entryAt (D ++ [SumFile.name]) = some (.file content)) (name : Text) :
    t.recorded D name = (SumFile.decode? content).bind (·.lookup name) := by
  rw [recorded, h]

theorem FileTree.exists_of_recorded {D : Location} {name sum : Text} (h : t.recorded D name = some sum) :
    ∃ content, t.entryAt (D ++ [SumFile.name]) = some (.file content) := by
  rw [recorded] at h
  split at h
  · exact ⟨_, by assumption⟩
  · cases h

theorem FileTree.recorded_congr {D : Location} (h : t'.entryAt (D ++ [SumFile.name]) = t.entryAt (D ++ [SumFile.name]))
    (name : Text) : t'.recorded D name = t.recorded D name := by
  rw [recorded, h, recorded]

theorem FileTree.recorded_put (t : FileTree) (D : Location) (content name : Text) :
    (t.put (D ++ [SumFile.name]) (.file content)).recorded D name = (SumFile.decode? content).bind (·.lookup name) :=
  recorded_of_file ((entryAt_put ..).trans (if_pos rfl)) name

/-- Writing artifacts leaves the sum file. -/
theorem FileTree.Changes.recorded_eq {D : Location} {name : Text} (h : Changes (Own D name) D t t') (other : Text) :
    t'.recorded D other = t.recorded D other := by
  refine recorded_congr (h.entryAt_eq ?_ (Location.not_append_prefix D _)) other
  rintro ⟨k, hk⟩
  exact Artifact.location_ne_sumFile D D name k hk.symm

namespace Sums

theorem sum?_forget (σ : Sums) (name other : Text) :
    (σ.forget name).sum? other = if other = name then none else σ.sum? other := by
  rw [sum?, forget, FileTree.lookup_filter_ne]
  simp only [beq_iff_eq]
  rfl

theorem sum?_record (σ : Sums) (name sum other : Text) :
    (σ.record name sum).sum? other = if other = name then some sum else σ.sum? other := by
  by_cases hother : other = name
  · rw [if_pos hother, hother, sum?, record, List.lookup_cons, beq_self_eq_true]
  · have hforget := sum?_forget σ name other
    rw [if_neg hother] at hforget ⊢
    rw [sum?, record, List.lookup_cons, beq_false_of_ne hother, ← hforget]
    rfl

/-- The path of the sum file of a directory. -/
def filePath (dir : Text) : Text := Path.join [dir, SumFile.name]

theorem recorded_of_read_error (ht : t.WellFormed) {e : FileError} (h : t.read (filePath dir) = .error e)
    (name : Text) : t.recorded (t.folder dir) name = none := by
  cases hrecorded : t.recorded (t.folder dir) name with
  | none => rfl
  | some sum =>
    obtain ⟨content, hcontent⟩ := FileTree.exists_of_recorded hrecorded
    have hread := (ht.read_join_eq_ok_iff SumFile.name_plain).2 hcontent
    rw [filePath, hread] at h
    cases h

/-- Loading finds a sum file, or none is recorded. -/
theorem load_cases (ht : t.WellFormed) (dir : Text) :
    (∃ σ, load t dir = .ok σ ∧ σ.path = filePath dir ∧ ∀ name, σ.sum? name = t.recorded (t.folder dir) name) ∨
      (∃ e, load t dir = .error e) ∧ ∀ name, t.recorded (t.folder dir) name = none := by
  rw [load, ← filePath]
  cases hread : t.read (filePath dir) with
  | error e =>
    have hnone := recorded_of_read_error ht hread
    simp only
    split
    · exact .inl ⟨_, rfl, rfl, fun name => (hnone name).symm⟩
    · split
      · exact .inr ⟨⟨_, rfl⟩, hnone⟩
      · exact .inr ⟨⟨_, rfl⟩, hnone⟩
  | ok content =>
    have hrecorded := FileTree.recorded_of_file ((ht.read_join_eq_ok_iff SumFile.name_plain).1 hread)
    simp only
    split
    · rename_i hempty
      rw [List.isEmpty_iff.1 hempty] at hrecorded
      exact .inr ⟨⟨_, rfl⟩, hrecorded⟩
    · cases hdecode : SumFile.decode? content with
      | none =>
        rw [hdecode] at hrecorded
        exact .inr ⟨⟨_, rfl⟩, hrecorded⟩
      | some entries =>
        rw [hdecode] at hrecorded
        exact .inl ⟨_, rfl, rfl, fun name => (hrecorded name).symm⟩

/-- Where a sum file is, its directory need not be made. -/
theorem recorded_of_makeDirs_error (ht : t.WellFormed) {d : Device} {e : FileFailure}
    (h : t.makeDirs (Path.parent (filePath dir)) d = .error e) (name : Text) :
    t.recorded (t.folder dir) name = none := by
  cases hrecorded : t.recorded (t.folder dir) name with
  | none => rfl
  | some sum =>
    obtain ⟨content, hcontent⟩ := FileTree.exists_of_recorded hrecorded
    rw [filePath, ht.makeDirs_parent_join_of_isDirectory SumFile.name_plain (ht.parent_append hcontent)] at h
    cases h

/-- A sum file that the device has broken off records nothing, or all if it was written to its end. -/
theorem recorded_put_take (t : FileTree) (D : Location) (count : Nat) :
    (∀ name, (t.put (D ++ [SumFile.name]) (.file ((SumFile.encode σ.entries).take count))).recorded D name = none) ∨
      ∀ name, (t.put (D ++ [SumFile.name]) (.file ((SumFile.encode σ.entries).take count))).recorded D name =
        σ.sum? name := by
  by_cases hcount : count < (SumFile.encode σ.entries).length
  · refine .inl fun name => ?_
    rw [FileTree.recorded_put, SumFile.decode?_take _ hcount]
    rfl
  · refine .inr fun name => ?_
    rw [FileTree.recorded_put, List.take_of_length_le (Nat.le_of_not_lt hcount), SumFile.decode?_encode]
    rfl

/-- What the sum file of a directory records when it could not be written: what it did, which is nothing if the device
has not failed, or what the device leaves of the new one. -/
def Unwritten (σ : Sums) (d : Device) (dir : Text) (D : Location) (t t' : FileTree) : Prop :=
  (∀ name, t'.recorded D name = t.recorded D name) ∧
      (d.writing (filePath dir) = none → ∀ name, t.recorded D name = none) ∨
    d.writing (filePath dir) ≠ none ∧ ((∀ name, t'.recorded D name = none) ∨ ∀ name, t'.recorded D name = σ.sum? name)

/-- Writing the sum file into its directory. -/
theorem write_cases (σ : Sums) (ht : t.WellFormed) (hD : t.IsDirectory (t.folder dir)) (d : Device) :
    (∃ t', t.write (filePath dir) (SumFile.encode σ.entries) d = .ok t' ∧
        FileTree.Changes (· = t.folder dir ++ [SumFile.name]) (t.folder dir) t t' ∧
        ∀ name, t'.recorded (t.folder dir) name = σ.sum? name) ∨
      ∃ e, t.write (filePath dir) (SumFile.encode σ.entries) d = .error e ∧
        FileTree.Changes (· = t.folder dir ++ [SumFile.name]) (t.folder dir) t e.files ∧
        σ.Unwritten d dir (t.folder dir) t e.files := by
  rcases ht.write_join dir SumFile.name_plain (SumFile.encode σ.entries) d with
    ⟨⟨e, hwrite⟩, hplace⟩ | ⟨-, hne, hwrite⟩
  · have hdirectory : t.entryAt (t.folder dir ++ [SumFile.name]) = some .directory := hplace hD
    refine .inr ⟨_, hwrite, .refl ht, .inl ⟨fun _ => rfl, fun _ name => ?_⟩⟩
    rw [FileTree.recorded, hdirectory]
  · rw [← filePath, FileTree.writeAt] at hwrite
    have hput := fun content =>
      FileTree.Changes.put (P := (· = t.folder dir ++ [SumFile.name])) ht hD hne rfl content
    rw [hwrite]
    cases hwriting : d.writing (filePath dir) with
    | none =>
      refine .inl ⟨_, rfl, hput _, fun name => ?_⟩
      rw [FileTree.recorded_put, SumFile.decode?_encode]
      rfl
    | some trouble =>
      have hfails : d.writing (filePath dir) ≠ none := by simp [hwriting]
      cases trouble with
      | refused reason =>
        exact .inr ⟨_, rfl, .refl ht, .inl ⟨fun _ => rfl, fun hnone => absurd hnone hfails⟩⟩
      | brokenOff reason count =>
        exact .inr ⟨_, rfl, hput _, .inr ⟨hfails, recorded_put_take t (t.folder dir) count⟩⟩

/-- What is saved is recorded. Where saving fails nothing was recorded, or the device did not write the sum file. -/
theorem save_cases (ht : t.WellFormed) (hpath : σ.path = filePath dir) (d : Device) :
    (∃ t', σ.save t d = .ok t' ∧
        FileTree.Changes (· = t.folder dir ++ [SumFile.name]) (t.folder dir) t t' ∧
        ∀ name, t'.recorded (t.folder dir) name = σ.sum? name) ∨
      ∃ e, σ.save t d = .error e ∧
        FileTree.Changes (· = t.folder dir ++ [SumFile.name]) (t.folder dir) t e.files ∧
        σ.Unwritten d dir (t.folder dir) t e.files := by
  have hmakes := ht.makeDirs_parent_join dir SumFile.name_plain d
  have hchanges := FileTree.Changes.of_makes (P := (· = t.folder dir ++ [SumFile.name])) hmakes
  have hsame : ∀ name, (FileTree.left (t.makeDirs (Path.parent (filePath dir)) d)).recorded (t.folder dir) name =
      t.recorded (t.folder dir) name :=
    FileTree.recorded_congr ((FileTree.Changes.of_makes (P := fun _ => False) hmakes).entryAt_eq id
      (Location.not_append_prefix _ _))
  rw [save, hpath]
  cases hmake : t.makeDirs (Path.parent (filePath dir)) d with
  | error e =>
    rw [← filePath, hmake] at hchanges
    rw [hmake] at hsame
    exact .inr ⟨_, rfl, hchanges, .inl ⟨hsame, fun _ => recorded_of_makeDirs_error ht hmake⟩⟩
  | ok t₁ =>
    rw [← filePath, hmake] at hchanges hmakes
    rw [hmake] at hsame
    have hwf : t₁.WellFormed := hmakes.wellFormed
    have hfolder : t₁.folder dir = t.folder dir := hchanges.folder dir
    have hwrite := σ.write_cases hwf (hfolder ▸ hmakes.made rfl) d
    rw [hfolder] at hwrite
    simp only
    rcases hwrite with ⟨t', hwrite, hwritten, hrecorded⟩ | ⟨e, hwrite, hwritten, hunwritten⟩
    · rw [hwrite]
      exact .inl ⟨_, rfl, hchanges.trans hwritten, hrecorded⟩
    · rw [hwrite]
      refine .inr ⟨_, rfl, hchanges.trans hwritten, ?_⟩
      simpa only [Unwritten, ← hsame, FileTree.left] using hunwritten

end Sums

end RatLang
