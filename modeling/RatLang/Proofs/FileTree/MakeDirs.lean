import RatLang.Proofs.FileTree.Location

/-!
# Making directories

Making the directory of a normal path puts directories where nothing was, all of them on the way to it, also where the
device does not make the last of them (`WellFormed.makeDirs_parent_join`), and changes nothing if the directory is there
(`WellFormed.makeDirs_parent_join_of_isDirectory`).
-/
namespace RatLang.FileTree

open RatLang.Path (Plain Normal slash lead rootPieces Spells spell)

/-- New directories, at some locations, and no other change. -/
structure Grows (P : Location → Prop) (t t' : FileTree) : Prop where
  cwd : t'.cwd = t.cwd
  entryAt : ∀ l, t'.entryAt l = t.entryAt l ∨ t.entryAt l = none ∧ t'.IsDirectory l ∧ P l

namespace Grows

variable {P Q : Location → Prop} {t t' t'' : FileTree}

theorem refl (P : Location → Prop) (t : FileTree) : Grows P t t := ⟨rfl, fun _ => .inl rfl⟩

theorem mono (h : Grows P t t') (hPQ : ∀ l, P l → Q l) : Grows Q t t' :=
  ⟨h.cwd, fun l => (h.entryAt l).imp_right fun ⟨hnone, hdirectory, hl⟩ => ⟨hnone, hdirectory, hPQ l hl⟩⟩

theorem isDirectory (h : Grows P t t') {l : Location} (hl : t.IsDirectory l) : t'.IsDirectory l := by
  rcases h.entryAt l with heq | ⟨hnone, -⟩
  · rwa [IsDirectory, heq]
  · rw [IsDirectory, hnone] at hl
    cases hl

theorem trans (h : Grows P t t') (h' : Grows P t' t'') : Grows P t t'' := by
  refine ⟨h'.cwd.trans h.cwd, fun l => ?_⟩
  rcases h'.entryAt l with heq | ⟨hnone, hdirectory, hl⟩
  · rw [IsDirectory, heq]
    exact h.entryAt l
  · refine .inr ⟨?_, hdirectory, hl⟩
    rcases h.entryAt l with heq | ⟨hnone', -⟩
    · rw [← heq, hnone]
    · exact hnone'

theorem put {l : Location} {name : Text} (hnone : t.entryAt (l ++ [name]) = none) (hP : P (l ++ [name])) :
    Grows P t (t.put (l ++ [name]) .directory) := by
  refine ⟨rfl, fun l' => ?_⟩
  rw [IsDirectory, entryAt_put]
  split
  · rename_i heq
    subst heq
    exact .inr ⟨hnone, rfl, hP⟩
  · exact .inl rfl

end Grows

/-! ### One directory -/

section

variable {t t' : FileTree} {path : Text} {absolute : Bool} {names : List Text} {name : Text} {d : Device}

theorem locate_spells (h : Spells path absolute names name) (hnormal : Normal absolute (names ++ [name])) :
    ∃ rest, (rest = [] ∨ rest = [[]]) ∧ t.locate path = t.walk (t.origin path) (names ++ [name] ++ rest) := by
  have hne := h.ne_nil (hnormal.ne_nil name (by simp))
  have hpieces : ∃ rest, (rest = [] ∨ rest = [[]]) ∧
      path.splitOn slash = rootPieces absolute ++ (names ++ [name] ++ rest) := by
    rcases h with rfl | rfl
    · refine ⟨[], .inl rfl, ?_⟩
      rw [Path.splitOn_lead_append hnormal.front.slash_notMem,
        Text.splitOn_of_notMem slash (hnormal.slash_notMem name (by simp))]
      simp
    · refine ⟨[[]], .inr rfl, ?_⟩
      rw [Path.splitOn_lead hnormal.slash_notMem, List.append_assoc]
  obtain ⟨rest, hrest, hpieces⟩ := hpieces
  refine ⟨rest, hrest, ?_⟩
  rw [locate, if_neg (by simp [hne]), hpieces, ← h.isAbsolute hnormal, walk_rootPieces]

theorem entryAt_of_find (h : Spells path absolute names name) (hnormal : Normal absolute (names ++ [name]))
    {e : Entry} (hfind : t.find path = .ok e) : t.entryAt (reach (t.origin path) (names ++ [name])) = some e := by
  obtain ⟨l, hl, he⟩ := find_eq_ok_iff.1 hfind
  obtain ⟨rest, hrest, hlocate⟩ := locate_spells h hnormal
  rw [hlocate] at hl
  rw [eq_reach_of_walk hl] at he
  rcases hrest with rfl | rfl
  · rwa [List.append_nil] at he
  · rwa [reach_append] at he

theorem WellFormed.find_of_isDirectory (ht : t.WellFormed) (h : Spells path absolute names name)
    (hnormal : Normal absolute (names ++ [name])) (hd : t.IsDirectory (reach (t.origin path) (names ++ [name]))) :
    t.find path = .ok .directory := by
  obtain ⟨rest, hrest, hlocate⟩ := locate_spells h hnormal
  rw [find_eq_ok_iff]
  refine ⟨_, ?_, hd⟩
  rw [hlocate, walk_append_eq_ok_iff]
  refine ⟨_, ht.walk_reach (ht.isDirectory_origin path) hnormal hd, ?_⟩
  rcases hrest with rfl | rfl
  · rfl
  · exact walk_cons_eq_ok_iff.2 ⟨hd, rfl⟩

/-- Ensuring a directory finds it or puts it where nothing was. -/
theorem ensureDir_cases (h : Spells path absolute names name)
    (hnormal : Normal absolute (names ++ [name])) (hok : t.ensureDir path d = .ok t') :
    t' = t ∧ t.IsDirectory (reach (t.origin path) (names ++ [name])) ∨
      Plain name ∧ t.IsDirectory (reach (t.origin path) names) ∧
        t.entryAt (reach (t.origin path) names ++ [name]) = none ∧
        t' = t.put (reach (t.origin path) names ++ [name]) .directory := by
  rw [ensureDir] at hok
  cases hmake : t.makeDir path d with
  | error e =>
    rw [hmake] at hok
    simp only at hok
    split at hok
    · rename_i hfind
      refine .inl ⟨(Except.ok.inj hok).symm, entryAt_of_find h hnormal ?_⟩
      cases hpath : t.find path <;> simp_all [Except.toOption]
    · cases hok
  | ok t₁ =>
    rw [hmake] at hok
    obtain rfl := Except.ok.inj hok
    right
    rw [makeDir] at hmake
    cases hnew : t.locateNew path with
    | error fault => rw [hnew] at hmake; cases hmake
    | ok o =>
      obtain ⟨l, hwalk, hl, ho⟩ := (locateNew_eq_ok_iff h hnormal).1 hnew
      obtain rfl := eq_reach_of_walk hwalk
      rw [hnew] at hmake
      rcases hnormal.above_or_plain name (by simp) with rfl | hplain
      · rw [if_pos rfl] at ho
        subst ho
        cases hmake
      · rw [if_neg hplain.ne_above] at ho
        subst ho
        simp only at hmake
        split at hmake
        · cases hmake
        · rename_i hnone
          split at hmake
          · cases hmake
          · exact ⟨hplain, hl, by simpa using hnone, (Except.ok.inj hmake).symm⟩

theorem files_of_ensureDir_error {e : FileFailure} (h : t.ensureDir path d = .error e) : e.files = t := by
  rw [ensureDir] at h
  split at h
  · cases h
  · split at h
    · cases h
    · cases h
      rfl

/-! ### The trees that are left -/

/-- The tree that an operation leaves. -/
def left : Except FileFailure FileTree → FileTree
  | .ok t => t
  | .error e => e.files

/-- The effect of making a directory: there are new directories on the way to it, and it is there if that succeeded. -/
structure Makes (t : FileTree) (r : Except FileFailure FileTree) (l : Location) : Prop where
  wellFormed : (left r).WellFormed
  grows : Grows (· <+: l) t (left r)
  made : ∀ {t'}, r = .ok t' → t'.IsDirectory l

theorem Makes.refl (ht : t.WellFormed) {l : Location} (hd : t.IsDirectory l) : Makes t (.ok t) l :=
  ⟨ht, .refl _ _, fun h => Except.ok.inj h ▸ hd⟩

theorem Makes.error (ht : t.WellFormed) {e : FileFailure} (he : e.files = t) (l : Location) : Makes t (.error e) l := by
  refine ⟨?_, ?_, by simp⟩
  · rw [left, he]
    exact ht
  · rw [left, he]
    exact .refl _ _

theorem WellFormed.ensureDir (ht : t.WellFormed) (h : Spells path absolute names name)
    (hnormal : Normal absolute (names ++ [name])) (d : Device) :
    Makes t (t.ensureDir path d) (reach (t.origin path) (names ++ [name])) := by
  cases hmake : t.ensureDir path d with
  | error e => exact .error ht (files_of_ensureDir_error hmake) _
  | ok t' =>
    rcases ensureDir_cases h hnormal hmake with ⟨rfl, hd⟩ | ⟨hplain, hd, hnone, rfl⟩
    · exact .refl ht hd
    · rw [reach_append_plain _ _ hplain]
      refine ⟨ht.put hd (by simp [IsDirectory, hnone]) _, .put hnone (List.prefix_refl _), fun hok => ?_⟩
      rw [← Except.ok.inj hok, IsDirectory, entryAt_put, if_pos rfl]

/-! ### Directories on the way -/

theorem pathAbove_spells (h : Spells path absolute names name) (hnormal : Normal absolute (names ++ [name])) :
    pathAbove path = lead absolute names := by
  have hslash : slash ∉ name := hnormal.slash_notMem name (by simp)
  have hname : ∀ b ∈ name.reverse, (b != slash) = true := by
    intro b hb
    have hne : b ≠ slash := fun heq => hslash (heq ▸ List.mem_reverse.1 hb)
    simpa using hne
  rw [pathAbove, h.dropWhile_reverse (hnormal.ne_nil name (by simp)) hslash, List.reverse_append,
    List.dropWhile_append_of_pos hname]
  rcases Path.lead_nil_or_slash absolute names with hnil | ⟨front, hfront⟩
  · rw [hnil]
    rfl
  · rw [hfront, List.reverse_append, List.reverse_singleton, List.singleton_append,
      List.dropWhile_cons_of_neg (by simp), List.reverse_cons, List.reverse_reverse]

theorem makeDirs_of_find (h : t.find path = .ok .directory) (d : Device) : t.makeDirs path d = .ok t := by
  rw [makeDirs, h]

theorem origin_spells (h : Spells path absolute names name) (hnormal : Normal absolute (names ++ [name])) :
    t.origin path = t.origin (lead absolute names) := by
  rw [origin, h.isAbsolute hnormal, origin, Path.isAbsolute_lead hnormal.front]

/-- The way to a directory that is there need not be made. -/
theorem WellFormed.makeDirs_lead_of_isDirectory (ht : t.WellFormed) (hnormal : Normal absolute names)
    (hne : lead absolute names ≠ []) (hd : t.IsDirectory (reach (t.origin (lead absolute names)) names)) :
    t.makeDirs (lead absolute names) d = .ok t := by
  refine makeDirs_of_find ?_ d
  rcases List.eq_nil_or_concat names with rfl | ⟨front, last, rfl⟩
  · cases absolute with
    | true => exact find_eq_ok_iff.2 ⟨[], rfl, rfl⟩
    | false => exact absurd rfl hne
  · rw [List.concat_eq_append] at hnormal hd ⊢
    exact ht.find_of_isDirectory (.inr rfl) hnormal hd

/-- Directories on the way to one above are on the way to the one below, or there are none to make. -/
theorem WellFormed.grows_below (ht : t.WellFormed) (h : Spells path absolute names name)
    (hnormal : Normal absolute (names ++ [name])) (hne : lead absolute names ≠ [])
    (hgrows : Grows (· <+: reach (t.origin (lead absolute names)) names) t
      (left (t.makeDirs (lead absolute names) d))) :
    Grows (· <+: reach (t.origin path) (names ++ [name])) t (left (t.makeDirs (lead absolute names) d)) := by
  rcases hnormal.last with hplain | hups
  · refine hgrows.mono fun l hl => hl.trans ?_
    rw [reach_append_plain _ _ hplain, origin_spells h hnormal]
    exact List.prefix_append ..
  · -- the way up is there already
    have hd := ht.isDirectory_ups hups (ht.isDirectory_origin (lead absolute names))
    rw [ht.makeDirs_lead_of_isDirectory hnormal.front hne hd]
    exact .refl _ _

/-- A directory is made below one that is made first. -/
theorem WellFormed.makeDirs_spells (ht : t.WellFormed) (h : Spells path absolute names name)
    (hnormal : Normal absolute (names ++ [name]))
    (habove : lead absolute names ≠ [] →
      Makes t (t.makeDirs (lead absolute names) d) (reach (t.origin (lead absolute names)) names)) :
    Makes t (t.makeDirs path d) (reach (t.origin path) (names ++ [name])) := by
  rw [makeDirs]
  split
  · next hfind => exact .refl ht (entryAt_of_find h hnormal hfind)
  · exact .error ht rfl _
  · split
    · exact ht.ensureDir h hnormal d
    · next hne =>
      rw [pathAbove_spells h hnormal] at hne ⊢
      have hfirst := habove hne
      have hgrows := ht.grows_below h hnormal hne hfirst.grows
      cases hmake : t.makeDirs (lead absolute names) d with
      | error e =>
        rw [hmake] at hfirst hgrows
        refine ⟨hfirst.wellFormed, hgrows, fun hok => ?_⟩
        cases hok
      | ok t₁ =>
        rw [hmake] at hfirst hgrows
        have hwf : t₁.WellFormed := hfirst.wellFormed
        have hcwd : t₁.cwd = t.cwd := hgrows.cwd
        have horigin : t₁.origin path = t.origin path := by rw [origin, hcwd, origin]
        have hlast := hwf.ensureDir h hnormal d
        rw [horigin] at hlast
        exact ⟨hlast.wellFormed, hgrows.trans hlast.grows, hlast.made⟩

theorem WellFormed.makeDirs_lead (ht : t.WellFormed) (hnormal : Normal absolute names)
    (hne : lead absolute names ≠ []) (d : Device) :
    Makes t (t.makeDirs (lead absolute names) d) (reach (t.origin (lead absolute names)) names) := by
  induction hn : names.length generalizing names with
  | zero =>
    rw [List.length_eq_zero_iff] at hn
    subst hn
    have hd : t.IsDirectory (reach (t.origin (lead absolute [])) []) := ht.isDirectory_origin _
    rw [ht.makeDirs_lead_of_isDirectory hnormal hne hd]
    exact .refl ht hd
  | succ n ih =>
    obtain ⟨front, name, rfl⟩ : ∃ front name, names = front ++ [name] :=
      ⟨_, _, (List.dropLast_concat_getLast (by intro hnil; simp [hnil] at hn)).symm⟩
    exact ht.makeDirs_spells (.inr rfl) hnormal fun hne' => ih hnormal.front hne' (by simpa using hn)

end

/-! ### The directory of an artifact -/

variable {t t' : FileTree} {dir name : Text}

theorem find_spell_nil (ht : t.WellFormed) (absolute : Bool) : t.find (spell absolute []) = .ok .directory := by
  cases absolute with
  | true => exact find_eq_ok_iff.2 ⟨[], rfl, rfl⟩
  | false => exact find_eq_ok_iff.2 ⟨t.cwd, walk_cons_eq_ok_iff.2 ⟨ht.cwd, rfl⟩, ht.cwd⟩

theorem WellFormed.makeDirs_parent_join (ht : t.WellFormed) (dir : Text) (hname : Plain name) (d : Device) :
    Makes t (t.makeDirs (Path.parent (Path.join [dir, name])) d) (t.folder dir) := by
  rw [Path.parent_join hname]
  have hnormal := Path.names_normal dir
  rw [folder]
  rcases List.eq_nil_or_concat (Path.names dir) with hnil | ⟨front, last, hconcat⟩
  · rw [hnil, makeDirs_of_find (find_spell_nil ht _)]
    exact .refl ht (ht.isDirectory_origin dir)
  · rw [List.concat_eq_append] at hconcat
    rw [hconcat] at hnormal ⊢
    rw [Path.spell_append]
    have hspells : Spells (lead (Path.isAbsolute dir) front ++ last) (Path.isAbsolute dir) front last := .inl rfl
    have horigin : t.origin (lead (Path.isAbsolute dir) front ++ last) = t.origin dir := by
      rw [origin, hspells.isAbsolute hnormal, origin]
    rw [← horigin]
    exact ht.makeDirs_spells hspells hnormal fun hne => ht.makeDirs_lead hnormal.front hne d

theorem WellFormed.makeDirs_parent_join_of_isDirectory (ht : t.WellFormed) (hname : Plain name)
    (hd : t.IsDirectory (t.folder dir)) (d : Device) :
    t.makeDirs (Path.parent (Path.join [dir, name])) d = .ok t := by
  rw [Path.parent_join hname]
  have hnormal := Path.names_normal dir
  refine makeDirs_of_find ?_ d
  rw [folder] at hd
  rcases List.eq_nil_or_concat (Path.names dir) with hnil | ⟨front, last, hconcat⟩
  · rw [hnil]
    exact find_spell_nil ht _
  · rw [List.concat_eq_append] at hconcat
    rw [hconcat] at hnormal hd ⊢
    rw [Path.spell_append]
    have hspells : Spells (lead (Path.isAbsolute dir) front ++ last) (Path.isAbsolute dir) front last := .inl rfl
    refine ht.find_of_isDirectory hspells hnormal ?_
    rwa [origin, hspells.isAbsolute hnormal]

end RatLang.FileTree
