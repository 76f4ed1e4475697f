import RatLang.FileTree
import RatLang.Proofs.Path

/-!
# Where paths lead

A path leads to the same location in every tree where it leads anywhere (`eq_reach_of_walk`): the tree only decides
whether the steps can be taken. In a well-formed tree, where everything lies in a directory, they can be taken as
far as something is there. So reading, looking for, writing and removing a plain name in a directory are told by the
entries and the device alone (`read_join_eq_ok_iff`, `has_join_iff`, `write_join_eq_ok_iff`, `remove_join`).
-/
namespace RatLang.FileTree

open RatLang.Path (Plain Normal slash lead rootPieces)

/-! ### Entries -/

theorem entryAt_append_singleton (t : FileTree) (l : Location) (name : Text) :
    t.entryAt (l ++ [name]) = t.entries.lookup (l ++ [name]) := by
  rw [entryAt, if_neg (by simp)]

theorem lookup_filter_ne {α β : Type} [BEq α] [LawfulBEq α] (entries : List (α × β)) (a b : α) :
    (entries.filter (·.1 != a)).lookup b = if b == a then none else entries.lookup b := by
  induction entries with
  | nil => simp
  | cons first rest ih =>
    obtain ⟨k, e⟩ := first
    by_cases hk : k = a
    · subst hk
      rw [List.filter_cons_of_neg (by simp), ih]
      by_cases hb : b = k
      · rw [hb, beq_self_eq_true, if_pos rfl, if_pos rfl]
      · rw [beq_false_of_ne hb, List.lookup_cons, beq_false_of_ne hb]
    · rw [List.filter_cons_of_pos (by simpa using hk), List.lookup_cons, List.lookup_cons, ih]
      by_cases hb : b = k
      · rw [hb, beq_self_eq_true, beq_false_of_ne hk]
        rfl
      · rw [beq_false_of_ne hb]

theorem entryAt_put (t : FileTree) (l : Location) (name : Text) (e : Entry) (l' : Location) :
    (t.put (l ++ [name]) e).entryAt l' = if l' = l ++ [name] then some e else t.entryAt l' := by
  by_cases hl : l' = l ++ [name]
  · subst hl
    rw [entryAt_append_singleton, put, List.lookup_cons, beq_self_eq_true, if_pos rfl]
  · rw [if_neg hl, entryAt, entryAt, put, List.lookup_cons, lookup_filter_ne, beq_false_of_ne hl]
    rfl

theorem entryAt_drop (t : FileTree) (l : Location) (name : Text) (l' : Location) :
    (t.drop (l ++ [name])).entryAt l' = if l' = l ++ [name] then none else t.entryAt l' := by
  by_cases hl : l' = l ++ [name]
  · subst hl
    rw [entryAt_append_singleton, drop, lookup_filter_ne, beq_self_eq_true, if_pos rfl, if_pos rfl]
  · rw [if_neg hl, entryAt, entryAt, drop, lookup_filter_ne, beq_false_of_ne hl]
    rfl

/-- Whether a directory is at the location. -/
def IsDirectory (t : FileTree) (l : Location) : Prop := t.entryAt l = some .directory

instance (t : FileTree) (l : Location) : Decidable (t.IsDirectory l) := inferInstanceAs (Decidable (_ = _))

theorem isDirectory_root (t : FileTree) : t.IsDirectory [] := rfl

theorem asDirectory_eq_ok_iff {t : FileTree} {l l' : Location} :
    t.asDirectory l = .ok l' ↔ t.IsDirectory l ∧ l' = l := by
  rw [asDirectory, IsDirectory]
  split <;> rename_i h <;> simp [h, eq_comm]

/-! ### Steps -/

/-- Where one name leads. -/
def stepTo (l : Location) (name : Text) : Location :=
  if name = [] ∨ name = Path.here then l else if name = Path.above then l.dropLast else l ++ [name]

/-- Where names lead, one after the other. -/
def reach (l : Location) (names : List Text) : Location := names.foldl stepTo l

theorem stepTo_plain {name : Text} (h : Plain name) (l : Location) : stepTo l name = l ++ [name] := by
  rw [stepTo, if_neg (not_or.2 ⟨h.ne_nil, h.ne_here⟩), if_neg h.ne_above]

theorem reach_append (l : Location) (names names' : List Text) :
    reach l (names ++ names') = reach (reach l names) names' := List.foldl_append ..

theorem reach_append_plain (l : Location) (names : List Text) {name : Text} (h : Plain name) :
    reach l (names ++ [name]) = reach l names ++ [name] := by
  rw [reach_append]
  exact stepTo_plain h _

variable {t t' : FileTree} {l l' : Location}

theorem walk_cons_eq_ok_iff {name : Text} {rest : List Text} :
    t.walk l (name :: rest) = .ok l' ↔ t.IsDirectory l ∧ t.walk (stepTo l name) rest = .ok l' := by
  rw [walk]
  cases hdirectory : t.asDirectory l with
  | error fault =>
    constructor
    · exact fun h => nomatch h
    · rintro ⟨h, -⟩
      rw [asDirectory_eq_ok_iff.2 ⟨h, rfl⟩] at hdirectory
      cases hdirectory
  | ok l₁ =>
    obtain ⟨h, rfl⟩ := asDirectory_eq_ok_iff.1 hdirectory
    simp only [h, true_and, stepTo, bind, Except.bind, Bool.or_eq_true, beq_iff_eq]
    split
    · rfl
    · split <;> rfl

theorem walk_append_eq_ok_iff {names names' : List Text} :
    t.walk l (names ++ names') = .ok l' ↔ ∃ m, t.walk l names = .ok m ∧ t.walk m names' = .ok l' := by
  induction names generalizing l with
  | nil => simp [walk]
  | cons name rest ih =>
    simp only [List.cons_append, walk_cons_eq_ok_iff, ih, and_assoc, exists_and_left]

/-- A walk arrives where the names lead, and the tree has the directories to step from. -/
theorem eq_reach_of_walk {names : List Text} (h : t.walk l names = .ok l') : l' = reach l names := by
  induction names generalizing l with
  | nil => exact (Except.ok.inj h).symm
  | cons name rest ih => exact ih (walk_cons_eq_ok_iff.1 h).2

theorem walk_mono {names : List Text} (hdirectories : ∀ d, t.IsDirectory d → t'.IsDirectory d)
    (h : t.walk l names = .ok l') : t'.walk l names = .ok l' := by
  induction names generalizing l with
  | nil => exact h
  | cons name rest ih =>
    obtain ⟨hd, hrest⟩ := walk_cons_eq_ok_iff.1 h
    exact walk_cons_eq_ok_iff.2 ⟨hdirectories l hd, ih hrest⟩

theorem find_eq_ok_iff {path : Text} {e : Entry} :
    t.find path = .ok e ↔ ∃ l, t.locate path = .ok l ∧ t.entryAt l = some e := by
  rw [find]
  cases t.locate path with
  | error fault => simp [bind, Except.bind]
  | ok l =>
    cases he : t.entryAt l <;>
      simp [bind, Except.bind, he, throw, throwThe, MonadExceptOf.throw, pure, Except.pure]

theorem read_eq_ok_iff {path content : Text} : t.read path = .ok content ↔ t.find path = .ok (.file content) := by
  rw [read]
  split <;> rename_i hfind <;> simp [hfind]

/-! ### Well-formed trees -/

/-- Everything lies in a directory, and so does the way to the working directory. -/
structure WellFormed (t : FileTree) : Prop where
  parent : ∀ {l e}, t.entryAt l = some e → t.IsDirectory l.dropLast
  cwd : t.IsDirectory t.cwd

theorem mem_of_lookup {α β : Type} [BEq α] [LawfulBEq α] {entries : List (α × β)} {a : α} {b : β}
    (h : entries.lookup a = some b) : (a, b) ∈ entries := by
  induction entries with
  | nil => simp at h
  | cons first rest ih =>
    obtain ⟨k, e⟩ := first
    rw [List.lookup_cons] at h
    split at h
    · rename_i hk
      obtain rfl := Option.some.inj h
      rw [eq_of_beq hk]
      exact List.mem_cons_self ..
    · exact List.mem_cons_of_mem _ (ih h)

/-- To see that a tree is well formed it is enough to look through its entries. -/
theorem wellFormed_of_entries (hentries : ∀ x ∈ t.entries, t.IsDirectory x.1.dropLast) (hcwd : t.IsDirectory t.cwd) :
    t.WellFormed := by
  refine ⟨fun {l e} he => ?_, hcwd⟩
  rw [entryAt] at he
  split at he
  · rename_i hempty
    rw [List.isEmpty_iff.1 hempty]
    exact isDirectory_root t
  · exact hentries _ (mem_of_lookup he)

namespace WellFormed

theorem isDirectory_origin (h : t.WellFormed) (path : Text) : t.IsDirectory (t.origin path) := by
  rw [origin]
  split
  · exact isDirectory_root t
  · exact h.cwd

theorem parent_append (h : t.WellFormed) {name : Text} {e : Entry} (he : t.entryAt (l ++ [name]) = some e) :
    t.IsDirectory l := by
  have hparent := h.parent he
  rwa [List.dropLast_concat] at hparent

theorem put (h : t.WellFormed) {name : Text} (hl : t.IsDirectory l) (hne : ¬t.IsDirectory (l ++ [name])) (e : Entry) :
    (t.put (l ++ [name]) e).WellFormed := by
  have hkeeps : ∀ d, t.IsDirectory d → (t.put (l ++ [name]) e).IsDirectory d := by
    intro d hd
    have hother : d ≠ l ++ [name] := fun heq => hne (heq ▸ hd)
    rwa [IsDirectory, entryAt_put, if_neg hother]
  refine ⟨?_, hkeeps _ h.cwd⟩
  intro l' e' he'
  rw [entryAt_put] at he'
  split at he'
  · rename_i heq
    rw [heq, List.dropLast_concat]
    exact hkeeps l hl
  · exact hkeeps _ (h.parent he')

theorem drop (h : t.WellFormed) {name : Text} (hne : ¬t.IsDirectory (l ++ [name])) :
    (t.drop (l ++ [name])).WellFormed := by
  have hkeeps : ∀ d, t.IsDirectory d → (t.drop (l ++ [name])).IsDirectory d := by
    intro d hd
    have hother : d ≠ l ++ [name] := fun heq => hne (heq ▸ hd)
    rwa [IsDirectory, entryAt_drop, if_neg hother]
  refine ⟨?_, hkeeps _ h.cwd⟩
  intro l' e' he'
  rw [entryAt_drop] at he'
  split at he'
  · cases he'
  · exact hkeeps _ (h.parent he')

theorem isDirectory_ups (h : t.WellFormed) {ups : List Text} (hups : ∀ u ∈ ups, u = Path.above) :
    ∀ {l}, t.IsDirectory l → t.IsDirectory (reach l ups) := by
  induction ups with
  | nil => exact fun hl => hl
  | cons up ups ih =>
    intro l hl
    rw [List.forall_mem_cons] at hups
    obtain ⟨rfl, hups⟩ := hups
    exact ih hups (h.parent hl)

/-- Normal names that lead to something pass through directories only. -/
theorem isDirectory_reach (h : t.WellFormed) (hl : t.IsDirectory l) {absolute : Bool} {names : List Text}
    {name : Text} (hnormal : Normal absolute (names ++ [name])) {e : Entry}
    (he : t.entryAt (reach l (names ++ [name])) = some e) : t.IsDirectory (reach l names) := by
  rcases hnormal.last with hplain | hups
  · rw [reach_append_plain l names hplain] at he
    exact h.parent_append he
  · exact h.isDirectory_ups hups hl

theorem walk_reach (h : t.WellFormed) (hl : t.IsDirectory l) {absolute : Bool} {names : List Text}
    (hnormal : Normal absolute names) {e : Entry} (he : t.entryAt (reach l names) = some e) :
    t.walk l names = .ok (reach l names) := by
  induction hn : names.length generalizing names e with
  | zero =>
    rw [List.length_eq_zero_iff] at hn
    subst hn
    rfl
  | succ n ih =>
    obtain ⟨front, name, rfl⟩ : ∃ front name, names = front ++ [name] :=
      ⟨_, _, (List.dropLast_concat_getLast (by intro hnil; simp [hnil] at hn)).symm⟩
    have hfront := h.isDirectory_reach hl hnormal he
    rw [walk_append_eq_ok_iff]
    refine ⟨_, ih hnormal.front hfront (by simpa using hn), ?_⟩
    rw [walk_cons_eq_ok_iff, reach_append]
    exact ⟨hfront, rfl⟩

end WellFormed

/-! ### A name in a directory -/

/-- Where the normal form of a directory's path leads. -/
def folder (t : FileTree) (dir : Text) : Location := reach (t.origin dir) (Path.names dir)

variable {dir name : Text}

theorem origin_lead_append {absolute : Bool} {names : List Text} (h : Normal absolute names) {rest : Text}
    (hrest : names = [] → Path.isAbsolute rest = false) :
    t.origin (lead absolute names ++ rest) = if absolute then [] else t.cwd := by
  rw [origin, Path.isAbsolute_lead_append h hrest]

theorem locate_join (hname : Plain name) :
    t.locate (Path.join [dir, name]) =
      t.walk (t.origin dir) (rootPieces (Path.isAbsolute dir) ++ Path.names dir ++ [name]) := by
  have hnormal := Path.names_normal dir
  rw [Path.join_eq hname, locate, if_neg (by simp [hname.ne_nil]),
    origin_lead_append hnormal fun _ => Path.isAbsolute_eq_false hname.ne_nil hname.slash_notMem,
    Path.splitOn_lead_append hnormal.slash_notMem, Text.splitOn_of_notMem slash hname.slash_notMem]
  rfl

theorem walk_rootPieces (t : FileTree) (dir : Text) (names : List Text) :
    t.walk (t.origin dir) (rootPieces (Path.isAbsolute dir) ++ names) = t.walk (t.origin dir) names := by
  rw [origin]
  cases Path.isAbsolute dir <;> rfl

theorem WellFormed.locate_join_eq_ok (h : t.WellFormed) (hname : Plain name) (hdir : t.IsDirectory (t.folder dir)) :
    t.locate (Path.join [dir, name]) = .ok (t.folder dir ++ [name]) := by
  rw [locate_join hname, List.append_assoc, walk_rootPieces, walk_append_eq_ok_iff]
  refine ⟨_, h.walk_reach (h.isDirectory_origin dir) (Path.names_normal dir) hdir, ?_⟩
  rw [walk_cons_eq_ok_iff, stepTo_plain hname]
  exact ⟨hdir, rfl⟩

theorem eq_of_locate_join (hname : Plain name) (hl : t.locate (Path.join [dir, name]) = .ok l) :
    l = t.folder dir ++ [name] := by
  rw [locate_join hname, List.append_assoc, walk_rootPieces] at hl
  rw [eq_reach_of_walk hl, reach_append_plain _ _ hname]
  rfl

/-- What is found at a plain name in a directory is the entry there. -/
theorem WellFormed.find_join_eq_ok_iff (h : t.WellFormed) (hname : Plain name) {e : Entry} :
    t.find (Path.join [dir, name]) = .ok e ↔ t.entryAt (t.folder dir ++ [name]) = some e := by
  rw [find_eq_ok_iff]
  constructor
  · rintro ⟨l, hl, he⟩
    rwa [← eq_of_locate_join hname hl]
  · intro he
    exact ⟨_, h.locate_join_eq_ok hname (h.parent_append he), he⟩

theorem WellFormed.read_join_eq_ok_iff (h : t.WellFormed) (hname : Plain name) {content : Text} :
    t.read (Path.join [dir, name]) = .ok content ↔
      t.entryAt (t.folder dir ++ [name]) = some (.file content) := by
  rw [read_eq_ok_iff, h.find_join_eq_ok_iff hname]

theorem WellFormed.has_join_iff (h : t.WellFormed) (hname : Plain name) :
    t.has (Path.join [dir, name]) ↔ ∃ e, t.entryAt (t.folder dir ++ [name]) = some e := by
  simp only [← h.find_join_eq_ok_iff hname, has]
  cases t.find (Path.join [dir, name]) <;> simp [Except.isOk, Except.toBool]

/-! ### New entries -/

/-- A new entry goes below a directory that is there. -/
theorem locateNew_eq_ok_iff {path : Text} {absolute : Bool} {names : List Text} {o : Option Location}
    (h : Path.Spells path absolute names name) (hnormal : Normal absolute (names ++ [name])) :
    t.locateNew path = .ok o ↔ ∃ l, t.walk (t.origin path) names = .ok l ∧ t.IsDirectory l ∧
      o = if name = Path.above then none else some (l ++ [name]) := by
  have hne : name ≠ [] := hnormal.ne_nil name (by simp)
  have hslash : slash ∉ name := hnormal.slash_notMem name (by simp)
  have hpieces : ((Path.withoutTrailing path).splitOn slash).reverse =
      name :: (rootPieces absolute ++ names).reverse := by
    rw [h.withoutTrailing hne hslash, Path.splitOn_lead_append hnormal.front.slash_notMem,
      Text.splitOn_of_notMem slash hslash, List.reverse_append, List.reverse_singleton, List.singleton_append]
  have hwalk : t.walk (t.origin path) (rootPieces absolute ++ names) = t.walk (t.origin path) names := by
    rw [← h.isAbsolute hnormal, walk_rootPieces]
  rw [locateNew, if_neg (by simp [h.ne_nil hne]), hpieces]
  simp only [List.reverse_reverse, hwalk]
  cases t.walk (t.origin path) names with
  | error fault => simp [bind, Except.bind]
  | ok l =>
    simp only [bind, Except.bind, Except.ok.injEq, exists_eq_left']
    cases hdirectory : t.asDirectory l with
    | error fault =>
      simp only [reduceCtorEq, false_iff, not_and]
      intro hl
      rw [asDirectory_eq_ok_iff.2 ⟨hl, rfl⟩] at hdirectory
      cases hdirectory
    | ok l' =>
      obtain ⟨hl, rfl⟩ := asDirectory_eq_ok_iff.1 hdirectory
      rcases hnormal.above_or_plain name (by simp) with rfl | hplain
      · simp only [hl, beq_self_eq_true, Bool.or_true, if_true, pure, Except.pure, Except.ok.injEq, true_and]
        exact eq_comm
      · simp only [hl, beq_iff_eq, Bool.or_eq_true, hplain.ne_nil, hplain.ne_here, hplain.ne_above, or_self, if_false,
          pure, Except.pure, Except.ok.injEq, true_and]
        exact eq_comm

theorem spells_join (hname : Plain name) :
    Path.Spells (Path.join [dir, name]) (Path.isAbsolute dir) (Path.names dir) name := .inl (Path.join_eq hname)

theorem origin_join (hname : Plain name) : t.origin (Path.join [dir, name]) = t.origin dir := by
  rw [origin, (spells_join hname).isAbsolute ((Path.names_normal dir).append_plain hname), origin]

theorem getLast?_join_ne (hname : Plain name) : (Path.join [dir, name]).getLast? ≠ some slash := by
  obtain ⟨init, last, rfl⟩ : ∃ init last, name = init ++ [last] :=
    ⟨_, _, (List.dropLast_concat_getLast hname.ne_nil).symm⟩
  rw [Path.join_eq hname, ← List.append_assoc, List.getLast?_concat]
  intro hlast
  exact hname.slash_notMem (by simp [Option.some.inj hlast])

theorem WellFormed.locateNew_join_eq_ok_iff (h : t.WellFormed) (hname : Plain name) {o : Option Location} :
    t.locateNew (Path.join [dir, name]) = .ok o ↔ t.IsDirectory (t.folder dir) ∧ o = some (t.folder dir ++ [name]) := by
  rw [locateNew_eq_ok_iff (spells_join hname) ((Path.names_normal dir).append_plain hname), origin_join hname]
  simp only [if_neg hname.ne_above]
  constructor
  · rintro ⟨l, hwalk, hl, rfl⟩
    obtain rfl := eq_reach_of_walk hwalk
    exact ⟨hl, rfl⟩
  · rintro ⟨hdir, rfl⟩
    exact ⟨_, h.walk_reach (h.isDirectory_origin dir) (Path.names_normal dir) hdir, hdir, rfl⟩

/-- What becomes of a file that is written: it cannot be opened, or the device decides. -/
theorem WellFormed.write_join (h : t.WellFormed) (dir : Text) (hname : Plain name) (content : Text) (d : Device) :
    (∃ e, t.write (Path.join [dir, name]) content d = .error ⟨e, t⟩) ∧
        (t.IsDirectory (t.folder dir) → t.IsDirectory (t.folder dir ++ [name])) ∨
      t.IsDirectory (t.folder dir) ∧ ¬t.IsDirectory (t.folder dir ++ [name]) ∧
        t.write (Path.join [dir, name]) content d =
          t.writeAt (t.folder dir ++ [name]) (Path.join [dir, name]) content d := by
  rw [write]
  cases hlocate : t.locateNew (Path.join [dir, name]) with
  | error fault =>
    refine .inl ⟨⟨_, rfl⟩, fun hdir => ?_⟩
    rw [(h.locateNew_join_eq_ok_iff hname).2 ⟨hdir, rfl⟩] at hlocate
    cases hlocate
  | ok o =>
    obtain ⟨hdir, rfl⟩ := (h.locateNew_join_eq_ok_iff hname).1 hlocate
    by_cases hplace : t.IsDirectory (t.folder dir ++ [name])
    · refine .inl ⟨⟨⟨.opening, Path.join [dir, name], .isDirectory⟩, ?_⟩, fun _ => hplace⟩
      simp [show t.entryAt _ = _ from hplace]
    · have hentry : t.entryAt (t.folder dir ++ [name]) ≠ some .directory := hplace
      refine .inr ⟨hdir, hplace, ?_⟩
      simp only [hentry, getLast?_join_ne hname, Bool.or_eq_true, beq_iff_eq, or_self, if_false]

/-- A file can be written where a directory is below, none is in its place and the device does it. -/
theorem WellFormed.write_join_eq_ok_iff (h : t.WellFormed) (hname : Plain name) {content : Text} {d : Device} :
    t.write (Path.join [dir, name]) content d = .ok t' ↔
      t.IsDirectory (t.folder dir) ∧ ¬t.IsDirectory (t.folder dir ++ [name]) ∧
        d.writing (Path.join [dir, name]) = none ∧ t' = t.put (t.folder dir ++ [name]) (.file content) := by
  rcases h.write_join dir hname content d with ⟨⟨e, hwrite⟩, hplace⟩ | ⟨hdir, hplace, hwrite⟩
  · rw [hwrite]
    simp only [reduceCtorEq, false_iff]
    rintro ⟨hdir, hne, -⟩
    exact hne (hplace hdir)
  · rw [hwrite, writeAt]
    cases d.writing (Path.join [dir, name]) with
    | none => simp [hdir, hplace, eq_comm]
    | some trouble => cases trouble <;> simp

/-- A file that cannot be written is as it was, or the device broke off writing it. -/
theorem WellFormed.write_join_error (h : t.WellFormed) (hname : Plain name) {content : Text} {d : Device}
    {e : FileFailure} (herror : t.write (Path.join [dir, name]) content d = .error e) :
    e.files = t ∨ ∃ reason count, d.writing (Path.join [dir, name]) = some (.brokenOff reason count) ∧
      t.IsDirectory (t.folder dir) ∧ ¬t.IsDirectory (t.folder dir ++ [name]) ∧
      e.files = t.put (t.folder dir ++ [name]) (.file (content.take count)) := by
  rcases h.write_join dir hname content d with ⟨⟨e', hwrite⟩, -⟩ | ⟨hdir, hplace, hwrite⟩
  · rw [hwrite] at herror
    cases herror
    exact .inl rfl
  · rw [hwrite, writeAt] at herror
    split at herror
    · cases herror
    · cases herror
      exact .inl rfl
    · next reason count hwriting =>
      cases herror
      exact .inr ⟨reason, count, hwriting, hdir, hplace, rfl⟩

/-- Removing a file takes it away, and nothing else, unless the device does not do it. -/
theorem WellFormed.remove_join (h : t.WellFormed) (hname : Plain name) {content : Text}
    (he : t.entryAt (t.folder dir ++ [name]) = some (.file content)) (d : Device) :
    (t.remove (Path.join [dir, name]) d).toOption.getD t =
      if d.removing (Path.join [dir, name]) = none then t.drop (t.folder dir ++ [name]) else t := by
  rw [remove, h.locate_join_eq_ok hname (h.parent_append he)]
  simp only [he]
  cases d.removing (Path.join [dir, name]) with
  | none => rfl
  | some reason => rfl

end RatLang.FileTree
