import RatLang.Path
import RatLang.Proofs.Text.Split

/-!
# Normal paths

The names of a normal path go up first and then down through plain names (`Path.Normal`), and the normal form
of a path has such names (`names_normal`). The path of a plain name in a directory is spelled by the names
of the directory and that name (`join_eq`), and its parent by the names of the directory (`parent_join`). A path
in a directory is its last name in the directory that it goes to (`join_append`).
-/
namespace RatLang.Path

/-- A name that leads one step down. -/
structure Plain (name : Text) : Prop where
  ne_nil : name ≠ []
  ne_here : name ≠ here
  ne_above : name ≠ above
  slash_notMem : slash ∉ name

/-- Names that go up, in a relative path only, and then down. -/
def Normal (absolute : Bool) (names : List Text) : Prop :=
  ∃ ups downs, names = ups ++ downs ∧ (∀ u ∈ ups, u = above) ∧ (∀ d ∈ downs, Plain d) ∧ (absolute → ups = [])

theorem Normal.above_or_plain {absolute : Bool} {names : List Text} (h : Normal absolute names) :
    ∀ n ∈ names, n = above ∨ Plain n := by
  obtain ⟨ups, downs, rfl, hups, hdowns, -⟩ := h
  intro n hn
  rcases List.mem_append.1 hn with hn | hn
  · exact .inl (hups n hn)
  · exact .inr (hdowns n hn)

theorem Normal.slash_notMem {absolute : Bool} {names : List Text} (h : Normal absolute names) :
    ∀ n ∈ names, slash ∉ n := by
  intro n hn
  rcases h.above_or_plain n hn with rfl | hplain
  · decide
  · exact hplain.slash_notMem

theorem Normal.ne_nil {absolute : Bool} {names : List Text} (h : Normal absolute names) : ∀ n ∈ names, n ≠ [] := by
  intro n hn
  rcases h.above_or_plain n hn with rfl | hplain
  · decide
  · exact hplain.ne_nil

theorem Normal.nil (absolute : Bool) : Normal absolute [] := ⟨[], [], rfl, by simp, by simp, fun _ => rfl⟩

theorem Normal.append_plain {absolute : Bool} {names : List Text} (h : Normal absolute names) {name : Text}
    (hname : Plain name) : Normal absolute (names ++ [name]) := by
  obtain ⟨ups, downs, rfl, hups, hdowns, habsolute⟩ := h
  refine ⟨ups, downs ++ [name], List.append_assoc .., hups, ?_, habsolute⟩
  intro d hd
  rcases List.mem_append.1 hd with hd | hd
  · exact hdowns d hd
  · exact List.mem_singleton.1 hd ▸ hname

theorem Normal.front {absolute : Bool} {names : List Text} {name : Text} (h : Normal absolute (names ++ [name])) :
    Normal absolute names := by
  obtain ⟨ups, downs, hsplit, hups, hdowns, habsolute⟩ := h
  rcases List.eq_nil_or_concat downs with rfl | ⟨downs', last, rfl⟩
  · rw [List.append_nil] at hsplit
    subst hsplit
    exact ⟨names, [], (List.append_nil _).symm, fun u hu => hups u (List.mem_append_left _ hu), by simp,
      fun h => absurd (habsolute h) (by simp)⟩
  · rw [List.concat_eq_append, ← List.append_assoc] at hsplit
    obtain ⟨rfl, -⟩ := List.append_inj' hsplit rfl
    exact ⟨ups, downs', rfl, hups, fun d hd => hdowns d (by simp [hd]), habsolute⟩

/-- The last name goes down, or all names go up. -/
theorem Normal.last {absolute : Bool} {names : List Text} {name : Text} (h : Normal absolute (names ++ [name])) :
    Plain name ∨ ∀ n ∈ names, n = above := by
  obtain ⟨ups, downs, hsplit, hups, hdowns, -⟩ := h
  rcases List.eq_nil_or_concat downs with rfl | ⟨downs', last, rfl⟩
  · rw [List.append_nil] at hsplit
    subst hsplit
    exact .inr fun n hn => hups n (List.mem_append_left _ hn)
  · rw [List.concat_eq_append, ← List.append_assoc] at hsplit
    obtain ⟨-, hlast⟩ := List.append_inj' hsplit rfl
    obtain rfl : name = last := (List.cons.inj hlast).1
    exact .inl (hdowns name (by simp))

/-! ### Following names -/

theorem follow_plain {absolute : Bool} {stack : List Text} {name : Text} (h : Plain name) :
    follow absolute stack name = name :: stack := by
  simp [follow, h.ne_nil, h.ne_here, h.ne_above]

theorem follow_nil (absolute : Bool) (stack : List Text) : follow absolute stack [] = stack := by simp [follow]

theorem follow_above_nil (absolute : Bool) :
    follow absolute [] above = if absolute then [] else [above] := by
  simp [follow, above, here]

theorem follow_above_cons (absolute : Bool) (top : Text) (below : List Text) :
    follow absolute (top :: below) above = if top = above then above :: top :: below else below := by
  by_cases htop : top = above
  · rw [if_pos htop, htop]
    rfl
  · rw [if_neg htop]
    simp [follow, htop, show above ≠ [] by decide, show above ≠ here by decide]

/-- The stack of names stays normal. -/
theorem follow_normal {absolute : Bool} {stack : List Text} (h : Normal absolute stack.reverse) {name : Text}
    (hname : slash ∉ name) : Normal absolute (follow absolute stack name).reverse := by
  by_cases hstay : name = [] ∨ name = here
  · have hfollow : follow absolute stack name = stack := by simp [follow, hstay]
    rwa [hfollow]
  rw [not_or] at hstay
  by_cases habove : name = above
  · subst habove
    obtain ⟨ups, downs, hsplit, hups, hdowns, habsolute⟩ := h
    cases stack with
    | nil =>
      rw [follow_above_nil]
      cases absolute with
      | true => exact .nil _
      | false => exact ⟨[above], [], rfl, by simp, by simp, by simp⟩
    | cons top below =>
      rw [follow_above_cons]
      rw [List.reverse_cons] at hsplit
      -- whether the way so far ends in a plain name or goes up only
      cases hlast : downs.getLast? with
      | none =>
        rw [List.getLast?_eq_none_iff] at hlast
        subst hlast
        rw [List.append_nil] at hsplit
        subst hsplit
        have htop : top = above := hups top (by simp)
        subst htop
        have hfalse : absolute = false := by
          cases absolute with
          | false => rfl
          | true => simp at habsolute
        rw [if_pos rfl]
        refine ⟨below.reverse ++ [above] ++ [above], [], by simp, ?_, by simp, by simp [hfalse]⟩
        intro u hu
        rcases List.mem_append.1 hu with hu | hu
        · exact hups u hu
        · exact List.mem_singleton.1 hu
      | some last =>
        obtain ⟨front, rfl⟩ := List.getLast?_eq_some_iff.1 hlast
        rw [← List.append_assoc] at hsplit
        obtain ⟨hbelow, htop⟩ := List.append_inj' hsplit rfl
        obtain rfl : top = last := List.cons.inj htop |>.1
        have hplain : Plain top := hdowns top (by simp)
        rw [if_neg hplain.ne_above]
        exact ⟨ups, front, hbelow, hups, fun d hd => hdowns d (by simp [hd]), habsolute⟩
  · have hplain : Plain name := ⟨hstay.1, hstay.2, habove, hname⟩
    rw [follow_plain hplain, List.reverse_cons]
    exact h.append_plain hplain

theorem foldl_follow_normal {absolute : Bool} (pieces : List Text) : ∀ {stack : List Text},
    Normal absolute stack.reverse → (∀ p ∈ pieces, slash ∉ p) →
      Normal absolute (pieces.foldl (follow absolute) stack).reverse := by
  induction pieces with
  | nil => exact fun h _ => h
  | cons piece pieces ih =>
    intro stack h hpieces
    rw [List.forall_mem_cons] at hpieces
    exact ih (follow_normal h hpieces.1) hpieces.2

theorem names_normal (p : Text) : Normal (isAbsolute p) (names p) :=
  foldl_follow_normal _ (.nil _) fun _ h => Text.notMem_of_mem_splitOn slash h

theorem follow_above {stack : List Text} (h : ∀ name ∈ stack, name = above) :
    follow false stack above = above :: stack := by
  cases stack with
  | nil => exact follow_above_nil false
  | cons top below => rw [follow_above_cons, if_pos (h top (List.mem_cons_self ..))]

theorem foldl_follow_ups {ups : List Text} (hups : ∀ u ∈ ups, u = above) : ∀ {stack : List Text},
    (∀ name ∈ stack, name = above) → ups.foldl (follow false) stack = ups.reverse ++ stack := by
  induction ups with
  | nil => exact fun _ => rfl
  | cons up ups ih =>
    intro stack hstack
    rw [List.forall_mem_cons] at hups
    obtain ⟨rfl, hups⟩ := hups
    rw [List.foldl_cons, follow_above hstack, ih hups (List.forall_mem_cons.2 ⟨rfl, hstack⟩),
      List.reverse_cons, List.append_assoc, List.singleton_append]

theorem foldl_follow_downs {absolute : Bool} {downs : List Text} (hdowns : ∀ d ∈ downs, Plain d)
    (stack : List Text) : downs.foldl (follow absolute) stack = downs.reverse ++ stack := by
  induction downs generalizing stack with
  | nil => rfl
  | cons down downs ih =>
    rw [List.forall_mem_cons] at hdowns
    rw [List.foldl_cons, follow_plain hdowns.1, ih hdowns.2, List.reverse_cons, List.append_assoc,
      List.singleton_append]

/-- Normal names are followed as they are. -/
theorem foldl_follow_of_normal {absolute : Bool} {names : List Text} (h : Normal absolute names) :
    names.foldl (follow absolute) [] = names.reverse := by
  obtain ⟨ups, downs, rfl, hups, hdowns, habsolute⟩ := h
  have hstart : ups.foldl (follow absolute) [] = ups.reverse := by
    cases absolute with
    | true => rw [habsolute rfl, List.foldl_nil, List.reverse_nil]
    | false => rw [foldl_follow_ups hups (by simp), List.append_nil]
  rw [List.foldl_append, hstart, foldl_follow_downs hdowns, List.reverse_append]

/-! ### Spelling names -/

/-- The text of a path up to its last name: a slash for the root, and each name with a slash. -/
def lead (absolute : Bool) (names : List Text) : Text :=
  (if absolute then [slash] else []) ++ names.flatMap (· ++ [slash])

/-- The pieces of the root: the empty text in front of its slash. -/
def rootPieces (absolute : Bool) : List Text := if absolute then [[]] else []

theorem lead_append (absolute : Bool) (names : List Text) (name : Text) :
    lead absolute (names ++ [name]) = lead absolute names ++ name ++ [slash] := by
  simp [lead, List.append_assoc]

theorem splitOn_lead_append {absolute : Bool} {names : List Text} (h : ∀ n ∈ names, slash ∉ n) (rest : Text) :
    (lead absolute names ++ rest).splitOn slash = rootPieces absolute ++ names ++ rest.splitOn slash := by
  have hnames : Text.splitOn slash (names.flatMap (· ++ [slash]) ++ rest) = names ++ rest.splitOn slash := by
    induction names with
    | nil => rfl
    | cons name names ih =>
      rw [List.forall_mem_cons] at h
      rw [List.flatMap_cons, List.append_assoc, List.append_assoc, List.singleton_append, Text.splitOn_append_sep,
        Text.splitOn_of_notMem slash h.1, ih h.2, List.singleton_append, List.cons_append]
  cases absolute with
  | true =>
    rw [lead, if_pos rfl, List.append_assoc, List.singleton_append, Text.splitOn_sep, hnames]
    rfl
  | false => exact hnames

theorem splitOn_lead {absolute : Bool} {names : List Text} (h : ∀ n ∈ names, slash ∉ n) :
    (lead absolute names).splitOn slash = rootPieces absolute ++ names ++ [[]] := by
  have hpieces := @splitOn_lead_append absolute names h []
  rwa [List.append_nil] at hpieces

theorem isAbsolute_eq_false {name : Text} (hne : name ≠ []) (hslash : slash ∉ name) : isAbsolute name = false := by
  obtain ⟨b, bs, rfl⟩ := List.exists_cons_of_ne_nil hne
  rw [List.mem_cons, not_or] at hslash
  simp [isAbsolute, Ne.symm hslash.1]

theorem isAbsolute_lead_append {absolute : Bool} {names : List Text} (h : Normal absolute names) {rest : Text}
    (hrest : names = [] → isAbsolute rest = false) : isAbsolute (lead absolute names ++ rest) = absolute := by
  cases absolute with
  | true => rfl
  | false =>
    cases names with
    | nil => exact hrest rfl
    | cons name names =>
      have hname := isAbsolute_eq_false (h.ne_nil name (List.mem_cons_self ..))
        (h.slash_notMem name (List.mem_cons_self ..))
      obtain ⟨b, bs, hcons⟩ := List.exists_cons_of_ne_nil (h.ne_nil name (List.mem_cons_self ..))
      simpa [lead, isAbsolute, hcons] using hname

theorem foldl_follow_rootPieces (absolute : Bool) (rest : List Text) :
    (rootPieces absolute ++ rest).foldl (follow absolute) [] = rest.foldl (follow absolute) [] := by
  cases absolute with
  | true => rfl
  | false => rfl

theorem isAbsolute_lead {absolute : Bool} {names : List Text} (h : Normal absolute names) :
    isAbsolute (lead absolute names) = absolute := by
  rw [← List.append_nil (lead absolute names)]
  exact isAbsolute_lead_append h fun _ => rfl

theorem names_lead {absolute : Bool} {names : List Text} (h : Normal absolute names) :
    Path.names (lead absolute names) = names := by
  rw [Path.names, splitOn_lead h.slash_notMem, isAbsolute_lead h, List.append_assoc, foldl_follow_rootPieces,
    List.foldl_append, foldl_follow_of_normal h, List.foldl_cons, follow_nil, List.foldl_nil, List.reverse_reverse]

theorem join_append_singleton (names : List Text) (name : Text) :
    Text.join [slash] (names ++ [name]) = names.flatMap (· ++ [slash]) ++ name := by
  induction names with
  | nil => simp [Text.join]
  | cons first rest ih =>
    obtain ⟨second, more, hmore⟩ := List.exists_cons_of_ne_nil (show rest ++ [name] ≠ [] by simp)
    rw [List.cons_append, hmore, Text.join_cons_cons, ← hmore, ih]
    simp

/-- The normal path through the given names. -/
def spell (absolute : Bool) (names : List Text) : Text :=
  if absolute then slash :: Text.join [slash] names
  else if names.isEmpty then here
  else Text.join [slash] names

theorem normal_eq_spell (p : Text) : normal p = spell (isAbsolute p) (names p) := rfl

theorem spell_append (absolute : Bool) (names : List Text) (name : Text) :
    spell absolute (names ++ [name]) = lead absolute names ++ name := by
  rw [spell, join_append_singleton]
  cases absolute <;> simp [lead]

/-- A path of names, a slash behind the last one or not. -/
def Spells (p : Text) (absolute : Bool) (names : List Text) (name : Text) : Prop :=
  p = lead absolute names ++ name ∨ p = lead absolute (names ++ [name])

section Spells

variable {p : Text} {absolute : Bool} {names : List Text} {name : Text}

theorem dropWhile_slash_reverse (hne : name ≠ []) (hslash : slash ∉ name) (front : Text) :
    (front ++ name).reverse.dropWhile (· == slash) = (front ++ name).reverse := by
  obtain ⟨init, last, rfl⟩ : ∃ init last, name = init ++ [last] :=
    ⟨_, _, (List.dropLast_concat_getLast hne).symm⟩
  have hlast : last ≠ slash := fun h => hslash (by simp [h])
  rw [← List.append_assoc, List.reverse_append, List.reverse_singleton, List.singleton_append,
    List.dropWhile_cons_of_neg (by simpa using hlast)]

theorem Spells.dropWhile_reverse (h : Spells p absolute names name) (hne : name ≠ []) (hslash : slash ∉ name) :
    p.reverse.dropWhile (· == slash) = (lead absolute names ++ name).reverse := by
  rcases h with rfl | rfl
  · exact dropWhile_slash_reverse hne hslash _
  · rw [lead_append, List.reverse_append, List.reverse_singleton, List.singleton_append,
      List.dropWhile_cons_of_pos (by simp)]
    exact dropWhile_slash_reverse hne hslash _

theorem Spells.withoutTrailing (h : Spells p absolute names name) (hne : name ≠ []) (hslash : slash ∉ name) :
    Path.withoutTrailing p = lead absolute names ++ name := by
  rw [Path.withoutTrailing, h.dropWhile_reverse hne hslash, List.reverse_reverse]

theorem Spells.isAbsolute (h : Spells p absolute names name) (hnormal : Normal absolute (names ++ [name])) :
    Path.isAbsolute p = absolute := by
  rcases h with rfl | rfl
  · refine isAbsolute_lead_append hnormal.front ?_
    rintro rfl
    exact isAbsolute_eq_false (hnormal.ne_nil name (by simp)) (hnormal.slash_notMem name (by simp))
  · exact isAbsolute_lead hnormal

theorem lead_nil_or_slash (absolute : Bool) (names : List Text) :
    lead absolute names = [] ∨ ∃ front, lead absolute names = front ++ [slash] := by
  rcases List.eq_nil_or_concat names with rfl | ⟨front, name, rfl⟩
  · cases absolute with
    | true => exact .inr ⟨[], rfl⟩
    | false => exact .inl rfl
  · rw [List.concat_eq_append, lead_append]
    exact .inr ⟨_, rfl⟩

theorem Spells.ne_nil (h : Spells p absolute names name) (hne : name ≠ []) : p ≠ [] := by
  rcases h with rfl | rfl
  · simp [hne]
  · simp [lead_append]

end Spells

/-! ### A name in a directory -/

theorem join_eq {dir name : Text} (h : Plain name) :
    join [dir, name] = lead (isAbsolute dir) (names dir) ++ name := by
  have hname : name.isEmpty = false := by simp [h.ne_nil]
  cases dir with
  | nil =>
    have hjoin : join [[], name] = normal name := by simp [join, hname, Text.join]
    have hnames : names name = [] ++ [name] := by
      rw [names, Text.splitOn_of_notMem slash h.slash_notMem, List.foldl_cons, follow_plain h]
      rfl
    rw [hjoin, normal_eq_spell, hnames, isAbsolute_eq_false h.ne_nil h.slash_notMem, spell_append]
    rfl
  | cons b rest =>
    have hjoin : join [b :: rest, name] = normal (b :: rest ++ slash :: name) := by simp [join, hname, Text.join]
    have habsolute : isAbsolute (b :: rest ++ slash :: name) = isAbsolute (b :: rest) := rfl
    have hnames : names (b :: rest ++ slash :: name) = names (b :: rest) ++ [name] := by
      rw [names, habsolute, Text.splitOn_append_sep, Text.splitOn_of_notMem slash h.slash_notMem,
        List.foldl_append, List.foldl_cons, follow_plain h, List.foldl_nil, List.reverse_cons, names]
    rw [hjoin, normal_eq_spell, hnames, habsolute, spell_append]

theorem upToLastName_lead_append {absolute : Bool} {names : List Text} (hnames : ∀ n ∈ names, slash ∉ n)
    {name : Text} (h : slash ∉ name) : upToLastName (lead absolute names ++ name) = lead absolute names := by
  have hlast : lastName (lead absolute names ++ name) = name := by
    rw [lastName, splitOn_lead_append hnames, Text.splitOn_of_notMem slash h]
    simp
  rw [upToLastName, hlast, List.length_append, Nat.add_sub_cancel, List.take_left]

theorem parent_join {dir name : Text} (h : Plain name) :
    parent (join [dir, name]) = spell (isAbsolute dir) (names dir) := by
  have hnormal := names_normal dir
  rw [join_eq h, parent, upToLastName_lead_append hnormal.slash_notMem h.slash_notMem, normal_eq_spell,
    names_lead hnormal, isAbsolute_lead hnormal]

theorem isAbsolute_join {dir name : Text} (h : Plain name) : isAbsolute (join [dir, name]) = isAbsolute dir := by
  rw [join_eq h]
  exact isAbsolute_lead_append (names_normal dir) fun _ => isAbsolute_eq_false h.ne_nil h.slash_notMem

theorem names_join {dir name : Text} (h : Plain name) : names (join [dir, name]) = names dir ++ [name] := by
  have hnormal := names_normal dir
  rw [names, isAbsolute_join h, join_eq h, splitOn_lead_append hnormal.slash_notMem,
    Text.splitOn_of_notMem slash h.slash_notMem, List.append_assoc, foldl_follow_rootPieces,
    foldl_follow_of_normal (hnormal.append_plain h), List.reverse_reverse]

section

variable {last : Text}

theorem lastName_of_notMem (h : slash ∉ last) : lastName last = last := by
  simp [lastName, Text.splitOn_of_notMem slash h]

theorem lastName_append_slash (h : slash ∉ last) (upper : Text) : lastName (upper ++ slash :: last) = last := by
  rw [lastName, Text.splitOn_append_sep, Text.splitOn_of_notMem slash h]
  simp

theorem upToLastName_append_slash (h : slash ∉ last) (upper : Text) :
    upToLastName (upper ++ slash :: last) = upper ++ [slash] := by
  rw [upToLastName, lastName_append_slash h, List.append_cons, List.length_append, Nat.add_sub_cancel, List.take_left]

end

/-- A path is its last name, or that name with a slash in front of it. -/
theorem slash_cases (p : Text) : slash ∉ p ∨ ∃ upper last, slash ∉ last ∧ p = upper ++ slash :: last := by
  by_cases hslash : slash ∈ p
  · -- the last slash is the first one from behind
    obtain ⟨after, before, hsplit, hafter⟩ := List.eq_append_cons_of_mem (List.mem_reverse.2 hslash)
    refine .inr ⟨before.reverse, after.reverse, by simpa using hafter, ?_⟩
    rw [← List.reverse_reverse p, hsplit]
    simp
  · exact .inl hslash

theorem slash_notMem_lastName (p : Text) : slash ∉ lastName p := by
  rcases slash_cases p with h | ⟨upper, last, h, rfl⟩
  · rwa [lastName_of_notMem h]
  · rwa [lastName_append_slash h]

theorem upToLastName_append_lastName (p : Text) : upToLastName p ++ lastName p = p := by
  rcases slash_cases p with h | ⟨upper, last, h, rfl⟩
  · simp [upToLastName, lastName_of_notMem h]
  · simp [upToLastName_append_slash h, lastName_append_slash h]

/-- Where the last name of a path in a directory is: the text in front of it. -/
def front (dir p : Text) : Text := (if dir.isEmpty then [] else dir ++ [slash]) ++ upToLastName p

theorem front_of_notMem {p : Text} (h : slash ∉ p) (dir : Text) :
    front dir p = if dir.isEmpty then [] else dir ++ [slash] := by
  simp [front, upToLastName, lastName_of_notMem h]

theorem front_nil_or_slash (dir p : Text) : front dir p = [] ∨ ∃ upper, front dir p = upper ++ [slash] := by
  rcases slash_cases p with h | ⟨upper, last, h, rfl⟩
  · rw [front_of_notMem h]
    split
    · exact .inl rfl
    · exact .inr ⟨dir, rfl⟩
  · rw [front, upToLastName_append_slash h, ← List.append_assoc]
    exact .inr ⟨_, rfl⟩

theorem isAbsolute_append_slash (upper rest : Text) :
    isAbsolute (upper ++ slash :: rest) = isAbsolute (upper ++ [slash]) := by
  cases upper with
  | nil => rfl
  | cons b upper => rfl

theorem names_append_slash {name : Text} (h : Plain name) (upper : Text) :
    names (upper ++ slash :: name) = names (upper ++ [slash]) ++ [name] := by
  rw [names, names, isAbsolute_append_slash, Text.splitOn_append_sep, Text.splitOn_append_sep,
    Text.splitOn_of_notMem slash h.slash_notMem, Text.splitOn_of_notMem slash List.not_mem_nil, List.foldl_append,
    List.foldl_append, List.foldl_cons, follow_plain h, List.foldl_cons, follow_nil, List.foldl_nil, List.foldl_nil,
    List.reverse_cons]

/-- A name behind a text that ends in a slash is that name in the directory of the text. -/
theorem normal_append {dir name : Text} (h : Plain name) (hdir : dir = [] ∨ ∃ upper, dir = upper ++ [slash]) :
    normal (dir ++ name) = join [dir, name] := by
  rcases hdir with rfl | ⟨upper, rfl⟩
  · simp [join, Text.join, h.ne_nil]
  · rw [join_eq h, List.append_assoc, List.singleton_append, normal_eq_spell, names_append_slash h,
      isAbsolute_append_slash, spell_append]

/-- A path in a directory is its last name in the directory that it goes to. -/
theorem join_append {name rest : Text} (h : Plain (lastName name ++ rest)) (dir : Text) :
    join [dir, name ++ rest] = join [front dir name, lastName name ++ rest] := by
  have hname : name ++ rest = upToLastName name ++ (lastName name ++ rest) := by
    rw [← List.append_assoc, upToLastName_append_lastName]
  have hne : name ++ rest ≠ [] := by
    rw [hname]
    simp [h.ne_nil]
  rw [← normal_append h (front_nil_or_slash dir name), front, List.append_assoc, ← hname]
  cases dir with
  | nil => simp [join, Text.join, hne]
  | cons b dir => simp [join, Text.join, hne]

/-! ### Names that only go down -/

/-- Each name of the path but the last leads into a directory. -/
def Direct (p : Text) : Prop := ∀ name ∈ (p.splitOn slash).dropLast, Plain name

theorem splitOn_upToLastName (p : Text) :
    (upToLastName p).splitOn slash = (p.splitOn slash).dropLast ++ [[]] := by
  rcases slash_cases p with h | ⟨upper, last, h, rfl⟩
  · simp [upToLastName, lastName_of_notMem h, Text.splitOn_of_notMem slash h, Text.splitOn]
  · rw [upToLastName_append_slash h, Text.splitOn_append_sep, Text.splitOn_append_sep,
      Text.splitOn_of_notMem slash h, List.dropLast_concat]
    rfl

theorem Direct.isAbsolute_upToLastName {p : Text} (h : Direct p) : isAbsolute (upToLastName p) = false := by
  cases hupper : upToLastName p with
  | nil => rfl
  | cons b rest =>
    refine beq_false_of_ne fun hb => ?_
    obtain rfl : b = slash := Option.some.inj hb
    have hsplit := splitOn_upToLastName p
    rw [hupper, Text.splitOn_sep] at hsplit
    cases hdirs : (p.splitOn slash).dropLast with
    | nil =>
      rw [hdirs] at hsplit
      exact Text.splitOn_ne_nil slash rest (List.cons.inj hsplit).2
    | cons first others =>
      rw [hdirs] at hsplit
      exact (h first (by simp [hdirs])).ne_nil (List.cons.inj hsplit).1.symm

/-- On the way down the names are added to those of the directory. -/
theorem Direct.front {p : Text} (h : Direct p) (dir : Text) :
    isAbsolute (Path.front dir p) = isAbsolute dir ∧
      names (Path.front dir p) = names dir ++ (p.splitOn slash).dropLast := by
  have habsolute : isAbsolute (Path.front dir p) = isAbsolute dir := by
    cases dir with
    | nil => exact h.isAbsolute_upToLastName
    | cons b dir => rfl
  have hfold : ((Path.front dir p).splitOn slash).foldl (follow (isAbsolute dir)) [] =
      (dir.splitOn slash ++ (upToLastName p).splitOn slash).foldl (follow (isAbsolute dir)) [] := by
    cases dir with
    | nil => rfl
    | cons b dir =>
      have hfront : Path.front (b :: dir) p = b :: dir ++ slash :: upToLastName p := by simp [Path.front]
      rw [hfront, Text.splitOn_append_sep]
  refine ⟨habsolute, ?_⟩
  rw [names, habsolute, hfold, splitOn_upToLastName, List.foldl_append, List.foldl_append, foldl_follow_downs h,
    List.foldl_cons, follow_nil, List.foldl_nil, List.reverse_append, List.reverse_reverse, names]

end RatLang.Path
