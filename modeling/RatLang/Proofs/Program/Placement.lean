import RatLang.Program.Instruction

/-!
# Code at an index

Instructions are numbered from 1. `Code.Each P n part` says that the instructions of a part have a
property where they stand, the first of them at index `n`; `Code.Holds code n part` says that the code
has the part there. Parts that follow each other are taken one behind the other.
-/
namespace RatLang

namespace Code

theorem at?_succ (code : Code) (k : Nat) : code.at? (k + 1 : Nat) = code[k]? := by
  unfold at? place?
  split
  · simp
  · rename_i h
    rw [List.getElem?_eq_none (by omega)]
    rfl

@[simp] theorem at?_zero (code : Code) : code.at? 0 = none := by
  simp [at?, place?]

theorem at?_pred (code : Code) {k : Nat} (hk : 1 ≤ k) : code.at? k = code[k - 1]? := by
  obtain ⟨j, rfl⟩ : ∃ j, k = j + 1 := ⟨k - 1, by omega⟩
  exact at?_succ code j

theorem at?_bounds {code : Code} {k : Nat} {i : Instruction} (h : code.at? k = some i) :
    1 ≤ k ∧ k ≤ code.length := by
  cases k with
  | zero => simp at h
  | succ k =>
    rw [at?_succ] at h
    have := (List.getElem?_eq_some_iff.1 h).1
    omega

theorem mem_of_at? {code : Code} {k : Nat} {i : Instruction} (h : code.at? k = some i) : i ∈ code := by
  cases k with
  | zero => simp at h
  | succ k => rw [at?_succ] at h; exact List.mem_of_getElem? h

/-- Every instruction of a part that begins at index `n` has a property at its index. -/
def Each (P : Nat → Instruction → Prop) : Nat → Code → Prop
  | _, [] => True
  | n, i :: rest => P n i ∧ Each P (n + 1) rest

theorem each_append {P : Nat → Instruction → Prop} (a b : Code) :
    ∀ n, Each P n (a ++ b) ↔ Each P n a ∧ Each P (n + a.length) b := by
  induction a with
  | nil => intro n; simp [Each]
  | cons i a ih =>
    intro n
    simp only [List.cons_append, Each, ih, List.length_cons, and_assoc]
    rw [show n + 1 + a.length = n + (a.length + 1) by omega]

theorem each_iff {P : Nat → Instruction → Prop} {part : Code} :
    ∀ {n : Nat}, Each P n part ↔ ∀ (k : Nat) i, part[k]? = some i → P (n + k) i := by
  induction part with
  | nil => simp [Each]
  | cons j part ih =>
    intro n
    rw [Each, ih]
    constructor
    · rintro ⟨hj, h⟩ k i hi
      cases k with
      | zero =>
        cases hi
        exact hj
      | succ k =>
        rw [show n + (k + 1) = n + 1 + k by omega]
        exact h k i hi
    · intro h
      refine ⟨h 0 j rfl, fun k i hi => ?_⟩
      rw [show n + 1 + k = n + (k + 1) by omega]
      exact h (k + 1) i hi

theorem Each.mono {P Q : Nat → Instruction → Prop} {part : Code} {n : Nat} (hpart : Each P n part)
    (h : ∀ {k i}, P k i → Q k i) : Each Q n part :=
  each_iff.2 fun k i hi => h (each_iff.1 hpart k i hi)

/-- For code behind other code: every instruction of it has the property at its index. -/
theorem each_iff_behind {P : Nat → Instruction → Prop} {before part : Code} :
    Each P (before.length + 1) part ↔
      ∀ (k : Nat) i, before.length < k → at? (before ++ part) k = some i → P k i := by
  rw [each_iff]
  constructor
  · intro h k i hk hi
    obtain ⟨j, rfl⟩ : ∃ j, k = before.length + 1 + j := ⟨k - (before.length + 1), by omega⟩
    rw [show before.length + 1 + j = before.length + j + 1 by omega, at?_succ,
      List.getElem?_append_right (by omega), Nat.add_sub_cancel_left] at hi
    exact h j i hi
  · intro h k i hi
    refine h _ i (by omega) ?_
    rw [show before.length + 1 + k = before.length + k + 1 by omega, at?_succ,
      List.getElem?_append_right (by omega), Nat.add_sub_cancel_left]
    exact hi

/-- For the whole code: every instruction has the property at its index. -/
theorem each_iff_at? {P : Nat → Instruction → Prop} {code : Code} :
    Each P 1 code ↔ ∀ (k : Nat) i, code.at? k = some i → P k i := by
  have hbehind : Each P 1 code ↔ ∀ (k : Nat) i, 0 < k → code.at? k = some i → P k i :=
    @each_iff_behind P [] code
  rw [hbehind]
  constructor
  · exact fun h k i hi => h k i (at?_bounds hi).1 hi
  · exact fun h k i _ hi => h k i hi

/-- The code has the given part from index `n` on. -/
def Holds (code : Code) : Nat → Code → Prop := Each fun k i => code.at? k = some i

theorem holds_append {code : Code} (a b : Code) (n : Nat) :
    code.Holds n (a ++ b) ↔ code.Holds n a ∧ code.Holds (n + a.length) b :=
  each_append a b n

theorem holds_cons {code : Code} {n : Nat} {i : Instruction} {rest : Code} :
    code.Holds n (i :: rest) ↔ code.at? n = some i ∧ code.Holds (n + 1) rest :=
  Iff.rfl

theorem holds_singleton {code : Code} {n : Nat} {i : Instruction} :
    code.Holds n [i] ↔ code.at? n = some i := by
  simp [Holds, Each]

theorem holds_behind (before : Code) :
    ∀ part : Code, Holds (before ++ part) (before.length + 1) part := by
  intro part
  induction part generalizing before with
  | nil => trivial
  | cons i part ih =>
    have hhead : at? (before ++ i :: part) (before.length + 1 : Nat) = some i := by rw [at?_succ]; simp
    have htail := ih (before ++ [i])
    rw [List.append_assoc, List.singleton_append, List.length_append] at htail
    exact ⟨hhead, htail⟩

theorem holds_self (code : Code) : code.Holds 1 code := holds_behind [] code

end Code

end RatLang
