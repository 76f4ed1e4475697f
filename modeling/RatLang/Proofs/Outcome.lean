import Mathlib.Control.Monad.Basic

/-!
# Steps that can fail

What is known when a computation made of steps has succeeded: each of its steps has. And when entries that were written
one by one are read one by one, all of them are read if each one is (`mapM_map_eq_some`).
-/
namespace RatLang

variable {ε α β : Type}

/-- Failures can be compared where values cannot. -/
instance decidableEqError [DecidableEq ε] (x : Except ε α) (e : ε) : Decidable (x = .error e) :=
  match x with
  | .error e' => decidable_of_iff (e' = e) ⟨congrArg _, Except.error.inj⟩
  | .ok _ => isFalse nofun

theorem isOk_iff {x : Except ε α} : x.isOk ↔ ∃ a, x = .ok a := by
  cases x <;> simp [Except.isOk, Except.toBool]

theorem exists_of_bind_eq_ok {x : Except ε α} {f : α → Except ε β} {r : β} (h : x >>= f = .ok r) :
    ∃ a, x = .ok a ∧ f a = .ok r := by
  cases x with
  | error e => cases h
  | ok a => exact ⟨a, rfl, h⟩

/-- A first step that can give one value only. -/
theorem bind_eq_ok_iff_of_value {x : Except ε α} {f : α → Except ε β} {P : Prop} {a : α} {r : β}
    (h : ∀ {b}, x = .ok b ↔ P ∧ b = a) : x >>= f = .ok r ↔ P ∧ f a = .ok r := by
  constructor
  · intro hr
    obtain ⟨b, hb, hr⟩ := exists_of_bind_eq_ok hr
    obtain ⟨hP, rfl⟩ := h.1 hb
    exact ⟨hP, hr⟩
  · rintro ⟨hP, hr⟩
    rw [h.2 ⟨hP, rfl⟩]
    exact hr

theorem pure_eq_ok_iff {a r : α} : (pure a : Except ε α) = .ok r ↔ r = a := by
  simp [pure, Except.pure, eq_comm]

theorem exists_of_map_eq_ok {x : Except ε α} {f : α → β} {r : β} (h : x.map f = .ok r) :
    ∃ a, x = .ok a ∧ r = f a := by
  cases x with
  | error e => cases h
  | ok a =>
    cases h
    exact ⟨a, rfl, rfl⟩

theorem eq_error_of_map_eq_error {x : Except ε α} {f : α → β} {e : ε} (h : x.map f = .error e) :
    x = .error e := by
  cases x with
  | error e' =>
    cases h
    rfl
  | ok a => cases h

theorem mapM_map_eq_some {write : α → β} {read? : β → Option α} {entries : List α}
    (h : ∀ e ∈ entries, read? (write e) = some e) : (entries.map write).mapM read? = some entries := by
  induction entries with
  | nil => rfl
  | cons e rest ih =>
    rw [List.forall_mem_cons] at h
    simp [h.1, ih h.2]

end RatLang
