import Mathlib.Logic.Function.Basic
import RatLang.Proofs.Program.Placement

/-!
# The stack machine

What instructions mean: a machine with an unbounded stack of words, a word of memory at every
address, and an index of the next instruction, the first of them being 1. It halts behind the last
instruction. Where an instruction has no meaning (a missing operand, too few values, a division without
quotient, an index without instruction) the machine is stuck.

The main tool is `Machine.haltsIn_at`: a machine at an instruction halts exactly if that instruction
can be performed and the machine halts from there.
-/
namespace RatLang

/-! ## Words -/

namespace Word

/-- The quotient toward zero. There is none for the divisor zero and for the one that is out of range. -/
def quotient? (a b : Int64) : Option Int64 :=
  if b = 0 ∨ (a = Int64.minValue ∧ b = -1) then none else some (a / b)

/-- A truth value as a word. -/
def ofBool (b : Bool) : Int64 := if b then 1 else 0

end Word

/-- The word that an operation makes of its left and its right operand. -/
def Opcode.combine? : Opcode → Int64 → Int64 → Option Int64
  | .add, l, r => some (l + r)
  | .sub, l, r => some (l - r)
  | .mul, l, r => some (l * r)
  | .div, l, r => Word.quotient? l r
  | .les, l, r => some (Word.ofBool (l < r))
  | .grt, l, r => some (Word.ofBool (l > r))
  | .leq, l, r => some (Word.ofBool (l ≤ r))
  | .geq, l, r => some (Word.ofBool (l ≥ r))
  | .neq, l, r => some (Word.ofBool (l ≠ r))
  | _, _, _ => none

/-- The operations that make one word of two. -/
def Opcode.operators : List Opcode := [.add, .sub, .mul, .div, .les, .grt, .leq, .geq, .neq]

theorem Opcode.mem_operators {t : Text} {op : Opcode} (h : Opcode.ofOperator? t = some op) :
    op ∈ Opcode.operators := by
  have row : ∀ {c : Prop} [Decidable c] {op' : Opcode} {rest : Option Opcode}, op' ∈ Opcode.operators →
      (rest = some op → op ∈ Opcode.operators) → (if c then some op' else rest) = some op →
      op ∈ Opcode.operators := by
    intro c _ op' rest hop hrest h
    by_cases hc : c
    · rw [if_pos hc] at h
      cases h
      exact hop
    · rw [if_neg hc] at h
      exact hrest h
  revert h
  unfold Opcode.ofOperator?
  iterate 9 refine row (by decide) ?_
  intro h
  cases h

/-! ## The machine -/

/-- The state of the machine. The top of the stack comes first, the oldest output first. -/
structure Machine where
  pc : Nat := 1
  stack : List Int64 := []
  memory : Int → Int64 := fun _ => 0
  output : List Int64 := []

namespace Machine

/-- The first instruction is next, the stack is empty and the memory zero. -/
def start : Machine := {}

/-- What an instruction does, if it can be performed. A jump to a negative index ends up at index 0,
where no instruction is. -/
def perform (m : Machine) (i : Instruction) : Option Machine :=
  match i.op, i.operand, m.stack with
  | .pushi, some n, stack => some { m with pc := m.pc + 1, stack := Int64.ofInt n :: stack }
  | .pushm, some a, stack => some { m with pc := m.pc + 1, stack := m.memory a :: stack }
  | .popm, some a, v :: stack =>
    some { m with pc := m.pc + 1, stack := stack, memory := Function.update m.memory a v }
  | .stdout, _, v :: stack => some { m with pc := m.pc + 1, stack := stack, output := m.output ++ [v] }
  | .jump, some t, _ => some { m with pc := t.toNat }
  | .jumpz, some t, v :: stack =>
    some { m with pc := if v = 0 then t.toNat else m.pc + 1, stack := stack }
  | op, _, right :: left :: stack =>
    (op.combine? left right).map fun v => { m with pc := m.pc + 1, stack := v :: stack }
  | _, _, _ => none

/-- One step, if there is one. -/
def step (code : Code) (m : Machine) : Option Machine := (code.at? m.pc).bind m.perform

/-- The machine after a number of steps, if it gets so far. -/
def run (code : Code) : Nat → Machine → Option Machine
  | 0, m => some m
  | n + 1, m => (m.step code).bind (run code n)

/-- The machine comes to stand behind the last instruction after `n` steps, as `last`. -/
def HaltsIn (code : Code) (n : Nat) (m last : Machine) : Prop :=
  m.run code n = some last ∧ last.pc = code.length + 1

/-- The machine comes to stand behind the last instruction. -/
def Halts (code : Code) (m last : Machine) : Prop := ∃ n, HaltsIn code n m last

theorem run_succ_last (code : Code) (n : Nat) :
    ∀ m : Machine, m.run code (n + 1) = (m.run code n).bind (step code) := by
  induction n with
  | zero => intro m; simp [run]
  | succ n ih =>
    intro m
    rw [run, run]
    cases h : m.step code with
    | none => rfl
    | some m' => exact ih m'

theorem perform_operator {op : Opcode} (h : op ∈ Opcode.operators) (pc : Nat) (left right : Int64)
    (stack : List Int64) (memory : Int → Int64) (output : List Int64) (index : Int) (operand : Option Int) :
    perform ⟨pc, right :: left :: stack, memory, output⟩ ⟨index, op, operand⟩ =
      (op.combine? left right).map fun v => ⟨pc + 1, v :: stack, memory, output⟩ := by
  simp only [Opcode.operators, List.mem_cons, List.not_mem_nil, or_false] at h
  rcases h with rfl | rfl | rfl | rfl | rfl | rfl | rfl | rfl | rfl <;> rfl

/-- Halting from an instruction is halting from behind it. -/
theorem haltsIn_at {code : Code} {m last : Machine} {i : Instruction} {n : Nat} (h : code.at? m.pc = some i) :
    HaltsIn code n m last ↔ ∃ m' n', n = n' + 1 ∧ m.perform i = some m' ∧ HaltsIn code n' m' last := by
  have hstep : m.step code = m.perform i := by simp [step, h]
  constructor
  · rintro ⟨hrun, hlast⟩
    cases n with
    | zero =>
      cases hrun
      have := (Code.at?_bounds h).2
      omega
    | succ n =>
      rw [run, hstep] at hrun
      obtain ⟨m', hm', hrun⟩ := Option.bind_eq_some_iff.1 hrun
      exact ⟨m', n, rfl, hm', hrun, hlast⟩
  · rintro ⟨m', n', rfl, hm', hrun, hlast⟩
    refine ⟨?_, hlast⟩
    rw [run, hstep, hm']
    exact hrun

/-- Behind the last instruction there is no further step. -/
theorem HaltsIn.eq_of_behind {code : Code} {m last : Machine} {n : Nat} (h : HaltsIn code n m last)
    (hm : m.pc = code.length + 1) : last = m := by
  obtain ⟨hrun, -⟩ := h
  cases n with
  | zero => exact (Option.some.inj hrun).symm
  | succ n =>
    have hnone : code.at? m.pc = none := by rw [hm, Code.at?_succ]; simp
    rw [run, step, hnone] at hrun
    cases hrun

end Machine

end RatLang
