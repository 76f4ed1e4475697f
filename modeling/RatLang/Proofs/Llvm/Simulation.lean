import RatLang.Proofs.Llvm.Accept
import RatLang.Proofs.Llvm.Execution
import RatLang.Proofs.Program.Symbols

/-!
# Blocks do what instructions do

Lowered code keeps the stack of the machine in the slots of an array, with a global that counts them
(`Stacked`). Pushing and popping are the two pieces that all of it is made of; each has a specification
that says what it does to the stack and what it leaves alone (`Frame`). Main statement: executed from a
state that holds the machine's stack, memory and output, the block of an instruction leads to a state
that holds what the machine has after the instruction (`block_simulates`).
-/
namespace RatLang

namespace Llvm

/-! ## The stack in a module -/

/-- The stack pointer and the slots below it hold a stack, whose top comes first. -/
structure Stacked (s : State) (stack : List Int64) : Prop where
  pointer : s.globals stackPointer = some (Int64.ofNat stack.length)
  slots : ∀ (k : Nat) v, stack.reverse[k]? = some v → s.slots k = v
  room : stack.length ≤ stackSize

/-- What stack code with results from `n` on leaves alone. -/
structure Frame (n : Nat) (s t : State) : Prop where
  results : ∀ r < n, t.results r = s.results r
  globals : ∀ name ≠ stackPointer, t.globals name = s.globals name
  output : t.output = s.output

theorem Frame.trans {n n' : Nat} {s t u : State} (h : Frame n s t) (h' : Frame n' t u) (hn : n ≤ n') :
    Frame n s u where
  results r hr := (h'.results r (by omega)).trans (h.results r hr)
  globals name hname := (h'.globals name hname).trans (h.globals name hname)
  output := h'.output.trans h.output

/-- Below the pointer of a longer stack lie the slots of the shorter one. -/
theorem getElem?_reverse_cons (w : Int64) (stack : List Int64) (k : Nat) (v : Int64) :
    (w :: stack).reverse[k]? = some v ↔
      (k < stack.length ∧ stack.reverse[k]? = some v) ∨ (k = stack.length ∧ v = w) := by
  rw [List.reverse_cons]
  by_cases hk : k < stack.length
  · rw [List.getElem?_append_left (by simpa using hk)]
    simp [hk, show k ≠ stack.length by omega]
  · rw [List.getElem?_append_right (by simpa using hk), List.length_reverse]
    by_cases hk' : k = stack.length
    · simp [hk', eq_comm]
    · have hpos : 1 ≤ k - stack.length := by omega
      rw [List.getElem?_eq_none (by simpa using hpos)]
      simp [hk, hk']

/-- Results that are defined later do not change a value. -/
theorem value_define {s : State} {v : Value} {w : Int64} {n r : Nat} {d : Datum} (hv : s.value v = .ok w)
    (hn : ∀ k, v = .result k → k < n) (hr : n ≤ r) : (s.define r d).value v = .ok w := by
  cases v with
  | const c => exact hv
  | result k =>
    have hk := hn k rfl
    rw [← hv]
    simp only [State.value, State.results_define, if_neg (show k ≠ r by omega)]

/-- The state after a push onto `d` values. -/
def State.pushed (s : State) (n d : Nat) (w : Int64) : State :=
  ((((s.define n (.word (.ofNat d))).define (n + 1) (.slot (.ofNat d))).setSlot d w).define (n + 2)
    (.word (.ofNat (d + 1)))).setGlobal stackPointer (.ofNat (d + 1))

/-- The state after a pop that leaves `d` values. -/
def State.popped (s : State) (n d : Nat) : State :=
  ((((s.define n (.word (.ofNat (d + 1)))).define (n + 1) (.word (.ofNat d))).setGlobal stackPointer
    (.ofNat d)).define (n + 2) (.slot (.ofNat d))).define (n + 3) (.word (s.slots d))

theorem Frame.pushed (s : State) (n d : Nat) (w : Int64) : Frame n s (s.pushed n d w) where
  results r hr := by
    simp [State.pushed, show r ≠ n by omega, show r ≠ n + 1 by omega, show r ≠ n + 2 by omega]
  globals name hname := by simp [State.pushed, hname]
  output := rfl

theorem Frame.popped (s : State) (n d : Nat) : Frame n s (s.popped n d) where
  results r hr := by
    simp [State.popped, show r ≠ n by omega, show r ≠ n + 1 by omega, show r ≠ n + 2 by omega,
      show r ≠ n + 3 by omega]
  globals name hname := by simp [State.popped, hname]
  output := rfl

theorem Stacked.pushed {s : State} {stack : List Int64} (h : Stacked s stack) (hroom : stack.length < stackSize)
    (n : Nat) (w : Int64) : Stacked (s.pushed n stack.length w) (w :: stack) where
  pointer := by simp [State.pushed]
  slots k v hk := by
    rcases (getElem?_reverse_cons w stack k v).1 hk with ⟨hlt, hk⟩ | ⟨rfl, rfl⟩
    · simp [State.pushed, show (k : Int) ≠ stack.length by omega, h.slots k v hk]
    · simp [State.pushed]
  room := hroom

theorem Stacked.popped {s : State} {w : Int64} {stack : List Int64} (h : Stacked s (w :: stack)) (n : Nat) :
    Stacked (s.popped n stack.length) stack where
  pointer := by simp [State.popped]
  slots k v hk := by
    have hlt : k < stack.length := by
      have := (List.getElem?_eq_some_iff.1 hk).1
      rwa [List.length_reverse] at this
    simp [State.popped, h.slots k v ((getElem?_reverse_cons w stack k v).2 (Or.inl ⟨hlt, hk⟩))]
  room := Nat.le_of_succ_le h.room

theorem Stacked.slots_top {s : State} {w : Int64} {stack : List Int64} (h : Stacked s (w :: stack)) :
    s.slots stack.length = w :=
  h.slots _ _ ((getElem?_reverse_cons w stack _ w).2 (Or.inr ⟨rfl, rfl⟩))

/-- Pushing a word that is known before puts it on the stack. -/
theorem execAll_push {s : State} {stack : List Int64} {v : Value} {w : Int64} {n : Nat} (h : Stacked s stack)
    (hroom : stack.length < stackSize) (hv : s.value v = .ok w) (hn : ∀ r, v = .result r → r < n) :
    s.execAll (Lower.push n v) = .ok (s.pushed n stack.length w) := by
  have hadd : Arith.combine? .add (.ofNat stack.length) (.ofInt 1) = some (.ofNat (stack.length + 1)) := by
    rw [Int64.ofNat_add]
    rfl
  have hv₁ := value_define (d := .word (.ofNat stack.length)) hv hn (Nat.le_refl n)
  have hv₂ := value_define (d := .slot (.ofNat stack.length)) hv₁ hn (Nat.le_succ n)
  -- the slot is written before the pointer moves past it
  calc s.execAll (Lower.push n v)
    _ = (s.define n (.word (.ofNat stack.length))).execAll _ := State.execAll_load (State.load_global h.pointer)
    _ = (State.define _ (n + 1) (.slot (.ofNat stack.length))).execAll _ :=
      State.execAll_slot (State.value_result (by simp))
    _ = (State.setSlot _ stack.length w).execAll _ := State.execAll_store hv₂ (State.store_slot (by simp) hroom w)
    _ = (State.define _ (n + 2) (.word (.ofNat (stack.length + 1)))).execAll _ :=
      State.execAll_arith (State.value_result (by simp)) rfl hadd
    _ = (State.setGlobal _ stackPointer (.ofNat (stack.length + 1))).execAll [] :=
      State.execAll_store (State.value_result (by simp)) (State.store_global (by simpa using h.pointer) _)
    _ = .ok (s.pushed n stack.length w) := rfl

theorem execAll_pop {s : State} {stack : List Int64} {w : Int64} (n : Nat) (h : Stacked s (w :: stack)) :
    s.execAll (Lower.pop n) = .ok (s.popped n stack.length) := by
  have hsub : Arith.combine? .sub (.ofNat (stack.length + 1)) (.ofInt 1) = some (.ofNat stack.length) := by
    rw [Int64.ofNat_add]
    exact congrArg some (Int64.add_sub_cancel _ _)
  -- the pointer moves first, so that it is the index of the slot that is read
  calc s.execAll (Lower.pop n)
    _ = (s.define n (.word (.ofNat (stack.length + 1)))).execAll _ :=
      State.execAll_load (State.load_global h.pointer)
    _ = (State.define _ (n + 1) (.word (.ofNat stack.length))).execAll _ :=
      State.execAll_arith (State.value_result (by simp)) rfl hsub
    _ = (State.setGlobal _ stackPointer (.ofNat stack.length)).execAll _ :=
      State.execAll_store (State.value_result (by simp)) (State.store_global (by simpa using h.pointer) _)
    _ = (State.define _ (n + 2) (.slot (.ofNat stack.length))).execAll _ :=
      State.execAll_slot (State.value_result (by simp))
    _ = (State.define _ (n + 3) (.word (s.slots stack.length))).execAll [] :=
      State.execAll_load (State.load_slot (by simp) h.room)
    _ = .ok (s.popped n stack.length) := rfl

theorem push_spec {s : State} {stack : List Int64} {v : Value} {w : Int64} {n : Nat} (h : Stacked s stack)
    (hroom : stack.length < stackSize) (hv : s.value v = .ok w) (hn : ∀ r, v = .result r → r < n) :
    ∃ t, s.execAll (Lower.push n v) = .ok t ∧ Stacked t (w :: stack) ∧ Frame n s t :=
  ⟨_, execAll_push h hroom hv hn, h.pushed hroom n w, .pushed s n _ w⟩

theorem pop_spec {s : State} {stack : List Int64} {w : Int64} (n : Nat) (h : Stacked s (w :: stack)) :
    ∃ t, s.execAll (Lower.pop n) = .ok t ∧ t.results (n + 3) = some (.word w) ∧ Stacked t stack ∧ Frame n s t :=
  ⟨_, execAll_pop n h, by simp [State.popped, h.slots_top], h.popped n, .popped s n _⟩

theorem Stacked.define {s : State} {stack : List Int64} (h : Stacked s stack) (r : Nat) (d : Datum) :
    Stacked (s.define r d) stack :=
  ⟨h.pointer, h.slots, h.room⟩

theorem Frame.define {s t : State} {n r : Nat} (h : Frame n s t) (hr : n ≤ r) (d : Datum) :
    Frame n s (t.define r d) where
  results k hk := by simp [show k ≠ r by omega, h.results k hk]
  globals := h.globals
  output := h.output

/-- Two words are popped, the right one first. -/
theorem pop_pop_spec {s : State} {stack : List Int64} {left right : Int64} (n : Nat)
    (h : Stacked s (right :: left :: stack)) :
    ∃ t, s.execAll (Lower.pop n ++ Lower.pop (n + 4)) = .ok t ∧ t.results (n + 3) = some (.word right) ∧
      t.results (n + 7) = some (.word left) ∧ Stacked t stack ∧ Frame n s t := by
  obtain ⟨t₁, ht₁, hright, hs₁, hf₁⟩ := pop_spec n h
  obtain ⟨t₂, ht₂, hleft, hs₂, hf₂⟩ := pop_spec (n + 4) hs₁
  refine ⟨t₂, ?_, ?_, hleft, hs₂, hf₁.trans hf₂ (by omega)⟩
  · rw [State.execAll_append_ok ht₁, ht₂]
  · rw [hf₂.results (n + 3) (by omega), hright]

theorem combine_spec {s : State} {stack : List Int64} {left right w : Int64} (n : Nat) {op : Arith}
    (h : Stacked s (right :: left :: stack)) (hw : op.combine? left right = some w) :
    ∃ t, s.execAll (Lower.combine n op).insts = .ok t ∧ Stacked t (w :: stack) ∧ Frame n s t := by
  obtain ⟨t₁, ht₁, hright, hleft, hs₁, hf₁⟩ := pop_pop_spec n h
  have hroom : stack.length < stackSize := Nat.lt_of_succ_lt h.room
  obtain ⟨t₂, ht₂, hs₂, hf₂⟩ := push_spec (v := .result (n + 8)) (w := w) (n := n + 9)
    (hs₁.define (n + 8) (.word w)) hroom (State.value_result (by simp)) (by simp)
  refine ⟨t₂, ?_, hs₂, (hf₁.define (by omega) _).trans hf₂ (by omega)⟩
  simp only [Lower.combine]
  rw [List.append_assoc, State.execAll_append_ok ht₁, List.singleton_append,
    State.execAll_arith (State.value_result hleft) (State.value_result hright) hw, ht₂]

theorem combine_fault {s : State} {stack : List Int64} {left right : Int64} (n : Nat) {op : Arith}
    (h : Stacked s (right :: left :: stack)) (hw : op.combine? left right = none) :
    s.execAll (Lower.combine n op).insts = .error .division := by
  obtain ⟨t₁, ht₁, hright, hleft, -, -⟩ := pop_pop_spec n h
  simp only [Lower.combine]
  rw [List.append_assoc, State.execAll_append_ok ht₁, List.singleton_append,
    State.execAll_arith_none (State.value_result hleft) (State.value_result hright) hw]

theorem relate_spec {s : State} {stack : List Int64} {left right : Int64} (n : Nat) (predicate : Predicate)
    (h : Stacked s (right :: left :: stack)) :
    ∃ t, s.execAll (Lower.relate n predicate).insts = .ok t ∧
      Stacked t (Word.ofBool (predicate.holds left right) :: stack) ∧ Frame n s t := by
  obtain ⟨t₁, ht₁, hright, hleft, hs₁, hf₁⟩ := pop_pop_spec n h
  have hroom : stack.length < stackSize := Nat.lt_of_succ_lt h.room
  obtain ⟨t₂, ht₂, hs₂, hf₂⟩ := push_spec (v := .result (n + 9))
    (w := Word.ofBool (predicate.holds left right)) (n := n + 10)
    ((hs₁.define (n + 8) (.flag (predicate.holds left right))).define (n + 9)
      (.word (Word.ofBool (predicate.holds left right)))) hroom (State.value_result (by simp)) (by simp)
  refine ⟨t₂, ?_, hs₂, ((hf₁.define (by omega) _).define (by omega) _).trans hf₂ (by omega)⟩
  simp only [Lower.relate]
  rw [List.append_assoc, State.execAll_append_ok ht₁, List.cons_append, List.singleton_append,
    State.execAll_compare (State.value_result hleft) (State.value_result hright),
    State.execAll_extend (State.flag_eq (by simp; rfl)), ht₂]

theorem exec_goto {s t : State} {name l : Label} {insts : List Inst} (h : s.execAll insts = .ok t) :
    Block.exec ⟨name, insts, .goto l⟩ s = .ok ⟨.block l, t⟩ := by
  simp only [Block.exec, h]
  rfl

theorem exec_fault {s : State} {b : Block} {fault : Fault} (h : s.execAll b.insts = .error fault) :
    b.exec s = .error fault := by
  simp only [Block.exec, h]
  rfl

theorem exec_branch {s t : State} {name yes no : Label} {insts : List Inst} {f : Nat} {outcome : Bool}
    (h : s.execAll insts = .ok t) (hf : t.flag f = .ok outcome) :
    Block.exec ⟨name, insts, .branch f yes no⟩ s = .ok ⟨.block (if outcome then yes else no), t⟩ := by
  simp only [Block.exec, h]
  change (t.flag f >>= fun o => _) = _
  rw [hf]
  rfl

theorem memoryGlobal_ne_stackPointer (name : Text) : memoryGlobal name ≠ stackPointer := by
  intro h
  have hm : (memoryGlobal name).head? = some 0x6d := rfl
  have hr : stackPointer.head? = some 0x72 := rfl
  rw [h, hr] at hm
  exact absurd hm (by decide)

end Llvm

/-! ## One instruction -/

open Llvm

/-- The state of the main function holds the stack, the memory and the output of the machine. -/
structure Represents (symbols : List Symbol) (s : Machine) (t : State) : Prop where
  stack : Stacked t s.stack
  memory : ∀ e ∈ symbols, t.globals (memoryGlobal e.name) = some (s.memory e.address.toInt)
  output : t.output = s.output

variable {symbols : List Symbol} {count n : Nat} {i : Instruction}

theorem Represents.frame {pc pc' : Nat} {stack stack' output : List Int64} {memory : Int → Int64} {t t' : State}
    (h : Represents symbols ⟨pc, stack, memory, output⟩ t) (hf : Frame n t t') (hs : Stacked t' stack') :
    Represents symbols ⟨pc', stack', memory, output⟩ t' where
  stack := hs
  memory e he := by rw [hf.globals _ (memoryGlobal_ne_stackPointer _), h.memory e he]
  output := by rw [hf.output, h.output]

theorem Represents.assign {pc : Nat} {stack output : List Int64} {memory : Int → Int64} {t : State}
    (hsym : Distinct symbols) (h : Represents symbols ⟨pc, stack, memory, output⟩ t) {e : Symbol} (he : e ∈ symbols)
    (w : Int64) :
    Represents symbols ⟨pc, stack, Function.update memory e.address.toInt w, output⟩
      (t.setGlobal (memoryGlobal e.name) w) where
  stack := by
    refine ⟨?_, h.stack.slots, h.stack.room⟩
    rw [State.globals_setGlobal, if_neg (memoryGlobal_ne_stackPointer _).symm]
    exact h.stack.pointer
  memory e' he' := by
    simp only [State.globals_setGlobal, Function.update_apply]
    by_cases hee : e' = e
    · simp [hee]
    · obtain ⟨hname, haddress⟩ := hsym.of_ne he' he hee
      have hglobal : memoryGlobal e'.name ≠ memoryGlobal e.name := fun heq => hname (List.append_cancel_left heq)
      rw [if_neg hglobal, if_neg haddress, h.memory e' he']
  output := h.output

/-- A block does what the machine does at an instruction; where the machine is stuck, it divides without
quotient. -/
def Simulates (symbols : List Symbol) (count : Nat) (s : Machine) (i : Instruction) (outcome : Except Fault Config) :
    Prop :=
  match s.perform i with
  | some s' => ∃ t, outcome = .ok ⟨.block (Lower.label count s'.pc), t⟩ ∧ Represents symbols s' t
  | none => outcome = .error .division

section Instruction

variable {pc : Nat} {stack output : List Int64} {memory : Int → Int64} {t : State} {index : Int} {name : Label}

theorem pushi_simulates (h : Represents symbols ⟨pc, stack, memory, output⟩ t) (hroom : stack.length < stackSize)
    (value : Int) :
    Simulates symbols count ⟨pc, stack, memory, output⟩ ⟨index, .pushi, some value⟩
      (Block.exec ⟨name, Lower.push n (.const value), .goto (Lower.label count (pc + 1))⟩ t) := by
  obtain ⟨t', ht', hs, hf⟩ := push_spec (v := .const value) (n := n) h.stack hroom rfl (by simp)
  exact ⟨t', exec_goto ht', h.frame hf hs⟩

theorem pushm_simulates (h : Represents symbols ⟨pc, stack, memory, output⟩ t) (hroom : stack.length < stackSize)
    {e : Symbol} (he : e ∈ symbols) :
    Simulates symbols count ⟨pc, stack, memory, output⟩ ⟨index, .pushm, some e.address.toInt⟩
      (Block.exec ⟨name, .load n (.global (memoryGlobal e.name)) :: Lower.push (n + 1) (.result n),
        .goto (Lower.label count (pc + 1))⟩ t) := by
  have hload := State.load_global (h.memory e he)
  obtain ⟨t', ht', hs, hf⟩ := push_spec (v := .result n) (w := memory e.address.toInt) (n := n + 1)
    (h.stack.define n (.word (memory e.address.toInt))) hroom (State.value_result (by simp)) (by simp)
  have hframe : Frame n t (t.define n (.word (memory e.address.toInt))) :=
    Frame.define ⟨fun _ _ => rfl, fun _ _ => rfl, rfl⟩ (Nat.le_refl n) _
  exact ⟨t', exec_goto ((State.execAll_load hload).trans ht'), h.frame (hframe.trans hf (by omega)) hs⟩

theorem popm_simulates (hsym : Distinct symbols) {v : Int64}
    (h : Represents symbols ⟨pc, v :: stack, memory, output⟩ t) {e : Symbol} (he : e ∈ symbols) :
    Simulates symbols count ⟨pc, v :: stack, memory, output⟩ ⟨index, .popm, some e.address.toInt⟩
      (Block.exec ⟨name, Lower.pop n ++ [.store (.result (n + 3)) (.global (memoryGlobal e.name))],
        .goto (Lower.label count (pc + 1))⟩ t) := by
  obtain ⟨t', ht', hv, hs, hf⟩ := pop_spec n h.stack
  have h' : Represents symbols ⟨pc + 1, stack, memory, output⟩ t' := h.frame hf hs
  refine ⟨_, exec_goto ?_, h'.assign hsym he v⟩
  rw [State.execAll_append_ok ht',
    State.execAll_store (State.value_result hv) (State.store_global (h'.memory e he) v)]
  rfl

theorem stdout_simulates {v : Int64} (h : Represents symbols ⟨pc, v :: stack, memory, output⟩ t)
    (operand : Option Int) :
    Simulates symbols count ⟨pc, v :: stack, memory, output⟩ ⟨index, .stdout, operand⟩
      (Block.exec ⟨name, Lower.pop n ++ [.print (n + 4) (.result (n + 3))],
        .goto (Lower.label count (pc + 1))⟩ t) := by
  obtain ⟨t', ht', hv, hs, hf⟩ := pop_spec n h.stack
  have h' : Represents symbols ⟨pc + 1, stack, memory, output⟩ t' := h.frame hf hs
  refine ⟨{ t' with output := t'.output ++ [v] }, exec_goto ?_,
    ⟨⟨h'.stack.pointer, h'.stack.slots, h'.stack.room⟩, h'.memory, by rw [h'.output]⟩⟩
  rw [State.execAll_append_ok ht', State.execAll_print (State.value_result hv)]
  rfl

theorem jump_simulates (h : Represents symbols ⟨pc, stack, memory, output⟩ t) (goal : Int) :
    Simulates symbols count ⟨pc, stack, memory, output⟩ ⟨index, .jump, some goal⟩
      (Block.exec ⟨name, [], .goto (Lower.label count goal.toNat)⟩ t) :=
  ⟨t, rfl, h.stack, h.memory, h.output⟩

theorem jumpz_simulates {v : Int64} (h : Represents symbols ⟨pc, v :: stack, memory, output⟩ t) (goal : Int) :
    Simulates symbols count ⟨pc, v :: stack, memory, output⟩ ⟨index, .jumpz, some goal⟩
      (Block.exec ⟨name, Lower.pop n ++ [.compare (n + 4) .eq (.result (n + 3)) (.const 0)],
        .branch (n + 4) (Lower.label count goal.toNat) (Lower.label count (pc + 1))⟩ t) := by
  obtain ⟨t', ht', hv, hs, hf⟩ := pop_spec n h.stack
  have hrun : t.execAll (Lower.pop n ++ [.compare (n + 4) .eq (.result (n + 3)) (.const 0)]) =
      .ok (t'.define (n + 4) (.flag (v = 0))) := by
    rw [State.execAll_append_ok ht', State.execAll_compare (State.value_result hv) rfl]
    rfl
  refine ⟨t'.define (n + 4) (.flag (v = 0)), ?_, h.frame (hf.define (by omega) _) (hs.define _ _)⟩
  rw [exec_branch hrun (State.flag_eq (by simp; rfl))]
  by_cases hzero : v = 0
  · simp [hzero]
  · simp [hzero]

theorem exists_two_of_length {stack : List Int64} (h : 2 ≤ stack.length) :
    ∃ right left rest, stack = right :: left :: rest := by
  match stack, h with
  | right :: left :: rest, _ => exact ⟨right, left, rest, rfl⟩

theorem combine_simulates {op : Opcode} {arith : Arith} (hop : op ∈ Opcode.operators)
    (harith : ∀ l r, op.combine? l r = arith.combine? l r) {s : Machine} {t : State} (h : Represents symbols s t)
    (hpops : 2 ≤ s.stack.length) (index : Int) (operand : Option Int) (name : Label) :
    Simulates symbols count s ⟨index, op, operand⟩
      (Block.exec ⟨name, (Lower.combine n arith).insts, .goto (Lower.label count (s.pc + 1))⟩ t) := by
  obtain ⟨pc, stack, memory, output⟩ := s
  obtain ⟨right, left, rest, rfl⟩ := exists_two_of_length hpops
  unfold Simulates
  rw [Machine.perform_operator hop, harith]
  cases hw : arith.combine? left right with
  | none => exact exec_fault (combine_fault n h.stack hw)
  | some w =>
    obtain ⟨t', ht', hs, hf⟩ := combine_spec n h.stack hw
    exact ⟨t', exec_goto ht', h.frame hf hs⟩

theorem relate_simulates {op : Opcode} {predicate : Predicate} (hop : op ∈ Opcode.operators)
    (hpredicate : ∀ l r, op.combine? l r = some (Word.ofBool (predicate.holds l r))) {s : Machine} {t : State}
    (h : Represents symbols s t) (hpops : 2 ≤ s.stack.length) (index : Int) (operand : Option Int) (name : Label) :
    Simulates symbols count s ⟨index, op, operand⟩
      (Block.exec ⟨name, (Lower.relate n predicate).insts, .goto (Lower.label count (s.pc + 1))⟩ t) := by
  obtain ⟨pc, stack, memory, output⟩ := s
  obtain ⟨right, left, rest, rfl⟩ := exists_two_of_length hpops
  unfold Simulates
  rw [Machine.perform_operator hop, hpredicate]
  obtain ⟨t', ht', hs, hf⟩ := relate_spec n predicate h.stack
  exact ⟨t', exec_goto ht', h.frame hf hs⟩

end Instruction

/-- **The block of an instruction does what the machine does there.** -/
theorem block_simulates (hsym : Distinct symbols) {s : Machine} {t : State} {b : Block} {free : Nat}
    (hb : Lower.block symbols count n s.pc i = .ok (b, free)) (h : Represents symbols s t)
    (hpops : i.op.pops ≤ s.stack.length) (hroom : s.stack.length - i.op.pops + i.op.pushes ≤ stackSize) :
    Simulates symbols count s i (b.exec t) := by
  obtain ⟨index, op, operand⟩ := i
  have hone : op.pops = 1 → ∃ v rest, s.stack = v :: rest := by
    intro hop
    match hstack : s.stack with
    | [] => simp [hstack, hop] at hpops
    | v :: rest => exact ⟨v, rest, rfl⟩
  cases op
  case add | sub | mul | div =>
    cases hb
    exact combine_simulates (by decide) (fun _ _ => rfl) h hpops _ _ _
  case les | grt | leq | geq | neq =>
    cases hb
    exact relate_simulates (by decide) (fun _ _ => rfl) h hpops _ _ _
  case pushi =>
    cases operand with
    | none => cases hb
    | some value =>
      cases hb
      exact pushi_simulates h hroom value
  case pushm =>
    obtain ⟨place, hplace, hb⟩ := exists_of_bind_eq_ok hb
    cases hb
    obtain ⟨e, he, rfl, rfl⟩ := Lower.memory_eq_ok hplace
    exact pushm_simulates h hroom he
  case popm =>
    obtain ⟨place, hplace, hb⟩ := exists_of_bind_eq_ok hb
    cases hb
    obtain ⟨e, he, rfl, rfl⟩ := Lower.memory_eq_ok hplace
    obtain ⟨pc, stack, memory, output⟩ := s
    obtain ⟨v, rest, rfl⟩ := hone rfl
    exact popm_simulates hsym h he
  case stdout =>
    cases hb
    obtain ⟨pc, stack, memory, output⟩ := s
    obtain ⟨v, rest, rfl⟩ := hone rfl
    exact stdout_simulates h operand
  case jump =>
    obtain ⟨goal, hgoal, hb⟩ := exists_of_bind_eq_ok hb
    cases hb
    obtain ⟨k, rfl, -, rfl⟩ := Lower.target_eq_ok_iff.1 hgoal
    exact jump_simulates h k
  case jumpz =>
    obtain ⟨goal, hgoal, hb⟩ := exists_of_bind_eq_ok hb
    cases hb
    obtain ⟨k, rfl, -, rfl⟩ := Lower.target_eq_ok_iff.1 hgoal
    obtain ⟨pc, stack, memory, output⟩ := s
    obtain ⟨v, rest, rfl⟩ := hone rfl
    exact jumpz_simulates h k
  case other name => cases hb

end RatLang
