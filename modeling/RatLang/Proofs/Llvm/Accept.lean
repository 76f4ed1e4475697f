import RatLang.Llvm.Lower
import RatLang.Proofs.Outcome
import RatLang.Proofs.Program.Depth

/-!
# Programs that can be lowered

Lowering accepts a program when its instructions are numbered from 1, each of them has what its
operation needs (`Instruction.Complete`), and its code is safe for the stack (`Code.StackSafe`). All else
is refused. Main statement: it accepts nothing less and nothing more, and on the way it never asks for
a block, an instruction, a depth or an operand that is not there (`lower_accepts_exactly_lowerable`).
-/
namespace RatLang

theorem Opcode.mem_known_iff {op : Opcode} : op ∈ Opcode.known ↔ ∀ name, op ≠ .other name := by
  cases op <;> simp [Opcode.known]

/-- An instruction has what its operation needs, in a program of `count` instructions. -/
structure Instruction.Complete (symbols : List Symbol) (count : Nat) (i : Instruction) : Prop where
  known : i.op ∈ Opcode.known
  literal : i.op = .pushi → ∃ n, i.operand = some n
  address : i.op = .pushm ∨ i.op = .popm → ∃ s ∈ symbols, i.operand = some s.address.toInt
  target : i.op = .jump ∨ i.op = .jumpz → ∃ t, i.operand = some t ∧ 1 ≤ t ∧ t ≤ count + 1

/-- A program that can be lowered. -/
structure Program.Lowerable (p : Program) : Prop where
  indexed : ∀ {k : Nat} {i}, p.code.at? k = some i → i.index = k
  complete : ∀ i ∈ p.code, i.Complete p.symbols p.code.length
  safe : p.code.StackSafe

namespace Lower

open Llvm

variable {symbols : List Symbol} {count n index : Nat} {i : Instruction}

/-! ## One instruction -/

theorem memory_eq_ok {operand : Option Int} {place : Place} (h : memory symbols operand = .ok place) :
    ∃ s ∈ symbols, operand = some s.address.toInt ∧ place = .global (memoryGlobal s.name) := by
  unfold memory symbolAt? at h
  split at h
  · cases h
  · rename_i address
    split at h
    · cases h
    · rename_i name hname
      cases h
      obtain ⟨s, hs, rfl⟩ := Option.map_eq_some_iff.1 hname
      have haddress := List.find?_some hs
      simp only [decide_eq_true_eq] at haddress
      exact ⟨s, List.mem_reverse.1 (List.mem_of_find?_eq_some hs), by rw [haddress], rfl⟩

theorem memory_isOk {s : Symbol} (hs : s ∈ symbols) :
    ∃ place, memory symbols (some s.address.toInt) = .ok place := by
  simp only [memory, symbolAt?]
  cases hfind : symbols.reverse.find? fun e => e.address.toInt = s.address.toInt with
  | none =>
    have := List.find?_eq_none.1 hfind s (List.mem_reverse.2 hs)
    simp at this
  | some e => exact ⟨.global (memoryGlobal e.name), rfl⟩

theorem target_eq_ok_iff {operand : Option Int} {goal : Label} :
    target count operand = .ok goal ↔
      ∃ t, operand = some t ∧ (1 ≤ t ∧ t ≤ count + 1) ∧ goal = label count t.toNat := by
  unfold target
  cases operand with
  | none => simp
  | some t =>
    by_cases ht : 1 ≤ t ∧ t ≤ count + 1
    · simp [ht, eq_comm]
    · simp [ht]

theorem complete_of_block {r : Block × Nat} (h : block symbols count n index i = .ok r) :
    i.Complete symbols count := by
  obtain ⟨number, op, operand⟩ := i
  cases op
  case other name => cases h
  case pushi =>
    cases operand with
    | none => cases h
    | some value => exact ⟨Opcode.mem_known_iff.2 nofun, fun _ => ⟨value, rfl⟩, by simp, by simp⟩
  case pushm | popm =>
    obtain ⟨place, hplace, -⟩ := exists_of_bind_eq_ok h
    obtain ⟨s, hs, hoperand, -⟩ := memory_eq_ok hplace
    exact ⟨Opcode.mem_known_iff.2 nofun, by simp, fun _ => ⟨s, hs, hoperand⟩, by simp⟩
  case jump | jumpz =>
    obtain ⟨goal, hgoal, -⟩ := exists_of_bind_eq_ok h
    obtain ⟨t, hoperand, ht, -⟩ := target_eq_ok_iff.1 hgoal
    exact ⟨Opcode.mem_known_iff.2 nofun, by simp, by simp, fun _ => ⟨t, hoperand, ht⟩⟩
  all_goals exact ⟨Opcode.mem_known_iff.2 nofun, by simp, by simp, by simp⟩

theorem block_isOk (h : i.Complete symbols count) (n index : Nat) :
    ∃ b free, block symbols count n index i = .ok (b, free) := by
  obtain ⟨number, op, operand⟩ := i
  cases op
  case other name => exact absurd rfl (Opcode.mem_known_iff.1 h.known name)
  case pushi =>
    obtain ⟨value, hvalue⟩ := h.literal rfl
    cases hvalue
    exact ⟨_, _, rfl⟩
  case pushm | popm =>
    obtain ⟨s, hs, hoperand⟩ := h.address (by simp)
    cases hoperand
    obtain ⟨place, hplace⟩ := memory_isOk hs
    exact ⟨_, _, by simp only [block, hplace]; rfl⟩
  case jump | jumpz =>
    obtain ⟨t, hoperand, ht⟩ := h.target (by simp)
    cases hoperand
    exact ⟨_, _, by simp only [block, target_eq_ok_iff.2 ⟨t, rfl, ht, rfl⟩]; rfl⟩
  all_goals exact ⟨_, _, rfl⟩

/-! ## All instructions -/

theorem checkIndices_eq_ok_iff (code : Code) (index : Nat) :
    checkIndices index code = .ok () ↔ Code.Each (fun k i => i.index = k) index code := by
  induction code generalizing index with
  | nil => simp [checkIndices, Code.Each]
  | cons i code ih =>
    by_cases hi : i.index = index
    · rw [checkIndices, if_pos hi, ih]
      simp [Code.Each, hi]
    · rw [checkIndices, if_neg hi]
      simp [Code.Each, hi]

/-- The blocks stand in the order of the instructions, each made from its own. -/
inductive Blocks (symbols : List Symbol) (count : Nat) : Nat → Code → List Block → Prop
  | nil (index : Nat) : Blocks symbols count index [] []
  | cons {first free here : Nat} {j : Instruction} {b : Block} {rest : Code} {others : List Block}
    (h : block symbols count first here j = .ok (b, free)) (hrest : Blocks symbols count (here + 1) rest others) :
    Blocks symbols count here (j :: rest) (b :: others)

theorem blocks_eq_ok {code : Code} {bs : List Block} (h : blocks symbols count n index code = .ok bs) :
    Blocks symbols count index code bs := by
  induction code generalizing n index bs with
  | nil =>
    cases h
    exact .nil _
  | cons i code ih =>
    rw [blocks] at h
    cases hblock : block symbols count n index i with
    | error fault =>
      rw [hblock] at h
      cases h
    | ok r =>
      obtain ⟨b, free⟩ := r
      rw [hblock] at h
      obtain ⟨others, hothers, hbs⟩ := exists_of_bind_eq_ok h
      cases hbs
      exact .cons hblock (ih hothers)

theorem blocks_isOk {code : Code} (h : ∀ i ∈ code, i.Complete symbols count) (n index : Nat) :
    ∃ bs, blocks symbols count n index code = .ok bs := by
  induction code generalizing n index with
  | nil => exact ⟨[], rfl⟩
  | cons i code ih =>
    obtain ⟨b, free, hblock⟩ := block_isOk (h i List.mem_cons_self) n index
    obtain ⟨others, hothers⟩ := ih (fun j hj => h j (List.mem_cons_of_mem _ hj)) free (index + 1)
    refine ⟨b :: others, ?_⟩
    rw [blocks, hblock]
    simp only [hothers]
    rfl

theorem Blocks.complete {code : Code} {bs : List Block} (h : Blocks symbols count index code bs) :
    ∀ i ∈ code, i.Complete symbols count := by
  induction h with
  | nil => simp
  | cons hblock _ ih =>
    intro j hj
    rcases List.mem_cons.1 hj with rfl | hj
    · exact complete_of_block hblock
    · exact ih j hj

/-! ## Look-ups -/

/-- The block of an index, if there is one. -/
def label? (count index : Nat) : Option Label :=
  if index = count + 1 then some .exit
  else if 1 ≤ index ∧ index ≤ count then some (.instruction index)
  else none

theorem label?_eq (h : 1 ≤ index ∧ index ≤ count + 1) : label? count index = some (label count index) := by
  unfold label? label
  split
  · rfl
  · rw [if_pos (by omega)]

/-- The block of a jump's operand with the look-up in the open. -/
def targetChecked (count : Nat) (operand : Option Int) : Option (Except LowerFault Label) :=
  match operand with
  | none => some (.error .missingTarget)
  | some t =>
    if 1 ≤ t ∧ t ≤ count + 1 then (label? count t.toNat).map .ok else some (.error (.targetOutOfRange t))

theorem targetChecked_eq (operand : Option Int) : targetChecked count operand = some (target count operand) := by
  unfold targetChecked target
  cases operand with
  | none => rfl
  | some t =>
    simp only
    split
    · rw [label?_eq (by omega)]
      rfl
    · rfl

/-- The block of an instruction with every look-up in the open. The block behind it is looked up
whether or not it is needed. -/
def blockChecked (symbols : List Symbol) (count n index : Nat) (i : Instruction) :
    Option (Except LowerFault (Block × Nat)) :=
  match label? count (index + 1), i.op with
  | none, _ => none
  | some _, .jump | some _, .jumpz => (targetChecked count i.operand).map fun _ => block symbols count n index i
  | some _, _ => some (block symbols count n index i)

theorem blockChecked_eq (h : index + 1 ≤ count + 1) (n : Nat) (i : Instruction) :
    blockChecked symbols count n index i = some (block symbols count n index i) := by
  unfold blockChecked
  rw [label?_eq (by omega)]
  cases i.op
  case jump | jumpz => rw [targetChecked_eq]; rfl
  all_goals rfl

/-- The blocks of instructions with every look-up in the open. -/
def blocksChecked (symbols : List Symbol) (count : Nat) :
    Nat → Nat → Code → Option (Except LowerError (List Block))
  | _, _, [] => some (.ok [])
  | n, index, i :: rest => do
    match ← blockChecked symbols count n index i with
    | .error fault => return .error ⟨i, fault⟩
    | .ok (first, free) =>
      let others ← blocksChecked symbols count free (index + 1) rest
      return others.map (first :: ·)

theorem blocksChecked_eq (code : Code) (n index : Nat) (h : index + code.length ≤ count + 1) :
    blocksChecked symbols count n index code = some (blocks symbols count n index code) := by
  induction code generalizing n index with
  | nil => rfl
  | cons i code ih =>
    rw [List.length_cons] at h
    rw [blocksChecked, blocks, blockChecked_eq (by omega)]
    cases hblock : block symbols count n index i with
    | error fault => rfl
    | ok r =>
      obtain ⟨b, free⟩ := r
      simp only [Option.bind_eq_bind, Option.bind_some]
      rw [ih free (index + 1) (by omega)]
      cases blocks symbols count free (index + 1) code <;> rfl

end Lower

namespace Program

open Llvm

/-- Lowering with every look-up in the open: `none` when a block, an instruction, a depth or an operand is
taken that is not there. -/
def lowerChecked (p : Program) : Option (Except LowerError Module) :=
  match Lower.checkIndices 1 p.code with
  | .error e => some (.error e)
  | .ok () => do
    let first ← Lower.label? p.code.length 1
    match ← Lower.blocksChecked p.symbols p.code.length 0 1 p.code with
    | .error e => return .error e
    | .ok blocks =>
      match ← Depth.checkChecked p.code with
      | .error (i, fault) => return .error ⟨i, .stack fault⟩
      | .ok () =>
        return .ok {
          memory := p.symbols.map fun s => memoryGlobal s.name
          blocks := ⟨.entry, [], .goto first⟩ :: blocks ++ [⟨.exit, [], .ret⟩] }

/-- Code whose blocks were made has its jumps in range, which is what the depth check relies on. -/
theorem targeted_of_blocks {p : Program} {bs : List Block}
    (h : Lower.blocks p.symbols p.code.length 0 1 p.code = .ok bs) : p.code.Targeted :=
  fun i hi hop => ((Lower.blocks_eq_ok h).complete i hi).target hop

theorem lowerChecked_eq (p : Program) : p.lowerChecked = some p.lower := by
  unfold lowerChecked lower
  cases Lower.checkIndices 1 p.code with
  | error e => rfl
  | ok u =>
    rw [Lower.label?_eq (by omega), Lower.blocksChecked_eq p.code 0 1 (by omega)]
    cases hblocks : Lower.blocks p.symbols p.code.length 0 1 p.code with
    | error e => rfl
    | ok bs =>
      simp only [Option.bind_eq_bind, Option.bind_some]
      rw [Depth.checkChecked_eq (targeted_of_blocks hblocks)]
      rcases hcheck : Depth.check p.code with ⟨i, fault⟩ | u
      · rfl
      · rfl

/-! ## Acceptance -/

/-- What a module is made of, and what was checked on the way. -/
theorem lower_eq_ok {p : Program} {m : Module} (h : p.lower = .ok m) :
    Lower.checkIndices 1 p.code = .ok () ∧ Depth.check p.code = .ok () ∧
      ∃ bs, Lower.blocks p.symbols p.code.length 0 1 p.code = .ok bs ∧
        m = ⟨p.symbols.map fun s => memoryGlobal s.name,
          ⟨.entry, [], .goto (Lower.label p.code.length 1)⟩ :: bs ++ [⟨.exit, [], .ret⟩]⟩ := by
  obtain ⟨u, hindices, h⟩ := exists_of_bind_eq_ok h
  obtain ⟨bs, hblocks, h⟩ := exists_of_bind_eq_ok h
  rcases hcheck : Depth.check p.code with ⟨i, fault⟩ | u
  · rw [hcheck] at h
    cases h
  · rw [hcheck] at h
    cases h
    exact ⟨hindices, rfl, bs, hblocks, rfl⟩

theorem lowerable_of_lower {p : Program} {m : Module} (h : p.lower = .ok m) : p.Lowerable := by
  obtain ⟨hindices, hcheck, bs, hblocks, -⟩ := lower_eq_ok h
  refine ⟨fun {k i} hi => ?_, (Lower.blocks_eq_ok hblocks).complete, ?_⟩
  · exact Code.each_iff_at?.1 ((Lower.checkIndices_eq_ok_iff _ _).1 hindices) k i hi
  · exact (Depth.check_eq_ok_iff (targeted_of_blocks hblocks)).1 hcheck

theorem Lowerable.lower_isOk {p : Program} (h : p.Lowerable) : ∃ m, p.lower = .ok m := by
  have hindices : Lower.checkIndices 1 p.code = .ok () :=
    (Lower.checkIndices_eq_ok_iff _ _).2 (Code.each_iff_at?.2 fun _ _ hi => h.indexed hi)
  obtain ⟨bs, hblocks⟩ := Lower.blocks_isOk h.complete 0 1
  have hcheck : Depth.check p.code = .ok () := (Depth.check_eq_ok_iff (targeted_of_blocks hblocks)).2 h.safe
  unfold lower
  rw [hindices, hblocks, hcheck]
  exact ⟨_, rfl⟩

theorem lower_isOk_iff (p : Program) : (∃ m, p.lower = .ok m) ↔ p.Lowerable :=
  ⟨fun ⟨_, h⟩ => lowerable_of_lower h, Lowerable.lower_isOk⟩

/-- **Lowering accepts exactly the safe programs**: it always comes to an answer, without a look-up that
fails; the answer is a module for a program that can be lowered and an error for any other. -/
theorem lower_accepts_exactly_lowerable (p : Program) :
    p.lowerChecked = some p.lower ∧ ((∃ m, p.lower = .ok m) ↔ p.Lowerable) ∧
      ((∃ e, p.lower = .error e) ↔ ¬ p.Lowerable) := by
  refine ⟨lowerChecked_eq p, lower_isOk_iff p, ?_⟩
  rw [← lower_isOk_iff]
  cases p.lower with
  | ok m => simp
  | error e => simp

end Program

end RatLang
