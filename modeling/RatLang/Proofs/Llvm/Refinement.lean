import RatLang.Proofs.Llvm.Simulation

/-!
# Lowered programs refine the stack machine

The main function of a lowered program executes one block for each step of the machine, between the entry
and the exit block. The machine never leaves the paths that lowering has checked, so its stack always has
what the next instruction pops and room for what it pushes; with that, one block does one step
(`block_simulates`). Main statement (`lower_refines_machine`): control, stack, memory and output agree
after every number of steps, main returns where the machine halts, and its only fault is a division
without quotient, which is where the machine is stuck.
-/
namespace RatLang

/-! ## The blocks of a module -/

namespace Lower

open Llvm

variable {symbols : List Symbol} {count n index : Nat} {i : Instruction} {code : Code} {b : Block} {bs : List Block}

theorem label_of_block {free : Nat} (h : block symbols count n index i = .ok (b, free)) :
    b.label = .instruction index := by
  obtain ⟨number, op, operand⟩ := i
  cases op
  case pushi =>
    cases operand with
    | none => cases h
    | some value => cases h; rfl
  case pushm | popm | jump | jumpz =>
    obtain ⟨_, -, h⟩ := exists_of_bind_eq_ok h
    cases h
    rfl
  case other name => cases h
  all_goals cases h; rfl

/-- Control leaves a block for an index of the program or the one behind it. -/
theorem targets_of_block {free : Nat} (h : block symbols count n index i = .ok (b, free)) (hindex : index ≤ count) :
    ∀ l ∈ b.terminator.targets, ∃ k, (1 ≤ k ∧ k ≤ count + 1) ∧ l = label count k := by
  have hnext : ∀ l ∈ [label count (index + 1)], ∃ k, (1 ≤ k ∧ k ≤ count + 1) ∧ l = label count k := by
    intro l hl
    exact ⟨index + 1, by omega, List.mem_singleton.1 hl⟩
  have hgoal : ∀ {operand goal}, target count operand = .ok goal →
      ∃ k, (1 ≤ k ∧ k ≤ count + 1) ∧ goal = label count k := by
    intro operand goal h
    obtain ⟨t, -, ht, rfl⟩ := target_eq_ok_iff.1 h
    exact ⟨t.toNat, by omega, rfl⟩
  obtain ⟨number, op, operand⟩ := i
  cases op
  case pushi =>
    cases operand with
    | none => cases h
    | some value => cases h; exact hnext
  case pushm | popm =>
    obtain ⟨_, -, h⟩ := exists_of_bind_eq_ok h
    cases h
    exact hnext
  case jump =>
    obtain ⟨goal, htarget, h⟩ := exists_of_bind_eq_ok h
    cases h
    intro l hl
    cases List.mem_singleton.1 hl
    exact hgoal htarget
  case jumpz =>
    obtain ⟨goal, htarget, h⟩ := exists_of_bind_eq_ok h
    cases h
    intro l hl
    rcases List.mem_cons.1 hl with rfl | hl
    · exact hgoal htarget
    · exact hnext l hl
  case other name => cases h
  all_goals cases h; exact hnext

theorem Blocks.labels (h : Blocks symbols count index code bs) :
    (bs.map fun b => b.label) = (List.range' index code.length).map .instruction := by
  induction h with
  | nil => rfl
  | cons h _ ih => simp [List.range'_succ, label_of_block h, ih]

theorem Blocks.targets (h : Blocks symbols count index code bs) (hcount : index + code.length ≤ count + 1) :
    ∀ b ∈ bs, ∀ l ∈ b.terminator.targets, ∃ k, (1 ≤ k ∧ k ≤ count + 1) ∧ l = label count k := by
  induction h with
  | nil => simp
  | cons h _ ih =>
    rw [List.length_cons] at hcount
    intro b hb
    rcases List.mem_cons.1 hb with rfl | hb
    · exact targets_of_block h (by omega)
    · exact ih (by omega) b hb

/-- The block found under the index of an instruction was made from it. -/
theorem Blocks.find (h : Blocks symbols count index code bs) {k : Nat} (hi : code[k]? = some i) :
    ∃ n b free, (bs.find? fun b => b.label = .instruction (index + k)) = some b ∧
      block symbols count n (index + k) i = .ok (b, free) := by
  induction h generalizing k with
  | nil => simp at hi
  | @cons n free index j b rest others h _ ih =>
    cases k with
    | zero =>
      cases hi
      exact ⟨n, b, free, by simp [label_of_block h], h⟩
    | succ k =>
      obtain ⟨n', b', free', hfind, hb'⟩ := ih hi
      rw [show index + 1 + k = index + (k + 1) by omega] at hfind hb'
      refine ⟨n', b', free', ?_, hb'⟩
      rw [List.find?_cons_of_neg (by simp [label_of_block h]), hfind]

end Lower

namespace Program

open Llvm

variable {p : Program} {m : Module} {k : Nat}

theorem block?_entry (h : p.lower = .ok m) :
    m.block? .entry = some ⟨.entry, [], .goto (Lower.label p.code.length 1)⟩ := by
  obtain ⟨-, -, bs, -, rfl⟩ := lower_eq_ok h
  rfl

theorem block?_instruction (h : p.lower = .ok m) {i : Instruction} (hi : p.code.at? k = some i) :
    ∃ n b free, m.block? (.instruction k) = some b ∧
      Lower.block p.symbols p.code.length n k i = .ok (b, free) := by
  obtain ⟨-, -, bs, hbs, rfl⟩ := lower_eq_ok h
  obtain ⟨j, rfl⟩ : ∃ j, k = 1 + j := ⟨k - 1, by have := Code.at?_bounds hi; omega⟩
  rw [Nat.add_comm, Code.at?_succ] at hi
  obtain ⟨n, b, free, hfind, hb⟩ := (Lower.blocks_eq_ok hbs).find hi
  refine ⟨n, b, free, ?_, hb⟩
  simp [Module.block?, hfind]

theorem block?_exit (h : p.lower = .ok m) : m.block? .exit = some ⟨.exit, [], .ret⟩ := by
  obtain ⟨-, -, bs, hbs, rfl⟩ := lower_eq_ok h
  have hnone : (bs.find? fun b => b.label = .exit) = none := by
    refine List.find?_eq_none.2 fun b hb => ?_
    have hlabel := List.mem_map_of_mem (f := fun b => b.label) hb
    rw [(Lower.blocks_eq_ok hbs).labels] at hlabel
    obtain ⟨j, -, hj⟩ := List.mem_map.1 hlabel
    simp [← hj]
  simp [Module.block?, hnone]

theorem labels_of_lower (h : p.lower = .ok m) :
    (m.blocks.map fun b => b.label) = .entry :: (List.range' 1 p.code.length).map .instruction ++ [.exit] := by
  obtain ⟨-, -, bs, hbs, rfl⟩ := lower_eq_ok h
  simp [← (Lower.blocks_eq_ok hbs).labels]

theorem exists_block (h : p.lower = .ok m) (hk : 1 ≤ k ∧ k ≤ p.code.length + 1) :
    ∃ b ∈ m.blocks, b.label = Lower.label p.code.length k := by
  refine List.mem_map.1 (?_ : _ ∈ m.blocks.map fun b => b.label)
  rw [labels_of_lower h]
  by_cases hlast : k = p.code.length + 1
  · simp [Lower.label, hlast]
  · simp [Lower.label, hlast]
    omega

theorem closed_of_lower (h : p.lower = .ok m) : m.Closed := by
  refine ⟨?_, fun b hb l hl => ?_⟩
  · have hnodup : ((List.range' 1 p.code.length).map Label.instruction).Nodup :=
      List.Nodup.map (fun _ _ h => Label.instruction.inj h) List.nodup_range'
    rw [labels_of_lower h]
    simp only [List.cons_append, List.nodup_cons, List.nodup_append]
    refine ⟨by simp, hnodup, by simp, ?_⟩
    intro a ha b hb
    obtain ⟨k, -, rfl⟩ := List.mem_map.1 ha
    rw [List.mem_singleton.1 hb]
    exact nofun
  · obtain ⟨k, hk, rfl⟩ : ∃ k, (1 ≤ k ∧ k ≤ p.code.length + 1) ∧ l = Lower.label p.code.length k := by
      obtain ⟨-, -, bs, hbs, rfl⟩ := lower_eq_ok h
      simp only [List.cons_append, List.mem_cons, List.mem_append, List.not_mem_nil, or_false] at hb
      rcases hb with rfl | hb | rfl
      · exact ⟨1, by omega, List.mem_singleton.1 hl⟩
      · exact (Lower.blocks_eq_ok hbs).targets (by omega) b hb l hl
      · cases hl
    exact exists_block h hk

end Program

/-! ## Runs -/

open Llvm

/-- How main follows the machine: block by block, from the entry block on. -/
structure Refines (p : Program) (m : Module) : Prop where
  closed : m.Closed
  /-- The same place, stack, memory and output after every number of steps. -/
  step : ∀ {n s}, Machine.start.run p.code n = some s →
    ∃ t, m.run (n + 1) = .ok ⟨.block (Lower.label p.code.length s.pc), t⟩ ∧ Represents p.symbols s t
  /-- Main returns where the machine halts. -/
  halt : ∀ {n s}, Machine.HaltsIn p.code n .start s →
    ∃ t, m.run (n + 2) = .ok ⟨.returned, t⟩ ∧ Represents p.symbols s t
  /-- Main returns only there. -/
  returned : ∀ {n t}, m.run n = .ok ⟨.returned, t⟩ →
    ∃ s, Machine.Halts p.code .start s ∧ Represents p.symbols s t
  /-- Main divides without quotient where the machine is stuck. -/
  stuck : ∀ {n s}, Machine.start.run p.code n = some s → s.pc ≠ p.code.length + 1 → s.step p.code = none →
    m.run (n + 2) = .error .division
  /-- There is no other fault; in particular no access to the stack is outside its bounds. -/
  fault : ∀ {n fault}, m.run n = .error fault → fault = .division

section Run

variable {p : Program} {m : Module} {n : Nat} {s : Machine}

theorem represents_start (h : p.lower = .ok m) : Represents p.symbols .start m.start.state where
  stack := by
    refine ⟨?_, by simp [Machine.start], by simp [Machine.start]⟩
    simp [Module.start, Machine.start]
  memory e he := by
    obtain ⟨-, -, bs, -, rfl⟩ := Program.lower_eq_ok h
    have hmem : memoryGlobal e.name ∈ p.symbols.map fun s => memoryGlobal s.name := List.mem_map_of_mem he
    simp only [Module.start, List.mem_cons, hmem, or_true, if_true]
    rfl
  output := rfl

/-- A step of main at an instruction. -/
theorem step_simulates (hsym : Distinct p.symbols) (h : p.lower = .ok m) (hrun : Machine.start.run p.code n = some s)
    {i : Instruction} (hi : p.code.at? s.pc = some i) {t : State} (ht : Represents p.symbols s t) :
    Simulates p.symbols p.code.length s i (m.step ⟨.block (Lower.label p.code.length s.pc), t⟩) := by
  have hsafe := (Program.lowerable_of_lower h).safe
  have hreach := Machine.reaches_of_run hrun
  have hpops := hsafe.enough hreach hi
  have hroom := hsafe.bounded hreach hi
  obtain ⟨k, b, free, hfind, hb⟩ := Program.block?_instruction h hi
  have hlabel : Lower.label p.code.length s.pc = .instruction s.pc := by
    have := (Code.at?_bounds hi).2
    rw [Lower.label, if_neg (by omega)]
  simp only [Module.step, hlabel, hfind]
  exact block_simulates hsym hb ht (by omega) (by omega)

theorem run_simulates (hsym : Distinct p.symbols) (h : p.lower = .ok m) (hrun : Machine.start.run p.code n = some s) :
    ∃ t, m.run (n + 1) = .ok ⟨.block (Lower.label p.code.length s.pc), t⟩ ∧ Represents p.symbols s t := by
  induction n generalizing s with
  | zero =>
    cases hrun
    refine ⟨m.start.state, ?_, represents_start h⟩
    rw [Module.run_succ rfl]
    simp only [Module.step, Module.start, Program.block?_entry h]
    rfl
  | succ n ih =>
    rw [Machine.run_succ_last] at hrun
    obtain ⟨s₀, hs₀, hstep⟩ := Option.bind_eq_some_iff.1 hrun
    obtain ⟨i, hi, hperform⟩ := Option.bind_eq_some_iff.1 hstep
    obtain ⟨t₀, ht₀, hr₀⟩ := ih hs₀
    have hsim := step_simulates hsym h hs₀ hi hr₀
    unfold Simulates at hsim
    rw [hperform] at hsim
    rw [Module.run_succ ht₀]
    exact hsim

theorem run_halts (hsym : Distinct p.symbols) (h : p.lower = .ok m) (hhalts : Machine.HaltsIn p.code n .start s) :
    ∃ t, m.run (n + 2) = .ok ⟨.returned, t⟩ ∧ Represents p.symbols s t := by
  obtain ⟨hrun, hpc⟩ := hhalts
  obtain ⟨t, ht, hr⟩ := run_simulates hsym h hrun
  refine ⟨t, ?_, hr⟩
  rw [Module.run_succ ht]
  simp only [Module.step, Lower.label, hpc, if_true, Program.block?_exit h]
  rfl

theorem run_stuck (hsym : Distinct p.symbols) (h : p.lower = .ok m) (hrun : Machine.start.run p.code n = some s)
    (hpc : s.pc ≠ p.code.length + 1) (hstep : s.step p.code = none) : m.run (n + 2) = .error .division := by
  obtain ⟨t, ht, hr⟩ := run_simulates hsym h hrun
  have hbounds := (Machine.reaches_of_run hrun).bounds
    fun i hi hop => ((Program.lowerable_of_lower h).complete i hi).target hop
  cases hi : p.code.at? s.pc with
  | none =>
    rw [Code.at?_pred _ hbounds.1, List.getElem?_eq_none_iff] at hi
    omega
  | some i =>
    have hsim := step_simulates hsym h hrun hi hr
    have hperform : s.perform i = none := by
      rw [Machine.step, hi] at hstep
      exact hstep
    unfold Simulates at hsim
    rw [hperform] at hsim
    rw [Module.run_succ ht]
    exact hsim

/-- Main has no other runs: it follows the machine, has returned, or has met a division. -/
theorem run_cases (hsym : Distinct p.symbols) (h : p.lower = .ok m) (n : Nat) :
    (∃ s, Machine.start.run p.code n = some s) ∨
      (∃ s t, m.run (n + 1) = .ok ⟨.returned, t⟩ ∧ Machine.Halts p.code .start s ∧ Represents p.symbols s t) ∨
      m.run (n + 1) = .error .division := by
  induction n with
  | zero => exact Or.inl ⟨_, rfl⟩
  | succ n ih =>
    rcases ih with ⟨s, hs⟩ | ⟨s, t, ht, hs⟩ | hfault
    · by_cases hpc : s.pc = p.code.length + 1
      · obtain ⟨t, ht, hr⟩ := run_halts hsym h ⟨hs, hpc⟩
        exact Or.inr (Or.inl ⟨s, t, ht, ⟨n, hs, hpc⟩, hr⟩)
      · cases hstep : s.step p.code with
        | none => exact Or.inr (Or.inr (run_stuck hsym h hs hpc hstep))
        | some s' =>
          refine Or.inl ⟨s', ?_⟩
          rw [Machine.run_succ_last, hs]
          exact hstep
    · refine Or.inr (Or.inl ⟨s, t, ?_, hs⟩)
      rw [Module.run_succ ht]
      rfl
    · refine Or.inr (Or.inr ?_)
      rw [Module.run, hfault]
      rfl

/-- **Lowering refines the stack machine.** -/
theorem lower_refines_machine (hsym : Distinct p.symbols) (h : p.lower = .ok m) : Refines p m where
  closed := Program.closed_of_lower h
  step := run_simulates hsym h
  halt := run_halts hsym h
  stuck := run_stuck hsym h
  returned {n t} hrun := by
    cases n with
    | zero => cases hrun
    | succ n =>
      rcases run_cases hsym h n with ⟨s, hs⟩ | ⟨s, t', ht', hs⟩ | hfault
      · obtain ⟨t', ht', -⟩ := run_simulates hsym h hs
        rw [ht'] at hrun
        cases hrun
      · rw [ht'] at hrun
        cases hrun
        exact ⟨s, hs⟩
      · rw [hfault] at hrun
        cases hrun
  fault {n fault} hrun := by
    cases n with
    | zero => cases hrun
    | succ n =>
      rcases run_cases hsym h n with ⟨s, hs⟩ | ⟨s, t', ht', -⟩ | hfault
      · obtain ⟨t', ht', -⟩ := run_simulates hsym h hs
        rw [ht'] at hrun
        cases hrun
      · rw [ht'] at hrun
        cases hrun
      · rw [hfault] at hrun
        cases hrun
        rfl

end Run

/-- `integer x; x = 10; while (x) { put(x); x = x / 2; }` -/
def halves : List Stmt :=
  let pos : Position := {}
  let x : Text := bytes "x"
  [.declaration pos (bytes "integer") [x], .assignment pos x (.literal pos 10),
    .loop pos (.identifier pos x)
      [.output pos (.identifier pos x),
        .assignment pos x (.binary pos (bytes "/") (.identifier pos x) (.literal pos 2))]]

/-- Its symbols and its code. -/
def halving : Program where
  symbols := [⟨bytes "x", defaultBase, bytes "integer"⟩]
  code := [⟨1, .pushi, some 10⟩, ⟨2, .popm, some 9000⟩, ⟨3, .pushm, some 9000⟩, ⟨4, .jumpz, some 12⟩,
    ⟨5, .pushm, some 9000⟩, ⟨6, .stdout, none⟩, ⟨7, .pushm, some 9000⟩, ⟨8, .pushi, some 2⟩, ⟨9, .div, none⟩,
    ⟨10, .popm, some 9000⟩, ⟨11, .jump, some 3⟩]

/-- The loop of halves is lowered, and main follows it until it has printed 10, 5, 2 and 1. -/
theorem halving_refined :
    compile { arithmetic := true } halves = .ok halving ∧ Distinct halving.symbols ∧
      ∃ m, halving.lower = .ok m ∧ Refines halving m ∧
        ∃ n t, m.run n = .ok ⟨.returned, t⟩ ∧ t.output = [10, 5, 2, 1] := by
  have hcompile : compile { arithmetic := true } halves = .ok halving := rfl
  have hsym : Distinct halving.symbols := compile_distinct hcompile (by decide)
  have hok : halving.lower.toBool = true := by decide +kernel
  cases h : halving.lower with
  | error e => rw [h] at hok; cases hok
  | ok m =>
    have href := lower_refines_machine hsym h
    -- the machine halts after 40 steps
    obtain ⟨t, ht, hr⟩ := href.halt (n := 40) ⟨rfl, rfl⟩
    exact ⟨hcompile, hsym, m, rfl, href, 42, t, ht, hr.output⟩

end RatLang
