import RatLang.Program.Depth
import RatLang.Proofs.Program.Machine

/-!
# Paths and stack depths

`Code.Reaches code k d` says that some path through the code, from the first instruction on, arrives at
index `k` with `d` values on the stack; both ways of a conditional jump count. Code is safe when no path
pops more than there is, none leaves more than the stack has room for, and all paths to an index agree.
Every run of the machine is such a path (`Machine.reaches_of_run`).

The check visits each index once, although the paths may be infinitely many. Its invariant (`Inv`) has
two sides: every depth found is the depth of a path, and the successors of every index that was found
and is not waiting are found too. Main statement: the check succeeds exactly on safe code
(`check_eq_ok_iff`).
-/
namespace RatLang

/-! ## Paths -/

/-- A path arrives at an index with a number of values. The number is an integer, so that a path may
also pop what is not there. -/
inductive Code.Reaches (code : Code) : Nat → Int → Prop
  | start : Reaches code 1 0
  | next {k d i} (h : Reaches code k d) (hi : code.at? k = some i) (hop : i.op ≠ .jump) :
    Reaches code (k + 1) (d - i.op.pops + i.op.pushes)
  | jump {k d i t} (h : Reaches code k d) (hi : code.at? k = some i) (hop : i.op = .jump ∨ i.op = .jumpz)
    (ht : i.operand = some t) : Reaches code t.toNat (d - i.op.pops + i.op.pushes)

/-- Every path has the values it pops, keeps within the stack, and agrees with the others. -/
structure Code.StackSafe (code : Code) : Prop where
  enough : ∀ {k d i}, code.Reaches k d → code.at? k = some i → i.op.pops ≤ d
  bounded : ∀ {k d i}, code.Reaches k d → code.at? k = some i → d - i.op.pops + i.op.pushes ≤ stackSize
  agreed : ∀ {k d d'}, code.Reaches k d → code.Reaches k d' → d = d'

/-- Every jump goes to an instruction or just behind the last one. -/
def Code.Targeted (code : Code) : Prop :=
  ∀ i ∈ code, i.op = .jump ∨ i.op = .jumpz → ∃ t, i.operand = some t ∧ 1 ≤ t ∧ t ≤ code.length + 1

namespace Code

variable {code : Code} {k s : Nat} {i : Instruction}

/-- The successors of an instruction: the next index unless it always jumps, and its target if it can. -/
theorem mem_successors (h : i.op = .jump ∨ i.op = .jumpz → ∃ t, i.operand = some t) :
    s ∈ i.successors k ↔
      (i.op ≠ .jump ∧ s = k + 1) ∨
        ((i.op = .jump ∨ i.op = .jumpz) ∧ ∃ t, i.operand = some t ∧ s = t.toNat) := by
  unfold Instruction.successors
  split
  · rename_i hop
    obtain ⟨t, ht⟩ := h (Or.inl hop)
    simp [hop, ht]
  · rename_i hop
    obtain ⟨t, ht⟩ := h (Or.inr hop)
    simp [hop, ht, or_comm]
  · rename_i hj hz
    have hj : i.op ≠ .jump := hj
    have hz : i.op ≠ .jumpz := hz
    simp [hj, hz]

theorem Targeted.operand (hT : code.Targeted) (hi : code.at? k = some i) (hop : i.op = .jump ∨ i.op = .jumpz) :
    ∃ t, i.operand = some t := by
  obtain ⟨t, ht, -, -⟩ := hT i (mem_of_at? hi) hop
  exact ⟨t, ht⟩

theorem Targeted.successor_bounds (hT : code.Targeted) (hi : code.at? k = some i) (hs : s ∈ i.successors k) :
    1 ≤ s ∧ s ≤ code.length + 1 := by
  have hk := at?_bounds hi
  rcases (mem_successors (hT.operand hi)).1 hs with ⟨-, rfl⟩ | ⟨hop, t, ht, rfl⟩
  · omega
  · obtain ⟨t', ht', h1, h2⟩ := hT i (mem_of_at? hi) hop
    rw [ht] at ht'
    cases ht'
    omega

theorem Reaches.successor (hT : code.Targeted) {d : Int} (h : code.Reaches k d) (hi : code.at? k = some i)
    (hs : s ∈ i.successors k) : code.Reaches s (d - i.op.pops + i.op.pushes) := by
  rcases (mem_successors (hT.operand hi)).1 hs with ⟨hop, rfl⟩ | ⟨hop, t, ht, rfl⟩
  · exact .next h hi hop
  · exact .jump h hi hop ht

/-- What holds at the start and passes to successors holds at the end of every path. -/
theorem Reaches.induct_successor (hT : code.Targeted) {P : Nat → Int → Prop} (hstart : P 1 0)
    (hstep : ∀ {k d i s}, code.Reaches k d → P k d → code.at? k = some i → s ∈ i.successors k →
      P s (d - i.op.pops + i.op.pushes)) {d : Int} (h : code.Reaches k d) : P k d := by
  induction h with
  | start => exact hstart
  | next h hi hop ih => exact hstep h ih hi ((mem_successors (hT.operand hi)).2 (Or.inl ⟨hop, rfl⟩))
  | jump h hi hop ht ih =>
    exact hstep h ih hi ((mem_successors (hT.operand hi)).2 (Or.inr ⟨hop, _, ht, rfl⟩))

theorem Reaches.bounds (hT : code.Targeted) {d : Int} (h : code.Reaches k d) : 1 ≤ k ∧ k ≤ code.length + 1 :=
  h.induct_successor hT (P := fun k _ => 1 ≤ k ∧ k ≤ code.length + 1) (by omega)
    fun _ _ hi hs => hT.successor_bounds hi hs

end Code

/-! ## The machine keeps to the paths -/

theorem Opcode.operator_effect {op : Opcode} (h : op ∈ Opcode.operators) :
    ¬ (op = .jump ∨ op = .jumpz) ∧ op.pops = 2 ∧ op.pushes = 1 := by
  revert op
  decide

theorem Opcode.mem_operators_of_combine? {op : Opcode} {left right v : Int64} (h : op.combine? left right = some v) :
    op ∈ Opcode.operators := by
  cases op with
  | add | sub | mul | div | les | grt | leq | geq | neq => decide
  | pushi | pushm | popm | jump | jumpz | stdout | other => cases h

namespace Machine

variable {code : Code} {s s' : Machine} {i : Instruction}

/-- An instruction pops and pushes as many values as it should, and goes on or jumps. -/
theorem perform_effect (h : s.perform i = some s') :
    (s'.stack.length : Int) = s.stack.length - i.op.pops + i.op.pushes ∧
      ((i.op ≠ .jump ∧ s'.pc = s.pc + 1) ∨
        ((i.op = .jump ∨ i.op = .jumpz) ∧ ∃ t, i.operand = some t ∧ s'.pc = t.toNat)) := by
  unfold perform at h
  split at h
  · rename_i hop hoperand
    cases h
    simp [hop, Opcode.pops, Opcode.pushes]
  · rename_i hop hoperand
    cases h
    simp [hop, Opcode.pops, Opcode.pushes]
  · rename_i hop hoperand hstack
    cases h
    simp [hop, hstack, Opcode.pops, Opcode.pushes]
  · rename_i hop hstack
    cases h
    simp [hop, hstack, Opcode.pops, Opcode.pushes]
  · rename_i hop hoperand
    cases h
    simp [hop, hoperand, Opcode.pops, Opcode.pushes]
  · rename_i t v stack hop hoperand hstack
    cases h
    by_cases hv : v = 0
    · simp [hop, hoperand, hstack, hv, Opcode.pops, Opcode.pushes]
    · simp [hop, hoperand, hstack, hv, Opcode.pops, Opcode.pushes]
  · rename_i hstack _ _ _ _ _ _
    obtain ⟨v, hv, rfl⟩ := Option.map_eq_some_iff.1 h
    obtain ⟨hop, hpops, hpushes⟩ := Opcode.operator_effect (Opcode.mem_operators_of_combine? hv)
    refine ⟨?_, Or.inl ⟨fun h => hop (Or.inl h), rfl⟩⟩
    rw [hpops, hpushes, hstack]
    simp only [List.length_cons]
    omega
  · cases h

theorem reaches_of_perform (hr : code.Reaches s.pc s.stack.length) (hi : code.at? s.pc = some i)
    (h : s.perform i = some s') : code.Reaches s'.pc s'.stack.length := by
  obtain ⟨hlength, ⟨hop, hpc⟩ | ⟨hop, t, ht, hpc⟩⟩ := perform_effect h
  · rw [hlength, hpc]
    exact .next hr hi hop
  · rw [hlength, hpc]
    exact .jump hr hi hop ht

/-- Every run of the machine is a path. -/
theorem reaches_of_run {n : Nat} (h : start.run code n = some s) : code.Reaches s.pc s.stack.length := by
  induction n generalizing s with
  | zero =>
    cases h
    exact .start
  | succ n ih =>
    rw [run_succ_last] at h
    obtain ⟨s₀, hs₀, hstep⟩ := Option.bind_eq_some_iff.1 h
    obtain ⟨i, hi, hperform⟩ := Option.bind_eq_some_iff.1 hstep
    exact reaches_of_perform (ih hs₀) hi hperform

end Machine

/-! ## Reaching successors -/

/-- The successors of an instruction, if its operand is there and names an index at all. -/
def Instruction.successors? (i : Instruction) (index : Nat) : Option (List Nat) :=
  match i.op, i.operand with
  | .jump, some (.ofNat t) => some [t]
  | .jumpz, some (.ofNat t) => some [t, index + 1]
  | .jump, _ | .jumpz, _ => none
  | _, _ => some [index + 1]

namespace Depth

/-- The depth found for an index. -/
def Found (depths : Depths) (k d : Nat) : Prop := depths[k]? = some (some d)

theorem found_set {depths : Depths} {s d k e : Nat} (hs : depths[s]? = some none) :
    Found (depths.set s (some d)) k e ↔ (k = s ∧ e = d) ∨ Found depths k e := by
  unfold Found
  have hlt : s < depths.length := (List.getElem?_eq_some_iff.1 hs).1
  by_cases hk : k = s
  · subst hk
    simp [List.getElem?_set_self hlt, hs, eq_comm]
  · simp [List.getElem?_set_ne (Ne.symm hk), hk]

theorem open_set {depths : Depths} {s d k : Nat} (hs : depths[s]? = some none) :
    (depths.set s (some d))[k]? = some none ↔ k ≠ s ∧ depths[k]? = some none := by
  have hlt : s < depths.length := (List.getElem?_eq_some_iff.1 hs).1
  by_cases hk : k = s
  · subst hk
    simp [List.getElem?_set_self hlt]
  · simp [List.getElem?_set_ne (Ne.symm hk), hk]

/-- What recording the depth `after` of the successors `succ` makes of depths and work. -/
structure Reached (after : Nat) (succ : List Nat) (depths : Depths) (work : List Nat)
    (depths' : Depths) (work' : List Nat) : Prop where
  length : depths'.length = depths.length
  found : ∀ k d, Found depths' k d ↔ Found depths k d ∨ (d = after ∧ k ∈ succ ∧ depths[k]? = some none)
  work : ∀ k, k ∈ work' ↔ k ∈ work ∨ (k ∈ succ ∧ depths[k]? = some none)
  agree : ∀ s ∈ succ, ∀ d, Found depths s d → d = after

/-- A successor seen for the first time. -/
theorem Reached.record {after s : Nat} {succ : List Nat} {depths depths' : Depths} {work work' : List Nat}
    (hs : depths[s]? = some none)
    (h : Reached after succ (depths.set s (some after)) (s :: work) depths' work') :
    Reached after (s :: succ) depths work depths' work' := by
  refine ⟨by simp [h.length], fun k d => ?_, fun k => ?_, fun k hk d hd => ?_⟩
  · rw [h.found, found_set hs, open_set hs]
    by_cases hk : k = s
    · subst hk
      simp [hs, or_comm]
    · simp [hk]
  · rw [h.work, open_set hs]
    by_cases hk : k = s
    · subst hk
      simp [hs]
    · simp [hk]
  · rcases List.mem_cons.1 hk with rfl | hk
    · rw [Found, hs] at hd
      cases hd
    · exact h.agree k hk d ((found_set hs).2 (Or.inr hd))

/-- A successor that has the depth already. -/
theorem Reached.keep {after s : Nat} {succ : List Nat} {depths depths' : Depths} {work work' : List Nat}
    (hs : ∀ d, depths[s]? = some d → d = some after) (h : Reached after succ depths work depths' work') :
    Reached after (s :: succ) depths work depths' work' := by
  have hopen : ∀ k, k ∈ s :: succ ∧ depths[k]? = some none ↔ k ∈ succ ∧ depths[k]? = some none := by
    intro k
    constructor
    · rintro ⟨hk, hn⟩
      rcases List.mem_cons.1 hk with rfl | hk
      · cases hs _ hn
      · exact ⟨hk, hn⟩
    · rintro ⟨hk, hn⟩
      exact ⟨List.mem_cons_of_mem _ hk, hn⟩
  refine ⟨h.length, fun k d => ?_, fun k => ?_, fun k hk d hd => ?_⟩
  · rw [h.found, hopen]
  · rw [h.work, hopen]
  · rcases List.mem_cons.1 hk with rfl | hk
    · exact Option.some.inj (hs _ hd)
    · exact h.agree k hk d hd

theorem reach_ok {n : Nat} {after : Nat} (succ : List Nat) :
    ∀ {front front' : Frontier n}, reach after front succ = .ok front' →
      Reached after succ front.depths front.work front'.depths front'.work := by
  induction succ with
  | nil =>
    intro front front' h
    cases h
    exact ⟨rfl, by simp, by simp, by simp⟩
  | cons s succ ih =>
    intro front front' h
    unfold reach at h
    split at h
    · rename_i hs
      exact .record hs (ih h)
    · rename_i other hs
      split at h
      · rename_i heq
        refine .keep (fun d hd => ?_) (ih h)
        rw [hs] at hd
        cases hd
        rw [heq]
      · cases h
    · rename_i hs
      refine .keep (fun d hd => ?_) (ih h)
      rw [hs] at hd
      cases hd

/-- A clash is with a depth that was found before: those recorded on the way are the same. -/
theorem reach_error {n : Nat} {after : Nat} (succ : List Nat) :
    ∀ {front : Frontier n} {fault : DepthFault}, reach after front succ = .error fault →
      ∃ s ∈ succ, ∃ d, Found front.depths s d ∧ d ≠ after := by
  induction succ with
  | nil =>
    intro front fault h
    cases h
  | cons s succ ih =>
    intro front fault h
    unfold reach at h
    split at h
    · rename_i hs
      obtain ⟨k, hk, d, hd, hne⟩ := ih h
      rcases (found_set hs).1 hd with ⟨-, rfl⟩ | hd
      · exact absurd rfl hne
      · exact ⟨k, List.mem_cons_of_mem _ hk, d, hd, hne⟩
    · rename_i other hs
      split at h
      · obtain ⟨k, hk, d, hd, hne⟩ := ih h
        exact ⟨k, List.mem_cons_of_mem _ hk, d, hd, hne⟩
      · rename_i hne
        exact ⟨s, List.mem_cons_self, other, hs, hne⟩
    · obtain ⟨k, hk, d, hd, hne⟩ := ih h
      exact ⟨k, List.mem_cons_of_mem _ hk, d, hd, hne⟩

/-! ## The invariant -/

/-- Depths found belong to paths, waiting indices are found, and every index that is found and not
waiting has passed the check and its successors are found. -/
structure Inv (code : Code) (depths : Depths) (work : List Nat) : Prop where
  length : depths.length = code.length + 2
  first : Found depths 1 0
  sound : ∀ {k d}, Found depths k d → code.Reaches k d
  waiting : ∀ k ∈ work, ∃ d, Found depths k d
  done : ∀ {k d i}, Found depths k d → k ∉ work → code.at? k = some i →
    i.op.pops ≤ d ∧ d - i.op.pops + i.op.pushes ≤ stackSize ∧
      ∀ s ∈ i.successors k, Found depths s (d - i.op.pops + i.op.pushes)

theorem Found.unique {depths : Depths} {k d e : Nat} (h : Found depths k d) (h' : Found depths k e) : d = e := by
  rw [Found, h] at h'
  cases h'
  rfl

namespace Inv

variable {code : Code} {depths : Depths} {index : Nat} {rest : List Nat} {i : Instruction}

theorem init (code : Code) : Inv code ((List.replicate (code.length + 2) none).set 1 (some 0)) [1] := by
  have hopen : (List.replicate (code.length + 2) (none : Option Nat))[1]? = some none := by simp
  have hnone : ∀ k d, ¬ Found (List.replicate (code.length + 2) none) k d := by
    intro k d h
    simp [Found, List.getElem?_replicate] at h
  refine ⟨by simp, (found_set hopen).2 (Or.inl ⟨rfl, rfl⟩), fun {k d} h => ?_, fun k hk => ?_, fun {k d i} h hk => ?_⟩
  · rcases (found_set hopen).1 h with ⟨rfl, rfl⟩ | h
    · exact .start
    · exact absurd h (hnone k d)
  · cases List.mem_singleton.1 hk
    exact ⟨0, (found_set hopen).2 (Or.inl ⟨rfl, rfl⟩)⟩
  · rcases (found_set hopen).1 h with ⟨rfl, -⟩ | h
    · exact absurd List.mem_cons_self hk
    · exact absurd h (hnone k d)

/-- Once nothing waits, all paths have been seen. -/
theorem stackSafe (hT : code.Targeted) (h : Inv code depths []) : code.StackSafe := by
  have key : ∀ {k d}, code.Reaches k d → ∃ n, Found depths k n ∧ d = n := by
    intro k d hr
    refine hr.induct_successor hT (P := fun k d => ∃ n, Found depths k n ∧ d = (n : Int)) ⟨0, h.first, rfl⟩ ?_
    rintro k d i s - ⟨n, hn, rfl⟩ hi hs
    obtain ⟨hpops, -, hsucc⟩ := h.done hn (by simp) hi
    exact ⟨_, hsucc s hs, by omega⟩
  refine ⟨fun hr hi => ?_, fun hr hi => ?_, fun hr hr' => ?_⟩
  · obtain ⟨n, hn, rfl⟩ := key hr
    have := (h.done hn (by simp) hi).1
    omega
  · obtain ⟨n, hn, rfl⟩ := key hr
    obtain ⟨h₁, h₂, -⟩ := h.done hn (by simp) hi
    omega
  · obtain ⟨n, hn, rfl⟩ := key hr
    obtain ⟨n', hn', rfl⟩ := key hr'
    rw [hn.unique hn']

/-- The index behind the last instruction needs no visit. -/
theorem skip (h : Inv code depths (index :: rest)) (hi : code.at? index = none) : Inv code depths rest := by
  refine ⟨h.length, h.first, h.sound, fun k hk => h.waiting k (List.mem_cons_of_mem _ hk), ?_⟩
  intro k d i hk hrest hki
  refine h.done hk ?_ hki
  rintro hmem
  rcases List.mem_cons.1 hmem with rfl | hmem
  · rw [hi] at hki
    cases hki
  · exact hrest hmem

/-- A visit: the instruction has its values and room, and its successors are recorded. -/
theorem visit (hT : code.Targeted) (h : Inv code depths (index :: rest)) (hi : code.at? index = some i) {d : Nat}
    (hd : Found depths index d) (hpops : i.op.pops ≤ d) (hroom : d - i.op.pops + i.op.pushes ≤ stackSize)
    {depths' : Depths} {work' : List Nat}
    (hr : Reached (d - i.op.pops + i.op.pushes) (i.successors index) depths rest depths' work') :
    Inv code depths' work' := by
  have hkeep : ∀ {k e}, Found depths k e → Found depths' k e := fun hk => (hr.found _ _).2 (Or.inl hk)
  -- every successor is within the list of depths, so it is found now
  have hsucc : ∀ s ∈ i.successors index, Found depths' s (d - i.op.pops + i.op.pushes) := by
    intro s hs
    have hlt : s < depths.length := by
      have := (hT.successor_bounds hi hs).2
      have := h.length
      omega
    cases hcase : depths[s] with
    | none =>
      exact (hr.found _ _).2 (Or.inr ⟨rfl, hs, by rw [List.getElem?_eq_getElem hlt, hcase]⟩)
    | some e =>
      have hse : Found depths s e := by rw [Found, List.getElem?_eq_getElem hlt, hcase]
      rw [← hr.agree s hs e hse]
      exact hkeep hse
  refine ⟨hr.length.trans h.length, hkeep h.first, fun {k e} hk => ?_, fun k hk => ?_, fun {k e j} hk hwork hkj => ?_⟩
  · rcases (hr.found k e).1 hk with hk | ⟨rfl, hks, -⟩
    · exact h.sound hk
    · have := (h.sound hd).successor hT hi hks
      rwa [show ((d - i.op.pops + i.op.pushes : Nat) : Int) = d - i.op.pops + i.op.pushes by omega]
  · rcases (hr.work k).1 hk with hk | ⟨hks, -⟩
    · obtain ⟨e, he⟩ := h.waiting k (List.mem_cons_of_mem _ hk)
      exact ⟨e, hkeep he⟩
    · exact ⟨_, hsucc k hks⟩
  · rcases (hr.found k e).1 hk with hk | ⟨-, hks, hopen⟩
    · by_cases hki : k = index
      · subst hki
        rw [hi] at hkj
        cases hkj
        cases hd.unique hk
        exact ⟨hpops, hroom, hsucc⟩
      · have hnot : k ∉ index :: rest := by
          intro hmem
          rcases List.mem_cons.1 hmem with hmem | hmem
          · exact hki hmem
          · exact hwork ((hr.work k).2 (Or.inl hmem))
        obtain ⟨h₁, h₂, h₃⟩ := h.done hk hnot hkj
        exact ⟨h₁, h₂, fun s hs => hkeep (h₃ s hs)⟩
    · exact absurd ((hr.work k).2 (Or.inr ⟨hks, hopen⟩)) hwork

end Inv

/-! ## The check -/

/-- The visit with every look-up in the open: `none` when an index lies outside its list, an index
without depth is visited, or an operand is missing. -/
def visitChecked (code : Code) (depths : Depths) (work : List Nat) :
    Option (Except (Instruction × DepthFault) Unit) :=
  match work with
  | [] => some (.ok ())
  | index :: rest =>
    if index = code.length + 1 then visitChecked code depths rest
    else
      match code.at? index, depths[index]?.join with
      | some ins, some depth =>
        if depth < ins.op.pops then some (.error (ins, .underflow ins.op.pops depth))
        else
          let after := depth - ins.op.pops + ins.op.pushes
          if stackSize < after then some (.error (ins, .overflow))
          else
            match ins.successors? index with
            | none => none
            | some succ =>
              if succ.all (· < depths.length) then
                match reach after (⟨depths, rest, Nat.le_refl _⟩ : Frontier (unreached depths + rest.length)) succ with
                | .error fault => some (.error (ins, fault))
                | .ok next => visitChecked code next.depths next.work
              else none
      | _, _ => none
termination_by unreached depths + work.length
decreasing_by
  · simp
  · have := next.bound; simp only [List.length_cons]; omega

theorem successors?_eq {code : Code} (hT : code.Targeted) {k : Nat} {i : Instruction} (hi : code.at? k = some i) :
    i.successors? k = some (i.successors k) := by
  have hnat : i.op = .jump ∨ i.op = .jumpz → ∃ t : Nat, i.operand = some (.ofNat t) := by
    intro hop
    obtain ⟨t, ht, h1, -⟩ := hT i (Code.mem_of_at? hi) hop
    exact ⟨t.toNat, by rw [ht, Int.ofNat_eq_natCast, Int.toNat_of_nonneg (by omega)]⟩
  unfold Instruction.successors? Instruction.successors
  cases hop : i.op with
  | jump =>
    obtain ⟨t, ht⟩ := hnat (Or.inl hop)
    rw [ht]
    rfl
  | jumpz =>
    obtain ⟨t, ht⟩ := hnat (Or.inr hop)
    rw [ht]
    rfl
  | _ => rfl

namespace Inv

variable {code : Code} {depths : Depths} {index : Nat} {rest : List Nat} {i : Instruction}

/-- The index to visit next is an index of the code, or just behind it. -/
theorem head_bounds (hT : code.Targeted) (h : Inv code depths (index :: rest)) :
    1 ≤ index ∧ index ≤ code.length + 1 := by
  obtain ⟨d, hd⟩ := h.waiting index List.mem_cons_self
  exact (h.sound hd).bounds hT

/-- The depth that a visit looks up was found. -/
theorem head_found (h : Inv code depths (index :: rest)) : Found depths index (depths[index]?.join.getD 0) := by
  obtain ⟨d, hd⟩ := h.waiting index List.mem_cons_self
  rw [hd]
  exact hd

theorem visitChecked_cons (hT : code.Targeted) (h : Inv code depths (index :: rest)) (hi : code.at? index = some i)
    {d : Nat} (hd : Found depths index d) :
    visitChecked code depths (index :: rest) =
      if d < i.op.pops then some (.error (i, .underflow i.op.pops d))
      else if stackSize < d - i.op.pops + i.op.pushes then some (.error (i, .overflow))
      else
        match reach (d - i.op.pops + i.op.pushes)
            (⟨depths, rest, Nat.le_refl _⟩ : Frontier (unreached depths + rest.length)) (i.successors index) with
        | .error fault => some (.error (i, fault))
        | .ok next => visitChecked code next.depths next.work := by
  have hne : index ≠ code.length + 1 := by have := Code.at?_bounds hi; omega
  have hjoin : depths[index]?.join = some d := by rw [hd]; rfl
  have hall : (i.successors index).all (· < depths.length) = true := by
    refine List.all_eq_true.2 fun s hs => ?_
    have := (hT.successor_bounds hi hs).2
    have := h.length
    simp only [decide_eq_true_eq]
    omega
  rw [visitChecked, if_neg hne]
  simp only [hi, hjoin, successors?_eq hT hi, hall, if_true]

end Inv

/-- The visit looks up nothing that is not there, and it succeeds exactly on safe code. -/
theorem visit_spec {code : Code} (hT : code.Targeted) (depths : Depths) (work : List Nat) (h : Inv code depths work) :
    visitChecked code depths work = some (visit code depths work) ∧
      (visit code depths work = .ok () → code.StackSafe) ∧
      ∀ e, visit code depths work = .error e → ¬ code.StackSafe := by
  fun_induction visit code depths work with
  | case1 depths =>
    rw [visitChecked]
    exact ⟨rfl, fun _ => h.stackSafe hT, nofun⟩
  | case2 depths index rest hi ih =>
    have hb := h.head_bounds hT
    have hlast : index = code.length + 1 := by
      have := List.getElem?_eq_none_iff.1 hi
      omega
    rw [visitChecked, if_pos hlast]
    rw [← code.at?_pred hb.1] at hi
    exact ih (h.skip hi)
  | case3 depths index rest i hi depth hpops =>
    rw [← code.at?_pred (h.head_bounds hT).1] at hi
    have hd : Found depths index depth := h.head_found
    rw [h.visitChecked_cons hT hi hd, if_pos hpops]
    refine ⟨rfl, nofun, fun e _ hsafe => ?_⟩
    have := hsafe.enough (h.sound hd) hi
    omega
  | case4 depths index rest i hi depth hpops after hroom =>
    rw [← code.at?_pred (h.head_bounds hT).1] at hi
    have hd : Found depths index depth := h.head_found
    rw [h.visitChecked_cons hT hi hd, if_neg hpops, if_pos hroom]
    refine ⟨rfl, nofun, fun e _ hsafe => ?_⟩
    have := hsafe.bounded (h.sound hd) hi
    omega
  | case5 depths index rest i hi depth hpops after hroom fault hreach =>
    rw [← code.at?_pred (h.head_bounds hT).1] at hi
    have hd : Found depths index depth := h.head_found
    rw [h.visitChecked_cons hT hi hd, if_neg hpops, if_neg hroom, hreach]
    refine ⟨rfl, nofun, fun e _ hsafe => ?_⟩
    -- both the depth found before and the new one are depths of paths
    obtain ⟨s, hs, e, he, hne⟩ := reach_error _ hreach
    have := hsafe.agreed (h.sound he) ((h.sound hd).successor hT hi hs)
    omega
  | case6 depths index rest i hi depth hpops after hroom next hreach ih =>
    rw [← code.at?_pred (h.head_bounds hT).1] at hi
    have hd : Found depths index depth := h.head_found
    rw [h.visitChecked_cons hT hi hd, if_neg hpops, if_neg hroom, hreach]
    exact ih (h.visit hT hi hd (by omega) (by omega) (reach_ok _ hreach))

/-- The check with every look-up in the open. -/
def checkChecked (code : Code) : Option (Except (Instruction × DepthFault) Unit) :=
  visitChecked code ((List.replicate (code.length + 2) none).set 1 (some 0)) [1]

theorem checkChecked_eq {code : Code} (hT : code.Targeted) : checkChecked code = some (check code) :=
  (visit_spec hT _ _ (.init code)).1

/-- **The check succeeds exactly on safe code.** -/
theorem check_eq_ok_iff {code : Code} (hT : code.Targeted) : check code = .ok () ↔ code.StackSafe := by
  obtain ⟨-, hok, herror⟩ := visit_spec hT _ _ (.init code)
  refine ⟨hok, fun hsafe => ?_⟩
  cases hcheck : check code with
  | ok => rfl
  | error e => exact absurd hsafe (herror e hcheck)

end Depth

end RatLang
