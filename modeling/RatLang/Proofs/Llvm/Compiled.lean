import Mathlib.Algebra.Ring.Int.Defs
import RatLang.Proofs.Llvm.Accept
import RatLang.Proofs.Program.Placed
import RatLang.Proofs.Statement.Operands
import RatLang.Proofs.Statement.Warning

/-!
# Compiled programs that can be lowered

In compiled code every jump joins places where the stack is empty, so the number of values at an index is
what the instructions before it leave, one after the other (`Code.height`). With that, translatable
programs whose expressions need no more than the stack has room for fit (`Placed.fits`), and fitting code
can be lowered.

Conversely every statement of compiled code is reached with an empty stack. So lowered code has an
address for each name, an expression before each instruction that pops its value, and room for all
values of an expression (`Placed.translatable`).
-/
namespace RatLang

/-! ## Heights -/

/-- The number of values that the instructions before an index leave on the stack. -/
def Code.height (code : Code) (k : Nat) : Int :=
  ((code.take (k - 1)).map fun i => (i.op.pushes : Int) - i.op.pops).sum

theorem Code.height_one (code : Code) : code.height 1 = 0 := by
  simp [Code.height]

theorem Code.height_succ {code : Code} {k : Nat} {i : Instruction} (hi : code.at? k = some i) :
    code.height (k + 1) = code.height k - i.op.pops + i.op.pushes := by
  obtain ⟨j, rfl⟩ : ∃ j, k = j + 1 := ⟨k - 1, by have := Code.at?_bounds hi; omega⟩
  rw [Code.at?_succ] at hi
  have htake : code.take (j + 1) = code.take j ++ [i] := by
    rw [List.take_add_one, hi]
    rfl
  simp only [Code.height, Nat.add_sub_cancel, htake, List.map_append, List.sum_append, List.map_cons, List.map_nil,
    List.sum_cons, List.sum_nil]
  omega

/-- An instruction has what it needs where it stands, and jumps only between places of one height. -/
structure Fits (symbols : List Symbol) (code : Code) (k : Nat) (i : Instruction) : Prop where
  index : i.index = k
  complete : i.Complete symbols code.length
  enough : i.op.pops ≤ code.height k
  bounded : code.height (k + 1) ≤ stackSize
  level : i.op = .jump ∨ i.op = .jumpz → ∀ t, i.operand = some t → code.height t.toNat = code.height (k + 1)

/-- Code that fits is safe: all paths arrive with the height of the place. -/
theorem lowerable_of_fits {p : Program} (h : Code.Each (Fits p.symbols p.code) 1 p.code) : p.Lowerable := by
  have hfits : ∀ {k : Nat} {i}, p.code.at? k = some i → Fits p.symbols p.code k i :=
    fun hi => Code.each_iff_at?.1 h _ _ hi
  have hcomplete : ∀ i ∈ p.code, i.Complete p.symbols p.code.length := by
    intro i hi
    obtain ⟨k, hk⟩ := List.getElem?_of_mem hi
    rw [← Code.at?_succ] at hk
    exact (hfits hk).complete
  have hT : p.code.Targeted := fun i hi hop => (hcomplete i hi).target hop
  have hheight : ∀ {k d}, p.code.Reaches k d → d = p.code.height k := by
    intro k d hr
    refine hr.induct_successor hT (P := fun k d => d = p.code.height k) p.code.height_one.symm ?_
    rintro k d i s - rfl hi hs
    rw [← Code.height_succ hi]
    rcases (Code.mem_successors (hT.operand hi)).1 hs with ⟨-, rfl⟩ | ⟨hop, t, ht, rfl⟩
    · rfl
    · exact ((hfits hi).level hop t ht).symm
  refine ⟨fun hi => (hfits hi).index, hcomplete, fun hr hi => ?_, fun hr hi => ?_, fun hr hr' => ?_⟩
  · rw [hheight hr]
    exact (hfits hi).enough
  · rw [hheight hr, ← Code.height_succ hi]
    exact (hfits hi).bounded
  · rw [hheight hr, hheight hr']

/-! ## Translatable programs fit -/

section

variable {code : Code} {opts : Options} {arithmetic : Bool} {T t : SymbolTable} {k n : Nat} {i : Instruction}

/-- An instruction that does not jump. -/
theorem Fits.straight {symbols : List Symbol} (hi : code.at? k = some i) (hindex : i.index = k)
    (hcomplete : i.Complete symbols code.length) (hop : ¬ (i.op = .jump ∨ i.op = .jumpz))
    (henough : i.op.pops ≤ code.height k) (hroom : code.height k - i.op.pops + i.op.pushes ≤ stackSize) :
    Fits symbols code k i :=
  ⟨hindex, hcomplete, henough, by rwa [Code.height_succ hi], fun h => absurd h hop⟩

theorem Opcode.complete_of_operator {symbols : List Symbol} {count : Nat} {op : Opcode} (h : op ∈ Opcode.operators)
    (index : Int) (operand : Option Int) : Instruction.Complete symbols count ⟨index, op, operand⟩ := by
  simp only [Opcode.operators, List.mem_cons, List.not_mem_nil, or_false] at h
  rcases h with rfl | rfl | rfl | rfl | rfl | rfl | rfl | rfl | rfl <;>
    exact ⟨Opcode.mem_known_iff.2 (by simp), by simp, by simp, by simp⟩

/-- A literal or a name pushes its value. -/
theorem fits_push {symbols : List Symbol} (hi : code.at? n = some i) (hop : i.op = .pushi ∨ i.op = .pushm)
    (hindex : i.index = n) (hcomplete : i.Complete symbols code.length) (hpos : 0 ≤ code.height n)
    (hroom : code.height n + 1 ≤ stackSize) :
    Code.Each (Fits symbols code) n [i] ∧ code.height (n + 1) = code.height n + 1 := by
  have hsucc := Code.height_succ hi
  have heffect : i.op.pops = 0 ∧ i.op.pushes = 1 ∧ ¬ (i.op = .jump ∨ i.op = .jumpz) := by
    rcases hop with h | h <;> simp [h, Opcode.pops, Opcode.pushes]
  obtain ⟨hpops, hpushes, hjump⟩ := heffect
  rw [hpops, hpushes] at hsucc
  refine ⟨⟨.straight hi hindex hcomplete hjump ?_ ?_, trivial⟩, by omega⟩
  · rw [hpops]
    exact hpos
  · rw [hpops, hpushes]
    omega

theorem Expr.fits (ha : opts.arithmetic = arithmetic) (hT : t.entries <+: T.entries) :
    ∀ (e : Expr) (n : Nat), e.fault? opts t = none → e.Translatable arithmetic t →
      code.Holds n (e.emitted arithmetic t n) → 0 ≤ code.height n → code.height n + e.need ≤ stackSize →
      Code.Each (Fits T.entries code) n (e.emitted arithmetic t n) ∧
        code.height (n + (e.emitted arithmetic t n).length) = code.height n + 1 := by
  intro e
  induction e with
  | literal pos value =>
    intro n hf htrans hcode hpos hneed
    exact fits_push hcode.1 (Or.inl rfl) rfl
      ⟨Opcode.mem_known_iff.2 (by simp), fun _ => ⟨_, rfl⟩, by simp, by simp⟩ hpos hneed
  | identifier pos name =>
    intro n hf htrans hcode hpos hneed
    obtain ⟨e, he, haddress⟩ := SymbolTable.exists_address hT htrans
    exact fits_push hcode.1 (Or.inr rfl) rfl
      ⟨Opcode.mem_known_iff.2 (by simp), by simp, fun _ => ⟨e, he, haddress⟩, by simp⟩ hpos hneed
  | binary pos operator left right ihl ihr =>
    intro n hf htrans hcode hpos hneed
    obtain ⟨rfl, hleft, hright⟩ := htrans
    obtain ⟨op, hop, hfl, hfr⟩ := Expr.operator_of_fault? ha hf
    have hmem := Opcode.mem_operators hop
    obtain ⟨hjump, hpops, hpushes⟩ := Opcode.operator_effect hmem
    rw [Expr.need] at hneed
    simp only [Expr.emitted, hop, Code.holds_append, Code.holds_singleton, Code.each_append, Code.Each,
      List.length_append, List.length_singleton, and_true] at hcode ⊢
    obtain ⟨hcl, hcr, hi⟩ := hcode
    obtain ⟨hel, hhl⟩ := ihl n hfl hleft hcl hpos (by omega)
    obtain ⟨her, hhr⟩ := ihr _ hfr hright hcr (by omega) (by omega)
    have hlast := Code.height_succ hi
    simp only [hpops, hpushes] at hlast
    refine ⟨⟨hel, her, .straight hi rfl (Opcode.complete_of_operator hmem _ _) hjump ?_ ?_⟩, ?_⟩
    · simp only [hpops]
      omega
    · simp only [hpops, hpushes]
      omega
    · rw [← Nat.add_assoc, ← Nat.add_assoc]
      omega

/-- An instruction that leaves the stack empty. -/
theorem Fits.of_empty {symbols : List Symbol} (hindex : i.index = k) (hcomplete : i.Complete symbols code.length)
    (henough : i.op.pops ≤ code.height k) (hzero : code.height (k + 1) = 0)
    (hlevel : i.op = .jump ∨ i.op = .jumpz → ∀ t, i.operand = some t → code.height t.toNat = 0) :
    Fits symbols code k i := by
  refine ⟨hindex, hcomplete, henough, ?_, fun hop t ht => ?_⟩
  · rw [hzero]
    decide
  · rw [hzero, hlevel hop t ht]

/-- The instruction that pops the value of an expression finds it, and leaves the stack empty. -/
theorem Expr.fits_then (ha : opts.arithmetic = arithmetic) (hT : t.entries <+: T.entries) {e : Expr}
    (hf : e.fault? opts t = none) (htrans : e.Translatable arithmetic t) (hneed : e.need ≤ stackSize)
    (hcode : code.Holds n (e.emitted arithmetic t n)) (hheight : code.height n = 0)
    (hi : code.at? (n + (e.emitted arithmetic t n).length : Nat) = some i) (hpops : i.op.pops = 1)
    (hpushes : i.op.pushes = 0) :
    Code.Each (Fits T.entries code) n (e.emitted arithmetic t n) ∧
      i.op.pops ≤ code.height (n + (e.emitted arithmetic t n).length) ∧
      code.height (n + (e.emitted arithmetic t n).length + 1) = 0 := by
  obtain ⟨heach, hone⟩ := Expr.fits ha hT e n hf htrans hcode (by omega) (by omega)
  have hsucc := Code.height_succ hi
  rw [hpops, hpushes] at hsucc
  exact ⟨heach, by omega, by omega⟩

theorem Placed.fits (ha : opts.arithmetic = arithmetic) (stmts : List Stmt) :
    ∀ {t : SymbolTable} {n : Nat}, Placed code opts arithmetic T t n stmts → 1 ≤ n →
      Stmt.TranslatableList arithmetic t stmts → (∀ e ∈ Stmt.valuesList stmts, e.need ≤ stackSize) →
      code.height n = 0 →
      Code.Each (Fits T.entries code) n (Stmt.emittedList arithmetic t n stmts) ∧
        code.height (Stmt.stop arithmetic t n stmts) = 0 := by
  induction stmts using Stmt.list_induction with
  | nil =>
    intro t n _ _ _ _ hheight
    rw [Stmt.stop_nil]
    exact ⟨by simp [Stmt.emittedList, Code.Each], hheight⟩
  | declaration pos dataType names rest ih =>
    intro t n hp hn htrans hneed hheight
    rw [Stmt.stop_declaration, Stmt.emittedList_declaration]
    exact ih hp.declaration hn htrans.2 hneed hheight
  | assignment pos target value rest ih =>
    intro t n hp hn htrans hneed hheight
    obtain ⟨hf, -, hcode, hi, hrest⟩ := hp.assignment
    obtain ⟨⟨hvalue, htarget⟩, htrans⟩ := htrans
    obtain ⟨e, he, haddress⟩ := SymbolTable.exists_address hp.prefix_table htarget
    obtain ⟨heach, henough, hzero⟩ := Expr.fits_then ha hp.prefix_table hf hvalue
      (hneed value (by simp [Stmt.valuesList, Stmt.values])) hcode hheight hi rfl rfl
    obtain ⟨hlater, hstop⟩ := ih hrest (by omega) htrans
      (fun e he => hneed e (List.mem_append_right _ he)) hzero
    rw [Stmt.stop_assignment, Stmt.emittedList_assignment]
    simp only [Code.each_append, Code.Each]
    refine ⟨⟨heach, .of_empty rfl ?_ henough hzero (by simp), hlater⟩, hstop⟩
    exact ⟨Opcode.mem_known_iff.2 (by simp), by simp, fun _ => ⟨e, he, haddress⟩, by simp⟩
  | output pos value rest ih =>
    intro t n hp hn htrans hneed hheight
    obtain ⟨hf, hcode, hi, hrest⟩ := hp.output
    obtain ⟨heach, henough, hzero⟩ := Expr.fits_then ha hp.prefix_table hf htrans.1
      (hneed value (by simp [Stmt.valuesList, Stmt.values])) hcode hheight hi rfl rfl
    obtain ⟨hlater, hstop⟩ := ih hrest (by omega) htrans.2
      (fun e he => hneed e (List.mem_append_right _ he)) hzero
    rw [Stmt.stop_output, Stmt.emittedList_output]
    simp only [Code.each_append, Code.Each]
    refine ⟨⟨heach, .of_empty rfl ?_ henough hzero (by simp), hlater⟩, hstop⟩
    exact ⟨Opcode.mem_known_iff.2 (by simp), by simp, by simp, by simp⟩
  | loop pos condition body rest ihbody ih =>
    intro t n hp hn htrans hneed hheight
    obtain ⟨hf, hcode, hjumpz, hpbody, hjump, hrest⟩ := hp.loop
    obtain ⟨⟨hcondition, hbody⟩, htrans⟩ := htrans
    obtain ⟨heach, henough, hzero⟩ := Expr.fits_then ha hp.prefix_table hf hcondition
      (hneed condition (by simp [Stmt.valuesList, Stmt.values])) hcode hheight hjumpz rfl rfl
    obtain ⟨hinner, hback⟩ := ihbody hpbody (by omega) hbody
      (fun e he => hneed e (List.mem_append_left _ (List.mem_cons_of_mem _ he))) hzero
    have hend := Code.height_succ hjump
    simp only [Opcode.pops, Opcode.pushes, hback] at hend
    obtain ⟨hlater, hstop⟩ := ih hrest (by omega) htrans
      (fun e he => hneed e (List.mem_append_right _ he)) hend
    -- both jumps join indices where the stack is empty
    have hbound := Code.at?_bounds hjump
    unfold Stmt.stop at hbound hback hend
    rw [Stmt.stop_loop, Stmt.emittedList_loop]
    simp only [Code.each_append, Code.Each]
    refine ⟨⟨heach, .of_empty rfl ?_ henough hzero ?_, hinner, .of_empty rfl ?_ ?_ hend ?_, hlater⟩, hstop⟩
    · exact ⟨Opcode.mem_known_iff.2 (by simp), by simp, by simp, fun _ => ⟨_, rfl, by omega, by omega⟩⟩
    · intro _ target htarget
      cases htarget
      exact hend
    · exact ⟨Opcode.mem_known_iff.2 (by simp), by simp, by simp, fun _ => ⟨_, rfl, by omega, by omega⟩⟩
    · simp only [Opcode.pops, hback]
      exact Int.le_refl 0
    · intro _ target htarget
      cases htarget
      exact hheight

/-! ## Lowered programs are translatable -/

/-- A literal or a name finds room for its value. -/
theorem Code.Reaches.push (hsafe : code.StackSafe) (hi : code.at? n = some i) (hop : i.op = .pushi ∨ i.op = .pushm)
    {d : Int} (hr : code.Reaches n d) : d + 1 ≤ stackSize ∧ code.Reaches (n + 1) (d + 1) := by
  have hjump : i.op ≠ .jump := by rcases hop with h | h <;> simp [h]
  have heffect : d - i.op.pops + i.op.pushes = d + 1 := by
    rcases hop with h | h <;> simp [h, Opcode.pops, Opcode.pushes]
  have hroom := hsafe.bounded hr hi
  have hnext := Code.Reaches.next hr hi hjump
  rw [heffect] at hroom hnext
  exact ⟨hroom, hnext⟩

section

variable (hsafe : code.StackSafe) (hcomplete : ∀ i ∈ code, i.Complete T.entries code.length)
  (ha : opts.arithmetic = arithmetic)

include hsafe hcomplete ha

/-- An expression that has code pushes its value; on the way every name is found and the stack has room. -/
theorem Expr.translatable_of_safe :
    ∀ (e : Expr) (n : Nat) (d : Int), e.fault? opts t = none → arithmetic = true ∨ e.IsLeaf →
      code.Holds n (e.emitted arithmetic t n) → code.Reaches n d →
      e.Translatable arithmetic t ∧ d + e.need ≤ stackSize ∧
        code.Reaches (n + (e.emitted arithmetic t n).length) (d + 1) := by
  intro e
  induction e with
  | literal pos value =>
    intro n d _ _ hcode hr
    exact ⟨trivial, hr.push hsafe hcode.1 (Or.inl rfl)⟩
  | identifier pos name =>
    intro n d _ _ hcode hr
    refine ⟨?_, hr.push hsafe hcode.1 (Or.inr rfl)⟩
    obtain ⟨e, -, haddress⟩ := (hcomplete _ (Code.mem_of_at? hcode.1)).address (Or.inl rfl)
    exact SymbolTable.lookup_of_address? haddress
  | binary pos operator left right ihl ihr =>
    intro n d hf hleaf hcode hr
    obtain rfl : arithmetic = true := hleaf.resolve_right nofun
    obtain ⟨op, hop, hfl, hfr⟩ := Expr.operator_of_fault? ha hf
    obtain ⟨hjump, hpops, hpushes⟩ := Opcode.operator_effect (Opcode.mem_operators hop)
    simp only [Expr.emitted, hop, Code.holds_append, Code.holds_singleton, List.length_append,
      List.length_singleton] at hcode ⊢
    obtain ⟨hcl, hcr, hi⟩ := hcode
    obtain ⟨hleft, hneedl, hrl⟩ := ihl n d hfl (Or.inl rfl) hcl hr
    obtain ⟨hright, hneedr, hrr⟩ := ihr _ _ hfr (Or.inl rfl) hcr hrl
    have hlast := Code.Reaches.next hrr hi (fun h => hjump (Or.inl h))
    simp only [hpops, hpushes] at hlast
    refine ⟨⟨rfl, hleft, hright⟩, ?_, ?_⟩
    · rw [Expr.need]
      omega
    · rw [← Nat.add_assoc, ← Nat.add_assoc]
      rwa [show d + 1 + 1 - (2 : Nat) + (1 : Nat) = d + 1 by omega] at hlast

/-- An instruction that pops a value finds it only behind an expression that has code. -/
theorem Expr.translatable_then {e : Expr} (hf : e.fault? opts t = none)
    (hcode : code.Holds n (e.emitted arithmetic t n))
    (hi : code.at? (n + (e.emitted arithmetic t n).length : Nat) = some i) (hpops : i.op.pops = 1)
    (hr : code.Reaches n 0) :
    e.Translatable arithmetic t ∧ e.need ≤ stackSize ∧
      code.Reaches (n + (e.emitted arithmetic t n).length) 1 := by
  by_cases hleaf : arithmetic = true ∨ e.IsLeaf
  · obtain ⟨htrans, hneed, hr⟩ := Expr.translatable_of_safe hsafe hcomplete ha e n 0 hf hleaf hcode hr
    exact ⟨htrans, by omega, hr⟩
  · -- without code the instruction stands where the stack is empty
    have hempty : e.emitted arithmetic t n = [] := by
      cases e with
      | literal => exact absurd (Or.inr trivial) hleaf
      | identifier => exact absurd (Or.inr trivial) hleaf
      | binary =>
        cases arithmetic with
        | true => exact absurd (Or.inl rfl) hleaf
        | false => rfl
    rw [hempty] at hi
    have := hsafe.enough hr hi
    omega

theorem Placed.translatable (stmts : List Stmt) :
    ∀ {t : SymbolTable} {n : Nat}, Placed code opts arithmetic T t n stmts → code.Reaches n 0 →
      Stmt.TranslatableList arithmetic t stmts ∧ (∀ e ∈ Stmt.valuesList stmts, e.need ≤ stackSize) ∧
        code.Reaches (Stmt.stop arithmetic t n stmts) 0 := by
  induction stmts using Stmt.list_induction with
  | nil =>
    intro t n _ hr
    rw [Stmt.stop_nil]
    exact ⟨by simp [Stmt.TranslatableList], by simp [Stmt.valuesList], hr⟩
  | declaration pos dataType names rest ih =>
    intro t n hp hr
    obtain ⟨htrans, hneed, hstop⟩ := ih hp.declaration hr
    rw [Stmt.stop_declaration]
    exact ⟨⟨trivial, htrans⟩, hneed, hstop⟩
  | assignment pos target value rest ih =>
    intro t n hp hr
    obtain ⟨hf, -, hcode, hi, hrest⟩ := hp.assignment
    obtain ⟨hvalue, hroom, hr⟩ := Expr.translatable_then hsafe hcomplete ha hf hcode hi rfl hr
    obtain ⟨htrans, hneed, hstop⟩ := ih hrest (.next hr hi (by simp))
    obtain ⟨e, -, haddress⟩ := (hcomplete _ (Code.mem_of_at? hi)).address (Or.inr rfl)
    rw [Stmt.stop_assignment]
    refine ⟨⟨⟨hvalue, SymbolTable.lookup_of_address? haddress⟩, htrans⟩, ?_, hstop⟩
    simpa [Stmt.valuesList, Stmt.values] using ⟨hroom, hneed⟩
  | output pos value rest ih =>
    intro t n hp hr
    obtain ⟨hf, hcode, hi, hrest⟩ := hp.output
    obtain ⟨hvalue, hroom, hr⟩ := Expr.translatable_then hsafe hcomplete ha hf hcode hi rfl hr
    obtain ⟨htrans, hneed, hstop⟩ := ih hrest (.next hr hi (by simp))
    rw [Stmt.stop_output]
    refine ⟨⟨hvalue, htrans⟩, ?_, hstop⟩
    simpa [Stmt.valuesList, Stmt.values] using ⟨hroom, hneed⟩
  | loop pos condition body rest ihbody ih =>
    intro t n hp hr
    obtain ⟨hf, hcode, hjumpz, hpbody, -, hrest⟩ := hp.loop
    obtain ⟨hcondition, hroom, hr⟩ := Expr.translatable_then hsafe hcomplete ha hf hcode hjumpz rfl hr
    -- the test leaves an empty stack on both its ways, into the body and behind the loop
    obtain ⟨hbody, hinner, -⟩ := ihbody hpbody (.next hr hjumpz (by simp))
    obtain ⟨htrans, hneed, hstop⟩ := ih hrest (.jump hr hjumpz (Or.inr rfl) rfl)
    rw [Stmt.stop_loop]
    refine ⟨⟨⟨hcondition, hbody⟩, htrans⟩, ?_, hstop⟩
    simp only [Stmt.valuesList, Stmt.values, List.cons_append, List.forall_mem_cons, List.forall_mem_append]
    exact ⟨hroom, hinner, hneed⟩

end

end

/-- A compiled program can be lowered exactly if it is translatable and its expressions find room. -/
theorem lowerable_compiled_iff {opts : Options} {stmts : List Stmt} {p : Program} (h : compile opts stmts = .ok p) :
    p.Lowerable ↔ Stmt.TranslatableList opts.arithmetic { base := opts.base } stmts ∧
      ∀ e ∈ Stmt.valuesList stmts, e.need ≤ stackSize := by
  obtain ⟨T, -, hsymbols, hp, -⟩ := placed_of_compile h
  obtain ⟨-, -, hcode⟩ := compile_eq_ok_iff.1 h
  constructor
  · intro hlow
    have hcomplete := hlow.complete
    rw [hsymbols] at hcomplete
    obtain ⟨htrans, hneed, -⟩ := hp.translatable hlow.safe hcomplete rfl stmts .start
    exact ⟨htrans, hneed⟩
  · rintro ⟨htrans, hneed⟩
    refine lowerable_of_fits ?_
    have hfits := (Placed.fits rfl stmts hp (Nat.le_refl 1) htrans hneed p.code.height_one).1
    rw [hsymbols]
    rwa [← hcode] at hfits

/-- **Which compiled programs can be lowered**: those without warnings about undeclared names and
untranslated operators whose values find room on the stack. A parsed value needs as much room as it has
operands. -/
theorem lower_compiled_iff (base : Int64) (arithmetic : Bool) (stmts : List Stmt) (p : Program)
    (h : compile { base := base, strict := false, arithmetic := arithmetic } stmts = .ok p) :
    ((∃ m, p.lower = .ok m) ↔
      (∀ w ∈ analyze arithmetic stmts, w.kind ≠ .undeclared ∧ w.kind ≠ .untranslated) ∧
        ∀ e ∈ Stmt.valuesList stmts, e.need ≤ stackSize) ∧
    ∀ tokens, parse tokens = .ok stmts → ∀ e ∈ Stmt.valuesList stmts, e.need = e.operands := by
  refine ⟨?_, fun tokens hparse e he => (parse_chain hparse e he).need_eq_operands⟩
  rw [Program.lower_isOk_iff, lowerable_compiled_iff h]
  exact and_congr_left' (harmless_analyze_iff arithmetic base stmts).symm

/-- `integer x; while (x + 1) { put(x); }` -/
def endless : List Stmt :=
  [.declaration {} (bytes "integer") [bytes "x"],
    .loop {} (.binary {} (bytes "+") (.identifier {} (bytes "x")) (.literal {} 1))
      [.output {} (.identifier {} (bytes "x"))]]

/-- With arithmetic the loop can be lowered, without it cannot: its condition has no code then. -/
theorem endless_lowered_with_arithmetic :
    (∃ p, compile { strict := false, arithmetic := true } endless = .ok p ∧ ∃ m, p.lower = .ok m) ∧
      ∃ p, compile { strict := false, arithmetic := false } endless = .ok p ∧ ¬ ∃ m, p.lower = .ok m := by
  refine ⟨⟨_, rfl, ?_⟩, ⟨_, rfl, ?_⟩⟩
  · exact (lower_compiled_iff defaultBase true endless _ rfl).1.2 ⟨by decide, by decide⟩
  · rw [(lower_compiled_iff defaultBase false endless _ rfl).1]
    exact fun h => absurd h.1 (by decide)

end RatLang
