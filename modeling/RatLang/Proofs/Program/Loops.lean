import Mathlib.Data.List.Forall2
import Mathlib.Data.List.Pairwise
import RatLang.Proofs.Program.Interruption
import RatLang.Proofs.Program.Machine

/-!
# Loops in code

Every loop of a program is laid out as one piece of code: a condition, a jump behind the loop if the condition is
zero, a body, a jump back to the condition. These are the only jumps that are generated, so the jumps of a program go in
pairs, one for each loop (`WellLooped`): two loops lie apart or one in the body of the other, and a loop is entered from
outside at its condition only.

What carries the induction is `Code.Looped`, the same for a piece of code that begins anywhere: pieces without jumps
have no loops, pieces one behind the other have the loops of both, and a piece in the body of a loop has one more.
-/
namespace RatLang

/-- The place of a loop in code: where its condition begins, where it is left, and the index behind it. The jump back
stands in front of that index, behind the jump out. -/
structure Loop where
  start : Nat
  exit : Nat
  stop : Nat
  start_le_exit : start ≤ exit
  exit_lt_back : exit < stop - 1
  deriving DecidableEq, Repr

namespace Loop

/-- The jump out of the loop. -/
def leave (l : Loop) : Instruction := ⟨l.exit, .jumpz, some l.stop⟩

/-- The jump back to the condition. -/
def back (l : Loop) : Instruction := ⟨(l.stop - 1 : Nat), .jump, some l.start⟩

/-- The index lies in the loop. -/
def Covers (l : Loop) (k : Nat) : Prop := l.start ≤ k ∧ k < l.stop

/-- The other loop lies in the body of this one. -/
def Encloses (l inner : Loop) : Prop := l.exit < inner.start ∧ inner.stop ≤ l.stop - 1

/-- The other loop comes behind this one or lies in its body. -/
def Precedes (l later : Loop) : Prop := l.stop ≤ later.start ∨ l.Encloses later

end Loop

/-- A loop of a program. -/
structure While where
  pos : Position
  condition : Expr
  body : List Stmt

mutual

/-- The loops of a statement, from the outside to the inside. -/
def Stmt.whiles : Stmt → List While
  | .declaration .. | .assignment .. | .output .. => []
  | .loop pos condition body => ⟨pos, condition, body⟩ :: Stmt.whilesList body

/-- The loops of a list of statements in their order, each in front of those in its body. -/
def Stmt.whilesList : List Stmt → List While
  | [] => []
  | s :: rest => s.whiles ++ Stmt.whilesList rest

end

/-- The loop of a program stands in the code at this place: its condition in front of the jump out, its body between
the two jumps. -/
structure LaidOut (arithmetic : Bool) (code : Code) (w : While) (l : Loop) : Prop where
  parts : ∃ t : SymbolTable, code.Holds l.start (w.condition.emitted arithmetic t l.start) ∧
    l.start + (w.condition.emitted arithmetic t l.start).length = l.exit ∧
    code.Holds (l.exit + 1) (Stmt.emittedList arithmetic t (l.exit + 1) w.body) ∧
    l.exit + 1 + (Stmt.emittedList arithmetic t (l.exit + 1) w.body).length = l.stop - 1
  leave : code.at? l.exit = some l.leave
  back : code.at? (l.stop - 1 : Nat) = some l.back

/-- The code behind its first `settled` instructions has these loops and no other jumps. -/
structure WellLooped (arithmetic : Bool) (settled : Nat) (code : Code) (nodes : List While) (loops : List Loop) :
    Prop where
  /-- The loops of the code are those of the program, one for one. -/
  laidOut : List.Forall₂ (LaidOut arithmetic code) nodes loops
  /-- All new jumps go somewhere. -/
  targeted : ∀ (k : Nat) i, settled < k → code.at? k = some i → i.op = .jump ∨ i.op = .jumpz → i.operand.isSome
  /-- Every conditional jump leaves exactly one loop. -/
  leaves : ∀ (k : Nat) i, settled < k → code.at? k = some i → i.op = .jumpz →
    ∃! l, l ∈ loops ∧ l.exit = k ∧ l.leave = i
  /-- Every other jump goes back in exactly one loop. -/
  backs : ∀ (k : Nat) i, settled < k → code.at? k = some i → i.op = .jump →
    ∃! l, l ∈ loops ∧ l.stop - 1 = k ∧ l.back = i
  /-- The loops lie in the new code. -/
  within : ∀ l ∈ loops, settled < l.start ∧ l.stop ≤ code.length + 1
  /-- Two loops lie apart, or one in the body of the other. -/
  nested : loops.Pairwise Loop.Precedes
  /-- A jump from outside a loop does not go into it. Jumps of the settled code count if they stay there. -/
  confined : ∀ l ∈ loops, ∀ (k : Nat) i (target : Int), code.at? k = some i → i.op = .jump ∨ i.op = .jumpz →
    i.operand = some target → settled < k ∨ target ≤ settled + 1 → ¬l.Covers k →
      ¬(l.start < target ∧ target < l.stop)

/-! ## Loops of a piece of code -/

/-- An instruction at an index, if it is a jump, belongs to one of the loops. -/
def JumpsIn (loops : List Loop) (k : Nat) (i : Instruction) : Prop :=
  (i.op = .jumpz → ∃ l ∈ loops, l.exit = k ∧ l.leave = i) ∧ (i.op = .jump → ∃ l ∈ loops, l.stop - 1 = k ∧ l.back = i)

theorem JumpsIn.mono {loops more : List Loop} (h : loops ⊆ more) {k : Nat} {i : Instruction} (hi : JumpsIn loops k i) :
    JumpsIn more k i := by
  refine ⟨fun hop => ?_, fun hop => ?_⟩
  · obtain ⟨l, hl, hplace⟩ := hi.1 hop
    exact ⟨l, h hl, hplace⟩
  · obtain ⟨l, hl, hplace⟩ := hi.2 hop
    exact ⟨l, h hl, hplace⟩

theorem JumpsIn.straight {i : Instruction} (h : ¬(i.op = .jump ∨ i.op = .jumpz)) (loops : List Loop) (k : Nat) :
    JumpsIn loops k i :=
  ⟨fun hop => absurd (Or.inr hop) h, fun hop => absurd (Or.inl hop) h⟩

namespace Code

/-- The loops of a piece of code that begins at index `n`. -/
structure Looped (n : Nat) (part : Code) (loops : List Loop) : Prop where
  jumps : Each (JumpsIn loops) n part
  within : ∀ l ∈ loops, n ≤ l.start ∧ l.stop ≤ n + part.length
  nested : loops.Pairwise Loop.Precedes

theorem Looped.straight {part : Code} (h : ∀ i ∈ part, ¬(i.op = .jump ∨ i.op = .jumpz)) (n : Nat) :
    Looped n part [] where
  jumps := each_iff.2 fun _ i hi => .straight (h i (List.mem_of_getElem? hi)) _ _
  within := by simp
  nested := .nil

/-- One piece behind the other. -/
theorem Looped.append {n : Nat} {a b : Code} {loops more : List Loop} (ha : Looped n a loops)
    (hb : Looped (n + a.length) b more) : Looped n (a ++ b) (loops ++ more) where
  jumps := (each_append a b n).2
    ⟨ha.jumps.mono (.mono (List.subset_append_left _ _)), hb.jumps.mono (.mono (List.subset_append_right _ _))⟩
  within := by
    intro l hl
    rw [List.length_append]
    rcases List.mem_append.1 hl with hl | hl
    · have := ha.within l hl
      omega
    · have := hb.within l hl
      omega
  nested := by
    refine List.pairwise_append.2 ⟨ha.nested, hb.nested, fun l hl l' hl' => Or.inl ?_⟩
    have := ha.within l hl
    have := hb.within l' hl'
    omega

/-- A piece of code between the two jumps of a loop. -/
theorem Looped.enclose {n : Nat} {test inner : Code} {loops : List Loop}
    (htest : ∀ i ∈ test, ¬(i.op = .jump ∨ i.op = .jumpz)) (hinner : Looped (n + test.length + 1) inner loops)
    {l : Loop} (hstart : l.start = n) (hexit : l.exit = n + test.length)
    (hback : l.stop - 1 = l.exit + 1 + inner.length) :
    Looped n (test ++ l.leave :: (inner ++ [l.back])) (l :: loops) where
  jumps := by
    have hcondition : Each (JumpsIn (l :: loops)) n test :=
      each_iff.2 fun _ i hi => .straight (htest i (List.mem_of_getElem? hi)) _ _
    have hbody : Each (JumpsIn (l :: loops)) (n + test.length + 1) inner :=
      hinner.jumps.mono (.mono (List.subset_cons_self _ _))
    have hleave : JumpsIn (l :: loops) (n + test.length) l.leave :=
      ⟨fun _ => ⟨l, List.mem_cons_self .., hexit, rfl⟩, fun hop => absurd hop (by simp [Loop.leave])⟩
    have hjump : JumpsIn (l :: loops) (n + test.length + 1 + inner.length) l.back :=
      ⟨fun hop => absurd hop (by simp [Loop.back]), fun _ => ⟨l, List.mem_cons_self .., by omega, rfl⟩⟩
    exact (each_append _ _ n).2 ⟨hcondition, hleave, (each_append _ _ _).2 ⟨hbody, hjump, trivial⟩⟩
  within := by
    simp only [List.forall_mem_cons, List.length_append, List.length_cons, List.length_nil]
    have := l.exit_lt_back
    refine ⟨by omega, fun l' hl' => ?_⟩
    have := hinner.within l' hl'
    omega
  nested := by
    refine List.pairwise_cons.2 ⟨fun l' hl' => Or.inr ?_, hinner.nested⟩
    have := hinner.within l' hl'
    exact ⟨by omega, by omega⟩

end Code

/-! ## Loops of a program -/

section

variable (arithmetic : Bool)

theorem Opcode.straight_of_operator {operator : Text} {op : Opcode} (h : Opcode.ofOperator? operator = some op) :
    ¬(op = .jump ∨ op = .jumpz) := by
  have hall : ∀ op ∈ Opcode.operators, ¬(op = .jump ∨ op = .jumpz) := by decide
  exact hall op (Opcode.mem_operators h)

/-- No expression jumps. -/
theorem Expr.straight_emitted (t : SymbolTable) (x : Expr) (n : Nat) :
    ∀ i ∈ x.emitted arithmetic t n, ¬(i.op = .jump ∨ i.op = .jumpz) := by
  induction x generalizing n with
  | literal | identifier => simp [Expr.emitted]
  | binary pos operator left right ihl ihr =>
    unfold Expr.emitted
    split
    · rename_i op hop
      simp only [List.forall_mem_append, List.forall_mem_singleton]
      exact ⟨ihl _, ihr _, Opcode.straight_of_operator hop⟩
    · simp

/-- The place of a loop whose condition and body have these lengths. -/
def Loop.of (n test inner : Nat) : Loop where
  start := n
  exit := n + test
  stop := n + test + 1 + inner + 1
  start_le_exit := Nat.le_add_right n test
  exit_lt_back := by omega

mutual

/-- The loops in the code of a statement, from index `n` on. -/
def Stmt.loops (t : SymbolTable) (n : Nat) : Stmt → List Loop
  | .declaration .. | .assignment .. | .output .. => []
  | .loop _ condition body =>
    let test := condition.emitted arithmetic t n
    let inner := Stmt.emittedList arithmetic t (n + test.length + 1) body
    .of n test.length inner.length :: Stmt.loopsList t (n + test.length + 1) body

/-- The loops in the code of a list of statements, from index `n` on. -/
def Stmt.loopsList (t : SymbolTable) (n : Nat) : List Stmt → List Loop
  | [] => []
  | s :: rest => s.loops t n ++ Stmt.loopsList (s.declared t) (n + (s.emitted arithmetic t n).length) rest

end

theorem Stmt.looped_emittedList (stmts : List Stmt) (t : SymbolTable) (n : Nat) :
    Code.Looped n (Stmt.emittedList arithmetic t n stmts) (Stmt.loopsList arithmetic t n stmts) := by
  induction stmts using Stmt.list_induction generalizing t n with
  | nil => exact .straight (by simp [Stmt.emittedList]) n
  | declaration pos dataType names rest ih => exact .append (.straight (by simp [Stmt.emitted]) n) (ih _ _)
  | assignment pos target value rest ih =>
    refine .append (.straight ?_ n) (ih _ _)
    simp only [Stmt.emitted, List.forall_mem_append, List.forall_mem_singleton]
    exact ⟨value.straight_emitted arithmetic t n, by decide⟩
  | output pos value rest ih =>
    refine .append (.straight ?_ n) (ih _ _)
    simp only [Stmt.emitted, List.forall_mem_append, List.forall_mem_singleton]
    exact ⟨value.straight_emitted arithmetic t n, by decide⟩
  | loop pos condition body rest ihbody ih =>
    refine .append ?_ (ih _ _)
    have hloop := Code.Looped.enclose (condition.straight_emitted arithmetic t n) (ihbody t _)
      (show (Loop.of n _ _).start = n from rfl) rfl rfl
    simpa [Stmt.emitted, Stmt.loops, Loop.leave, Loop.back, Loop.of] using hloop

variable {arithmetic}

/-- Where the code of statements stands, their loops stand. -/
theorem Stmt.laidOut_emittedList {code : Code} (stmts : List Stmt) {t : SymbolTable} {n : Nat}
    (h : code.Holds n (Stmt.emittedList arithmetic t n stmts)) :
    List.Forall₂ (LaidOut arithmetic code) (Stmt.whilesList stmts) (Stmt.loopsList arithmetic t n stmts) := by
  induction stmts using Stmt.list_induction generalizing t n with
  | nil => exact .nil
  | declaration pos dataType names rest ih => exact List.rel_append .nil (ih ((Code.holds_append _ _ _).1 h).2)
  | assignment pos target value rest ih => exact List.rel_append .nil (ih ((Code.holds_append _ _ _).1 h).2)
  | output pos value rest ih => exact List.rel_append .nil (ih ((Code.holds_append _ _ _).1 h).2)
  | loop pos condition body rest ihbody ih =>
    obtain ⟨hloop, hrest⟩ := (Code.holds_append _ _ _).1 h
    simp only [Stmt.emitted, List.append_assoc, List.cons_append, List.nil_append, Code.holds_append,
      Code.holds_cons] at hloop
    obtain ⟨htest, hleave, hinner, hback, -⟩ := hloop
    exact List.rel_append (.cons ⟨⟨t, htest, rfl, hinner, rfl⟩, hleave, hback⟩ (ihbody hinner)) (ih hrest)

end

/-! ## Pairs of loops -/

namespace Loop

variable {l l' : Loop}

theorem Precedes.exit_lt (h : l.Precedes l') : l.exit < l'.exit := by
  have := l.exit_lt_back
  have := l'.start_le_exit
  rcases h with h | ⟨h, -⟩
  · omega
  · omega

theorem Precedes.stop_ne (h : l.Precedes l') : l.stop ≠ l'.stop := by
  have := l'.start_le_exit
  have := l'.exit_lt_back
  rcases h with h | ⟨-, h⟩
  · omega
  · omega

theorem eq_or_precedes {loops : List Loop} (h : loops.Pairwise Precedes) (hl : l ∈ loops) (hl' : l' ∈ loops) :
    l = l' ∨ l.Precedes l' ∨ l'.Precedes l := by
  have hsymm : Std.Symm fun a b : Loop => a.Precedes b ∨ b.Precedes a := ⟨fun _ _ => Or.symm⟩
  have hboth : loops.Pairwise fun a b => a.Precedes b ∨ b.Precedes a := h.imp Or.inl
  by_cases heq : l = l'
  · exact Or.inl heq
  · exact Or.inr (hboth.forall hl hl' heq)

theorem eq_of_exit {loops : List Loop} (h : loops.Pairwise Precedes) (hl : l ∈ loops) (hl' : l' ∈ loops)
    (heq : l.exit = l'.exit) : l = l' := by
  rcases eq_or_precedes h hl hl' with rfl | hab | hba
  · rfl
  · exact absurd heq (Nat.ne_of_lt hab.exit_lt)
  · exact absurd heq (Nat.ne_of_gt hba.exit_lt)

theorem eq_of_back {loops : List Loop} (h : loops.Pairwise Precedes) (hl : l ∈ loops) (hl' : l' ∈ loops)
    (heq : l.stop - 1 = l'.stop - 1) : l = l' := by
  have := l.exit_lt_back
  have := l'.exit_lt_back
  rcases eq_or_precedes h hl hl' with rfl | hab | hba
  · rfl
  · exact absurd (by omega) hab.stop_ne
  · exact absurd (by omega) hba.stop_ne

/-- A jump of one loop that stands outside another does not go into that one. -/
theorem confined (h : l = l' ∨ l.Precedes l' ∨ l'.Precedes l) :
    (¬l.Covers l'.exit → ¬(l.start < l'.stop ∧ l'.stop < l.stop)) ∧
      (¬l.Covers (l'.stop - 1) → ¬(l.start < l'.start ∧ l'.start < l.stop)) := by
  have := l.start_le_exit
  have := l.exit_lt_back
  have := l'.start_le_exit
  have := l'.exit_lt_back
  simp only [Precedes, Encloses, Covers] at h ⊢
  rcases h with rfl | (h | h) | (h | h)
  · omega
  · omega
  · omega
  · omega
  · omega

end Loop

/-- The code behind other code has the loops of that piece. -/
theorem Code.Looped.wellLooped {arithmetic : Bool} {before part : Code} {nodes : List While} {loops : List Loop}
    (h : Code.Looped (before.length + 1) part loops)
    (hnodes : List.Forall₂ (LaidOut arithmetic (before ++ part)) nodes loops) :
    WellLooped arithmetic before.length (before ++ part) nodes loops := by
  have hjumps := Code.each_iff_behind.1 h.jumps
  constructor
  case laidOut => exact hnodes
  case targeted =>
    rintro k i hk hi (hop | hop)
    · obtain ⟨l, -, -, rfl⟩ := (hjumps k i hk hi).2 hop
      rfl
    · obtain ⟨l, -, -, rfl⟩ := (hjumps k i hk hi).1 hop
      rfl
  case leaves =>
    intro k i hk hi hop
    obtain ⟨l, hl, rfl, rfl⟩ := (hjumps k i hk hi).1 hop
    exact ⟨l, ⟨hl, rfl, rfl⟩, fun l' h' => Loop.eq_of_exit h.nested h'.1 hl h'.2.1⟩
  case backs =>
    intro k i hk hi hop
    obtain ⟨l, hl, rfl, rfl⟩ := (hjumps k i hk hi).2 hop
    exact ⟨l, ⟨hl, rfl, rfl⟩, fun l' h' => Loop.eq_of_back h.nested h'.1 hl h'.2.1⟩
  case within =>
    intro l hl
    have := h.within l hl
    rw [List.length_append]
    omega
  case nested => exact h.nested
  case confined =>
    intro l hl k i target hi hop htarget hwhere houtside
    rcases hwhere with hk | hsettled
    · rcases hop with hop | hop
      · obtain ⟨l', hl', rfl, rfl⟩ := (hjumps k i hk hi).2 hop
        cases htarget
        have := (Loop.confined (Loop.eq_or_precedes h.nested hl hl')).2 houtside
        omega
      · obtain ⟨l', hl', rfl, rfl⟩ := (hjumps k i hk hi).1 hop
        cases htarget
        have := (Loop.confined (Loop.eq_or_precedes h.nested hl hl')).1 houtside
        omega
    · have := h.within l hl
      omega

/-- **Loops are well structured** in the code that a translation adds to any context. -/
theorem compile_well_looped {opts : Options} {ctx last : Context} {stmts : List Stmt}
    (h : ctx.compile opts stmts = (last, none)) :
    ∃ loops, WellLooped opts.arithmetic ctx.code.length last.code (Stmt.whilesList stmts) loops := by
  rw [Context.compile_eq] at h
  cases hfault : Stmt.faultList? opts ctx.symbols stmts with
  | some e => simp [hfault] at h
  | none =>
    simp only [hfault, Prod.mk.injEq, and_true] at h
    subst h
    refine ⟨Stmt.loopsList opts.arithmetic ctx.symbols ctx.code.next stmts, ?_⟩
    exact (Stmt.looped_emittedList opts.arithmetic stmts ctx.symbols ctx.code.next).wellLooped
      (Stmt.laidOut_emittedList stmts (Code.holds_behind _ _))

/-- `while (1) { while (1 + 1) { } } while (0) { put(5); }`: a loop in a loop and one behind them. -/
def threeLoops : List Stmt :=
  [.loop default (.literal default 1)
      [.loop default (.binary default (bytes "+") (.literal default 1) (.literal default 1)) []],
    .loop default (.literal default 0) [.output default (.literal default 5)]]

/-- The code of a program that broke off in a loop. -/
def brokenOff : Context := { code := [⟨1, .jumpz, none⟩] }

/-- The loops behind that code. Without arithmetic the condition of the inner one has no instructions. -/
def threeLoopsCode : Code :=
  [⟨1, .jumpz, none⟩, ⟨2, .pushi, some 1⟩, ⟨3, .jumpz, some 7⟩, ⟨4, .jumpz, some 6⟩, ⟨5, .jump, some 4⟩,
    ⟨6, .jump, some 2⟩, ⟨7, .pushi, some 0⟩, ⟨8, .jumpz, some 12⟩, ⟨9, .pushi, some 5⟩, ⟨10, .stdout, none⟩,
    ⟨11, .jump, some 7⟩]

theorem threeLoops_well_looped :
    brokenOff.compile {} threeLoops = ({ code := threeLoopsCode }, none) ∧
      ∃ loops, WellLooped false 1 threeLoopsCode (Stmt.whilesList threeLoops) loops := by
  have h : brokenOff.compile {} threeLoops = ({ code := threeLoopsCode }, none) := by decide +kernel
  exact ⟨h, compile_well_looped h⟩

end RatLang
