import RatLang.Proofs.Program.Interruption

/-!
# Relocatable code

Instructions are numbered from the beginning of the whole code, and jumps name such numbers. Still a translation
depends on the code in front of it by its length only: translating behind some code gives what translating into empty
code gives, with every index and every jump moved by that length, and the code in front stays as it is
(`compile_relocatable`). A fault and the jumps that it leaves open change nothing about that.
-/
namespace RatLang

/-- The instruction `k` places farther on: its index and, in a jump, the operand if there is one. -/
def Instruction.moved (k : Nat) (i : Instruction) : Instruction :=
  { i with
    index := i.index + k
    operand := if i.op = .jump ∨ i.op = .jumpz then i.operand.map (· + (k : Int)) else i.operand }

/-- The instructions `k` places farther on. -/
def Code.moved (k : Nat) (code : Code) : Code := code.map (Instruction.moved k)

section

variable (k n : Nat)

@[simp]
theorem Code.moved_nil : Code.moved k [] = [] := rfl

@[simp]
theorem Code.moved_append (a b : Code) : Code.moved k (a ++ b) = a.moved k ++ b.moved k := List.map_append

@[simp]
theorem Code.length_moved (code : Code) : (code.moved k).length = code.length := List.length_map _

@[simp]
theorem Code.moved_cons (i : Instruction) (code : Code) : Code.moved k (i :: code) = i.moved k :: code.moved k := rfl

/-- An instruction that is no jump keeps its operand. -/
theorem Instruction.moved_straight {op : Opcode} (h : ¬(op = .jump ∨ op = .jumpz)) (operand : Option Int) :
    Instruction.moved k ⟨n, op, operand⟩ = ⟨(n + k : Nat), op, operand⟩ := by
  simp [moved, h]

/-- A jump keeps its distance. -/
theorem Instruction.moved_jump {op : Opcode} (h : op = .jump ∨ op = .jumpz) (target : Nat) :
    Instruction.moved k ⟨n, op, some target⟩ = ⟨(n + k : Nat), op, some (target + k : Nat)⟩ := by
  simp [moved, h]

/-- A jump that is open stays open. -/
theorem Instruction.moved_open {op : Opcode} : Instruction.moved k ⟨n, op, none⟩ = ⟨(n + k : Nat), op, none⟩ := by
  simp [moved]

end

/-! ## Emitted code -/

section

variable (arithmetic : Bool) (k : Nat)

theorem Expr.emitted_add (t : SymbolTable) (x : Expr) (n : Nat) :
    x.emitted arithmetic t (n + k) = (x.emitted arithmetic t n).moved k := by
  induction x generalizing n with
  | literal pos value => simp [Expr.emitted, Instruction.moved_straight]
  | identifier pos name => simp [Expr.emitted, Instruction.moved_straight]
  | binary pos operator left right ihl ihr =>
    unfold Expr.emitted
    split
    · simp only [ihl, Code.length_moved, Nat.add_right_comm _ k, ihr, Code.moved_append, Code.moved_cons,
        Code.moved_nil, Instruction.moved_open]
    · rfl

theorem Stmt.emittedList_add (stmts : List Stmt) (t : SymbolTable) (n : Nat) :
    Stmt.emittedList arithmetic t (n + k) stmts = (Stmt.emittedList arithmetic t n stmts).moved k := by
  induction stmts using Stmt.list_induction generalizing t n with
  | nil => rfl
  | declaration pos dataType names rest ih => rw [Stmt.emittedList_declaration, Stmt.emittedList_declaration, ih]
  | assignment pos target value rest ih =>
    simp only [Stmt.emittedList_assignment, Expr.emitted_add, Code.length_moved, Nat.add_right_comm _ k, ih,
      Code.moved_append, Code.moved_cons, Instruction.moved_straight k _ (show ¬(Opcode.popm = .jump ∨ _) by decide)]
  | output pos value rest ih =>
    simp only [Stmt.emittedList_output, Expr.emitted_add, Code.length_moved, Nat.add_right_comm _ k, ih,
      Code.moved_append, Code.moved_cons, Instruction.moved_open]
  | loop pos condition body rest ihbody ih =>
    simp only [Stmt.emittedList_loop, Expr.emitted_add, Code.length_moved, Nat.add_right_comm _ k, ihbody, ih,
      Code.moved_append, Code.moved_cons, Instruction.moved_jump k _ (Or.inl rfl),
      Instruction.moved_jump k _ (Or.inr rfl)]

theorem Stmt.emitted_add (s : Stmt) (t : SymbolTable) (n : Nat) :
    s.emitted arithmetic t (n + k) = (s.emitted arithmetic t n).moved k := by
  have h := Stmt.emittedList_add arithmetic k [s] t n
  rwa [Stmt.emittedList_singleton, Stmt.emittedList_singleton] at h

end

/-! ## Begun code -/

section

variable (opts : Options) (k : Nat)

theorem Expr.begun_add (t : SymbolTable) (x : Expr) (n : Nat) :
    x.begun opts t (n + k) = (x.begun opts t n).moved k := by
  induction x generalizing n with
  | literal | identifier => rfl
  | binary pos operator left right ihl ihr =>
    unfold Expr.begun
    split
    · rfl
    · exact ihl n
    · simp only [Expr.emitted_add, Code.length_moved, Nat.add_right_comm n k, ihr, Code.moved_append]

/-- A statement and others behind it. -/
theorem Stmt.begunList_cons_add {s : Stmt} {rest : List Stmt} {t : SymbolTable} {n : Nat}
    (hs : s.begun opts t (n + k) = (s.begun opts t n).moved k)
    (hrest : ∀ n, Stmt.begunList opts (s.declared t) (n + k) rest =
      (Stmt.begunList opts (s.declared t) n rest).moved k) :
    Stmt.begunList opts t (n + k) (s :: rest) = (Stmt.begunList opts t n (s :: rest)).moved k := by
  unfold Stmt.begunList
  split
  · exact hs
  · simp only [Stmt.emitted_add, Code.length_moved, Nat.add_right_comm n k, hrest, Code.moved_append]

theorem Stmt.begunList_add (stmts : List Stmt) (t : SymbolTable) (n : Nat) :
    Stmt.begunList opts t (n + k) stmts = (Stmt.begunList opts t n stmts).moved k := by
  induction stmts using Stmt.list_induction generalizing t n with
  | nil => rfl
  | declaration pos dataType names rest ih => exact Stmt.begunList_cons_add opts k rfl (ih _)
  | assignment pos target value rest ih =>
    refine Stmt.begunList_cons_add opts k ?_ (ih _)
    unfold Stmt.begun
    split
    · exact value.begun_add opts k t n
    · exact value.emitted_add opts.arithmetic k t n
  | output pos value rest ih => exact Stmt.begunList_cons_add opts k (value.begun_add opts k t n) (ih _)
  | loop pos condition body rest ihbody ih =>
    refine Stmt.begunList_cons_add opts k ?_ (ih _)
    unfold Stmt.begun
    split
    · exact condition.begun_add opts k t n
    · simp only [Expr.emitted_add, Code.length_moved, Nat.add_right_comm _ k, ihbody, Code.moved_append,
        Code.moved_cons, Instruction.moved_open]

end

/-- **Relocation**: behind any code, translation has the outcome and the symbols that it has in empty code, leaves the
code in front as it is, and adds the same instructions moved by the length of that code. -/
theorem compile_relocatable (opts : Options) (symbols : SymbolTable) (code : Code) (stmts : List Stmt) :
    Context.compile opts ⟨symbols, code⟩ stmts =
      let fresh := Context.compile opts ⟨symbols, []⟩ stmts
      (⟨fresh.1.symbols, code ++ fresh.1.code.moved code.length⟩, fresh.2) := by
  have hnext : Code.next code = 1 + code.length := Nat.add_comm _ _
  simp only [Context.compile_eq]
  cases Stmt.faultList? opts symbols stmts with
  | none =>
    simp only [Stmt.afterList, hnext, Stmt.emittedList_add]
    rfl
  | some e =>
    simp only [Stmt.leftList, hnext, Stmt.begunList_add]
    rfl

end RatLang
