import RatLang.Proofs.Program.Walk

/-!
# Change of base

Literals, jump targets and addresses are all numbers in the same operands. Still the base address of a translation
shows in the addresses only: with another base the same faults are met, the same names are declared and the same
instructions are emitted, and every address is moved by the difference, which wraps (`compile_rebased`).
-/
namespace RatLang

/-! ## Moving addresses -/

/-- The symbol `d` addresses farther on. -/
def Symbol.rebased (d : Int64) (s : Symbol) : Symbol := { s with address := s.address + d }

/-- The table with its base and its symbols `d` addresses farther on. -/
def SymbolTable.rebased (d : Int64) (t : SymbolTable) : SymbolTable :=
  ⟨t.base + d, t.entries.map (Symbol.rebased d)⟩

/-- The instruction with the address that it accesses, if it has one, `d` addresses farther on. -/
def Instruction.rebased (d : Int64) (i : Instruction) : Instruction :=
  if i.op.isAccess then { i with operand := i.operand.map fun a => (Int64.ofInt a + d).toInt } else i

/-- The instructions with their accesses `d` addresses farther on. -/
def Code.rebased (d : Int64) (code : Code) : Code := code.map (Instruction.rebased d)

/-- The program with its memory `d` addresses farther on. -/
def Program.rebased (d : Int64) (p : Program) : Program :=
  ⟨p.symbols.map (Symbol.rebased d), p.code.rebased d⟩

section

variable (d : Int64)

@[simp]
theorem Code.rebased_nil : Code.rebased d [] = [] := rfl

@[simp]
theorem Code.rebased_append (a b : Code) : Code.rebased d (a ++ b) = a.rebased d ++ b.rebased d := List.map_append

@[simp]
theorem Code.rebased_cons (i : Instruction) (code : Code) :
    Code.rebased d (i :: code) = i.rebased d :: code.rebased d := rfl

@[simp]
theorem Code.length_rebased (code : Code) : (code.rebased d).length = code.length := List.length_map _

/-- Every other operation keeps its operand. -/
theorem Instruction.rebased_of_not_isAccess {op : Opcode} (h : op.isAccess = false) (n : Int) (operand : Option Int) :
    Instruction.rebased d ⟨n, op, operand⟩ = ⟨n, op, operand⟩ := by
  rw [Instruction.rebased, h, if_neg Bool.false_ne_true]

/-! ## Symbols -/

variable (t : SymbolTable)

@[simp]
theorem SymbolTable.lookup_rebased (name : Text) :
    (t.rebased d).lookup name = (t.lookup name).map (Symbol.rebased d) := by
  rw [SymbolTable.lookup, SymbolTable.rebased, List.find?_map]
  rfl

theorem SymbolTable.next_rebased : (t.rebased d).next = t.next + d := by
  simp only [SymbolTable.next, SymbolTable.rebased, List.length_map, Int64.add_assoc, Int64.add_comm d]

theorem SymbolTable.declare_rebased (name type : Text) :
    (t.rebased d).declare name type = (t.declare name type).rebased d := by
  simp only [SymbolTable.declare, SymbolTable.lookup_rebased, Option.isSome_map, SymbolTable.next_rebased]
  split
  · rfl
  · simp [SymbolTable.rebased, Symbol.rebased]

theorem SymbolTable.declareAll_rebased (names : List Text) (type : Text) :
    (t.rebased d).declareAll names type = (t.declareAll names type).rebased d := by
  induction names generalizing t with
  | nil => rfl
  | cons name names ih =>
    rw [SymbolTable.declareAll, List.foldl_cons, SymbolTable.declare_rebased]
    exact ih (t.declare name type)

/-- An access to a name moves with the name. -/
theorem SymbolTable.access_rebased {op : Opcode} (h : op.isAccess = true) (n : Int) (name : Text) :
    (⟨n, op, (t.rebased d).address? name⟩ : Instruction) = Instruction.rebased d ⟨n, op, t.address? name⟩ := by
  rw [Instruction.rebased, h, if_pos rfl]
  simp [SymbolTable.address?, Symbol.rebased, Function.comp_def]

end

/-! ## Statements -/

section

variable (arithmetic : Bool) (d : Int64)

theorem Stmt.declaredList_rebased (stmts : List Stmt) (t : SymbolTable) :
    Stmt.declaredList (t.rebased d) stmts = (Stmt.declaredList t stmts).rebased d := by
  induction stmts using Stmt.list_induction generalizing t with
  | nil => rfl
  | declaration pos dataType names rest ih =>
    simp only [Stmt.declaredList, Stmt.declared, SymbolTable.declareAll_rebased, ih]
  | assignment pos target value rest ih => simpa only [Stmt.declaredList, Stmt.declared] using ih t
  | output pos value rest ih => simpa only [Stmt.declaredList, Stmt.declared] using ih t
  | loop pos condition body rest ihbody ih => simp only [Stmt.declaredList, Stmt.declared, ihbody, ih]

theorem Expr.emitted_rebased (t : SymbolTable) (x : Expr) (n : Nat) :
    x.emitted arithmetic (t.rebased d) n = (x.emitted arithmetic t n).rebased d := by
  induction x generalizing n with
  | literal pos value => rfl
  | identifier pos name => exact congrArg ([·]) (t.access_rebased d rfl n name)
  | binary pos operator left right ihl ihr =>
    unfold Expr.emitted
    split
    · next op hop =>
      simp only [ihl, ihr, Code.length_rebased, Code.rebased_append, Code.rebased_cons, Code.rebased_nil,
        Instruction.rebased_of_not_isAccess d (Opcode.not_isAccess_of_operator hop)]
    · rfl

theorem Stmt.emittedList_rebased (stmts : List Stmt) (t : SymbolTable) (n : Nat) :
    Stmt.emittedList arithmetic (t.rebased d) n stmts = (Stmt.emittedList arithmetic t n stmts).rebased d := by
  induction stmts using Stmt.list_induction generalizing t n with
  | nil => rfl
  | declaration pos dataType names rest ih =>
    rw [Stmt.emittedList_declaration, Stmt.emittedList_declaration, SymbolTable.declareAll_rebased, ih]
  | assignment pos target value rest ih =>
    simp only [Stmt.emittedList_assignment, Expr.emitted_rebased, Code.length_rebased, ih, Code.rebased_append,
      Code.rebased_cons, t.access_rebased d (show Opcode.popm.isAccess = true from rfl)]
  | output pos value rest ih =>
    simp only [Stmt.emittedList_output, Expr.emitted_rebased, Code.length_rebased, ih, Code.rebased_append,
      Code.rebased_cons, Instruction.rebased_of_not_isAccess d (show Opcode.stdout.isAccess = false from rfl)]
  | loop pos condition body rest ihbody ih =>
    simp only [Stmt.emittedList_loop, Expr.emitted_rebased, Code.length_rebased, Stmt.declaredList_rebased, ihbody, ih,
      Code.rebased_append, Code.rebased_cons,
      Instruction.rebased_of_not_isAccess d (show Opcode.jumpz.isAccess = false from rfl),
      Instruction.rebased_of_not_isAccess d (show Opcode.jump.isAccess = false from rfl)]

end

/-! ## Faults -/

section

variable (opts : Options) (d : Int64)

/-- The options with their base `d` addresses farther on. -/
def Options.rebased : Options := { opts with base := opts.base + d }

theorem SymbolTable.fault?_rebased (t : SymbolTable) (name : Text) (pos : Position) :
    (t.rebased d).fault? (opts.rebased d) name pos = t.fault? opts name pos := by
  simp only [SymbolTable.fault?, SymbolTable.lookup_rebased, Option.isNone_map, Options.rebased]

theorem Expr.fault?_rebased (t : SymbolTable) (x : Expr) :
    x.fault? (opts.rebased d) (t.rebased d) = x.fault? opts t := by
  induction x with
  | literal => rfl
  | identifier pos name => exact t.fault?_rebased opts d name pos
  | binary pos operator left right ihl ihr =>
    unfold Expr.fault?
    rw [ihl, ihr]
    rfl

theorem Stmt.faultList?_rebased (stmts : List Stmt) (t : SymbolTable) :
    Stmt.faultList? (opts.rebased d) (t.rebased d) stmts = Stmt.faultList? opts t stmts := by
  induction stmts using Stmt.list_induction generalizing t with
  | nil => rfl
  | declaration pos dataType names rest ih =>
    simp only [Stmt.faultList?, Stmt.fault?, Stmt.declared, SymbolTable.declareAll_rebased, ih]
  | assignment pos target value rest ih =>
    simp only [Stmt.faultList?, Stmt.fault?, Stmt.declared, Expr.fault?_rebased, SymbolTable.fault?_rebased, ih]
  | output pos value rest ih => simp only [Stmt.faultList?, Stmt.fault?, Stmt.declared, Expr.fault?_rebased, ih]
  | loop pos condition body rest ihbody ih =>
    simp only [Stmt.faultList?, Stmt.fault?, Stmt.declared, Expr.fault?_rebased, Stmt.declaredList_rebased, ihbody, ih]

end

/-- **Change of base**: with the base `d` addresses farther on a program meets the same error, or it has the same
symbols and the same instructions except that every address is `d` farther on. -/
theorem compile_rebased (opts : Options) (d : Int64) (stmts : List Stmt) :
    compile { opts with base := opts.base + d } stmts = (compile opts stmts).map (Program.rebased d) := by
  have hstart : SymbolTable.rebased d { base := opts.base } = { base := opts.base + d } := rfl
  have hfault := Stmt.faultList?_rebased opts d stmts { base := opts.base }
  have hdeclared := Stmt.declaredList_rebased d stmts { base := opts.base }
  have hemitted := Stmt.emittedList_rebased opts.arithmetic d stmts { base := opts.base } 1
  rw [hstart] at hfault hdeclared hemitted
  rw [compile_eq, compile_eq, ← hfault]
  simp only [Options.rebased, hdeclared, hemitted]
  cases Stmt.faultList? { opts with base := opts.base + d } { base := opts.base + d } stmts with
  | none => rfl
  | some e => rfl

end RatLang
