import RatLang.Program.Compile

/-!
# Emitted code

Code generation runs through a context and patches jumps afterwards. Here its result is said at once:
the symbols a program declares (`Stmt.declaredList`), the first fault it meets (`Stmt.faultList?`) and,
when there is none, the instructions it emits from a given index on (`Stmt.emittedList`). Every later
fact about compiled programs starts from `compile_eq`.
-/
namespace RatLang

/-! ## Induction on programs -/

/-- Induction on lists of statements: the body of a loop is smaller than the loop. -/
theorem Stmt.list_induction {motive : List Stmt → Prop} (nil : motive [])
    (declaration : ∀ pos dataType names rest, motive rest →
      motive (.declaration pos dataType names :: rest))
    (assignment : ∀ pos target value rest, motive rest → motive (.assignment pos target value :: rest))
    (output : ∀ pos value rest, motive rest → motive (.output pos value :: rest))
    (loop : ∀ pos condition body rest, motive body → motive rest →
      motive (.loop pos condition body :: rest)) : ∀ stmts, motive stmts
  | [] => nil
  | .declaration pos dataType names :: rest =>
    declaration pos dataType names rest (list_induction nil declaration assignment output loop rest)
  | .assignment pos target value :: rest =>
    assignment pos target value rest (list_induction nil declaration assignment output loop rest)
  | .output pos value :: rest =>
    output pos value rest (list_induction nil declaration assignment output loop rest)
  | .loop pos condition body :: rest =>
    loop pos condition body rest (list_induction nil declaration assignment output loop body)
      (list_induction nil declaration assignment output loop rest)

/-! ## What a program declares, refuses and emits -/

mutual

/-- The symbols after a statement. -/
def Stmt.declared (t : SymbolTable) : Stmt → SymbolTable
  | .declaration _ dataType names => t.declareAll names dataType
  | .assignment .. | .output .. => t
  | .loop _ _ body => Stmt.declaredList t body

/-- The symbols after a list of statements. -/
def Stmt.declaredList (t : SymbolTable) : List Stmt → SymbolTable
  | [] => t
  | s :: rest => Stmt.declaredList (s.declared t) rest

end

/-- The fault of a use: in strict mode the name must be declared. -/
def SymbolTable.fault? (opts : Options) (t : SymbolTable) (name : Text) (pos : Position) :
    Option CompileError :=
  if opts.strict && (t.lookup name).isNone then some (.unresolved name pos) else none

/-- The first fault of an expression. -/
def Expr.fault? (opts : Options) (t : SymbolTable) : Expr → Option CompileError
  | .literal .. => none
  | .identifier pos name => t.fault? opts name pos
  | .binary pos operator left right =>
    if opts.arithmetic then
      match Opcode.ofOperator? operator with
      | none => some (.unknownOperator operator pos)
      | some _ => left.fault? opts t <|> right.fault? opts t
    else none

mutual

/-- The first fault of a statement. -/
def Stmt.fault? (opts : Options) (t : SymbolTable) : Stmt → Option CompileError
  | .declaration .. => none
  | .assignment pos target value => value.fault? opts t <|> t.fault? opts target pos
  | .output _ value => value.fault? opts t
  | .loop _ condition body => condition.fault? opts t <|> Stmt.faultList? opts t body

/-- The first fault of a list of statements. -/
def Stmt.faultList? (opts : Options) (t : SymbolTable) : List Stmt → Option CompileError
  | [] => none
  | s :: rest => s.fault? opts t <|> Stmt.faultList? opts (s.declared t) rest

end

/-- The address that a name stands for. -/
def SymbolTable.address? (t : SymbolTable) (name : Text) : Option Int :=
  (t.lookup name).map fun s => s.address.toInt

/-- The instructions of an expression, from index `n` on. -/
def Expr.emitted (arithmetic : Bool) (t : SymbolTable) : Nat → Expr → Code
  | n, .literal _ value => [⟨n, .pushi, some value.toInt⟩]
  | n, .identifier _ name => [⟨n, .pushm, t.address? name⟩]
  | n, .binary _ operator left right =>
    match arithmetic, Opcode.ofOperator? operator with
    | true, some op =>
      let first := left.emitted arithmetic t n
      let second := right.emitted arithmetic t (n + first.length)
      first ++ (second ++ [⟨(n + first.length + second.length : Nat), op, none⟩])
    | _, _ => []

mutual

/-- The instructions of a statement, from index `n` on. -/
def Stmt.emitted (arithmetic : Bool) (t : SymbolTable) (n : Nat) : Stmt → Code
  | .declaration .. => []
  | .assignment _ target value =>
    let first := value.emitted arithmetic t n
    first ++ [⟨(n + first.length : Nat), .popm, t.address? target⟩]
  | .output _ value =>
    let first := value.emitted arithmetic t n
    first ++ [⟨(n + first.length : Nat), .stdout, none⟩]
  | .loop _ condition body =>
    let test := condition.emitted arithmetic t n
    let inner := Stmt.emittedList arithmetic t (n + test.length + 1) body
    let back := n + test.length + 1 + inner.length
    test ++ [⟨(n + test.length : Nat), .jumpz, some (back + 1 : Nat)⟩] ++ inner ++ [⟨back, .jump, some n⟩]

/-- The instructions of a list of statements, from index `n` on. -/
def Stmt.emittedList (arithmetic : Bool) (t : SymbolTable) (n : Nat) : List Stmt → Code
  | [] => []
  | s :: rest =>
    let first := s.emitted arithmetic t n
    first ++ Stmt.emittedList arithmetic (s.declared t) (n + first.length) rest

end

/-- The operator of a translated expression is known. -/
theorem Expr.operator_of_fault? {opts : Options} {t : SymbolTable} (ha : opts.arithmetic = true) {pos : Position}
    {operator : Text} {left right : Expr} (h : (Expr.binary pos operator left right).fault? opts t = none) :
    ∃ op, Opcode.ofOperator? operator = some op ∧ left.fault? opts t = none ∧ right.fault? opts t = none := by
  cases hop : Opcode.ofOperator? operator with
  | none => simp [Expr.fault?, ha, hop] at h
  | some op =>
    simp only [Expr.fault?, ha, if_true, hop, Option.orElse_eq_orElse, Option.orElse_eq_or,
      Option.or_eq_none_iff] at h
    exact ⟨op, rfl, h⟩

/-! ### One statement after another -/

section

variable (arithmetic : Bool) (t : SymbolTable) (n : Nat) (rest : List Stmt)

theorem Stmt.emittedList_singleton (s : Stmt) :
    Stmt.emittedList arithmetic t n [s] = s.emitted arithmetic t n := by
  simp [Stmt.emittedList]

theorem Stmt.emittedList_declaration (pos : Position) (dataType : Text) (names : List Text) :
    Stmt.emittedList arithmetic t n (.declaration pos dataType names :: rest) =
      Stmt.emittedList arithmetic (t.declareAll names dataType) n rest := by
  simp [Stmt.emittedList, Stmt.emitted, Stmt.declared]

theorem Stmt.emittedList_assignment (pos : Position) (target : Text) (value : Expr) :
    Stmt.emittedList arithmetic t n (.assignment pos target value :: rest) =
      let first := value.emitted arithmetic t n
      first ++ ⟨(n + first.length : Nat), .popm, t.address? target⟩ ::
        Stmt.emittedList arithmetic t (n + first.length + 1) rest := by
  simp [Stmt.emittedList, Stmt.emitted, Stmt.declared, Nat.add_assoc]

theorem Stmt.emittedList_output (pos : Position) (value : Expr) :
    Stmt.emittedList arithmetic t n (.output pos value :: rest) =
      let first := value.emitted arithmetic t n
      first ++ ⟨(n + first.length : Nat), .stdout, none⟩ ::
        Stmt.emittedList arithmetic t (n + first.length + 1) rest := by
  simp [Stmt.emittedList, Stmt.emitted, Stmt.declared, Nat.add_assoc]

theorem Stmt.emittedList_loop (pos : Position) (condition : Expr) (body : List Stmt) :
    Stmt.emittedList arithmetic t n (.loop pos condition body :: rest) =
      let test := condition.emitted arithmetic t n
      let inner := Stmt.emittedList arithmetic t (n + test.length + 1) body
      let back := n + test.length + 1 + inner.length
      test ++ ⟨(n + test.length : Nat), .jumpz, some (back + 1 : Nat)⟩ :: (inner ++
        ⟨back, .jump, some n⟩ ::
          Stmt.emittedList arithmetic (Stmt.declaredList t body) (back + 1) rest) := by
  simp [Stmt.emittedList, Stmt.emitted, Stmt.declared, Nat.add_assoc, Nat.add_comm 1]

end

/-! ## Generation yields it -/

namespace Generate

/-- Generation from `ctx` stops at `fault`, or ends with `last` when there is none. -/
def Yields (g : Generate Unit) (ctx : Context) (fault : Option CompileError) (last : Context) : Prop :=
  match fault with
  | none => g ctx = .ok () last
  | some e => ∃ left, g ctx = .error e left

theorem yields_pure (ctx : Context) : Yields (pure ()) ctx none ctx := rfl

theorem yields_emit (op : Opcode) (operand : Option Int) (ctx : Context) :
    Yields (emit op operand) ctx none { ctx with code := ctx.code.emit op operand } := rfl

theorem yields_modify (f : Context → Context) (ctx : Context) : Yields (modify f) ctx none (f ctx) := rfl

/-- One step after another: the first fault counts. -/
theorem Yields.bind {g h : Generate Unit} {ctx middle last : Context} {f f' : Option CompileError}
    (hg : Yields g ctx f middle) (hh : Yields h middle f' last) :
    Yields (g >>= fun _ => h) ctx (f <|> f') last := by
  cases f with
  | none =>
    have e : (g >>= fun _ => h) ctx = h middle := by
      simp only [Yields] at hg
      simp [Bind.bind, EStateM.bind, hg]
    cases f' <;> simpa [Yields, e] using hh
  | some err =>
    obtain ⟨left, hg⟩ := hg
    exact ⟨left, by simp [Bind.bind, EStateM.bind, hg]⟩

theorem Yields.congr {g : Generate Unit} {ctx last last' : Context} {f f' : Option CompileError}
    (hg : Yields g ctx f last) (hf : f = f') (hl : last = last') : Yields g ctx f' last' :=
  hf ▸ hl ▸ hg

theorem Yields.next {h : Nat → Generate Unit} {ctx last : Context} {f : Option CompileError}
    (hh : Yields (h ctx.code.next) ctx f last) : Yields (next >>= h) ctx f last := hh

theorem resolve_run (opts : Options) (name : Text) (pos : Position) (ctx : Context) :
    resolve opts name pos ctx =
      match ctx.symbols.fault? opts name pos with
      | none => .ok (ctx.symbols.address? name) ctx
      | some e => .error e ctx := by
  simp only [resolve, Bind.bind, EStateM.bind, get, getThe, MonadStateOf.get]
  delta EStateM.get
  cases hl : ctx.symbols.lookup name with
  | some symbol => simp [SymbolTable.fault?, SymbolTable.address?, hl]; rfl
  | none => cases hs : opts.strict <;> simp [SymbolTable.fault?, SymbolTable.address?, hl, hs] <;> rfl

theorem yields_emit_resolve (opts : Options) (op : Opcode) (name : Text) (pos : Position) (ctx : Context) :
    Yields (do emit op (← resolve opts name pos)) ctx (ctx.symbols.fault? opts name pos)
      { ctx with code := ctx.code.emit op (ctx.symbols.address? name) } := by
  have h := resolve_run opts name pos ctx
  cases hf : ctx.symbols.fault? opts name pos with
  | none =>
    rw [hf] at h
    simp [Yields, Bind.bind, EStateM.bind, h]
    rfl
  | some e =>
    rw [hf] at h
    exact ⟨ctx, by simp [Bind.bind, EStateM.bind, h]⟩

end Generate

section

open Generate

/-- The context with more code. -/
def Context.extend (ctx : Context) (part : Code) : Context := { ctx with code := ctx.code ++ part }

theorem Expr.generate_yields (opts : Options) (e : Expr) (ctx : Context) :
    Yields (e.generate opts) ctx (e.fault? opts ctx.symbols)
      (ctx.extend (e.emitted opts.arithmetic ctx.symbols ctx.code.next)) := by
  induction e generalizing ctx with
  | literal pos value => exact yields_emit ..
  | identifier pos name => exact yields_emit_resolve ..
  | binary pos operator left right ihl ihr =>
    cases ha : opts.arithmetic with
    | false => simpa [Expr.generate, Expr.fault?, Expr.emitted, ha, Context.extend] using yields_pure ctx
    | true =>
      cases ho : Opcode.ofOperator? operator with
      | none =>
        simp only [Expr.generate, Expr.fault?, ha, ho, ite_true]
        exact ⟨ctx, rfl⟩
      | some op =>
        simp only [Expr.generate, Expr.fault?, Expr.emitted, ha, ho, ite_true]
        rw [ha] at ihl ihr
        have h := (ihl ctx).bind ((ihr _).bind (yields_emit op none _))
        simpa [Context.extend, Code.emit, Code.next, Nat.add_right_comm, Nat.add_assoc] using h

/-- The context after the statement, if it has no fault. -/
def Stmt.after (opts : Options) (ctx : Context) (s : Stmt) : Context :=
  ⟨s.declared ctx.symbols, ctx.code ++ s.emitted opts.arithmetic ctx.symbols ctx.code.next⟩

/-- The context after the statements, if they have no fault. -/
def Stmt.afterList (opts : Options) (ctx : Context) (stmts : List Stmt) : Context :=
  ⟨Stmt.declaredList ctx.symbols stmts,
    ctx.code ++ Stmt.emittedList opts.arithmetic ctx.symbols ctx.code.next stmts⟩

theorem Code.setOperand_append (before after : Code) (i : Instruction) (operand : Int) :
    Code.setOperand (before ++ i :: after) before.length operand =
      before ++ { i with operand := some operand } :: after := by
  induction before with
  | nil => simp [Code.setOperand]
  | cons b before ih => simpa [Code.setOperand] using ih

/-- A loop around a body that is generated as said. -/
theorem Stmt.loop_yields (opts : Options) (pos : Position) (condition : Expr) (body : List Stmt)
    (hbody : ∀ ctx, Yields (Stmt.generateList opts body) ctx (Stmt.faultList? opts ctx.symbols body)
      (Stmt.afterList opts ctx body)) (ctx : Context) :
    Yields (Stmt.generate opts (.loop pos condition body)) ctx
      (Stmt.fault? opts ctx.symbols (.loop pos condition body))
      (Stmt.after opts ctx (.loop pos condition body)) := by
  have htest := condition.generate_yields opts ctx
  generalize hT : condition.emitted opts.arithmetic ctx.symbols ctx.code.next = test at htest
  have hinner := hbody { ctx with code := (ctx.code ++ test).emit .jumpz none }
  have hnext : Code.next ((ctx.code ++ test).emit .jumpz none) = ctx.code.next + test.length + 1 := by
    simp [Code.next, Code.emit]; omega
  simp only [Stmt.afterList, hnext] at hinner
  generalize hI : Stmt.emittedList opts.arithmetic ctx.symbols (ctx.code.next + test.length + 1) body = inner
    at hinner
  simp only [Stmt.generate]
  refine Yields.congr (Yields.next (htest.bind (Yields.next ((yields_emit .jumpz none _).bind (hinner.bind
    ((yields_emit .jump _ _).bind (Yields.next (yields_modify _ _)))))))) ?_ ?_
  · simp [Stmt.fault?]
  -- the place to patch lies between the test and the body
  · have hexit : Code.next (ctx.extend test).code - 1 = (ctx.code ++ test).length := by
      simp [Code.next, Context.extend]
    simp only [hexit, Code.emit, List.append_assoc, List.cons_append, List.nil_append, Stmt.after,
      Stmt.emitted, hT, hI]
    rw [← List.append_assoc, Code.setOperand_append]
    simp [Stmt.declared, Code.next, Nat.add_right_comm]
    omega

/-- A statement that is generated as said, followed by statements that are. -/
theorem Stmt.cons_yields {opts : Options} {s : Stmt} {rest : List Stmt} {ctx : Context}
    (hs : Yields (s.generate opts) ctx (s.fault? opts ctx.symbols) (s.after opts ctx))
    (hrest : Yields (Stmt.generateList opts rest) (s.after opts ctx)
      (Stmt.faultList? opts (s.declared ctx.symbols) rest) (Stmt.afterList opts (s.after opts ctx) rest)) :
    Yields (Stmt.generateList opts (s :: rest)) ctx (Stmt.faultList? opts ctx.symbols (s :: rest))
      (Stmt.afterList opts ctx (s :: rest)) := by
  refine Yields.congr (hs.bind hrest) rfl ?_
  simp [Stmt.afterList, Stmt.after, Stmt.declaredList, Stmt.emittedList, Code.next, Nat.add_right_comm]

theorem Stmt.generateList_yields (opts : Options) (stmts : List Stmt) (ctx : Context) :
    Yields (Stmt.generateList opts stmts) ctx (Stmt.faultList? opts ctx.symbols stmts)
      (Stmt.afterList opts ctx stmts) := by
  induction stmts using Stmt.list_induction generalizing ctx with
  | nil => exact (yields_pure ctx).congr rfl (by simp [Stmt.afterList, Stmt.declaredList, Stmt.emittedList])
  | declaration pos dataType names rest ih =>
    refine cons_yields ((yields_modify _ ctx).congr rfl ?_) (ih _)
    simp [Stmt.after, Stmt.declared, Stmt.emitted]
  | assignment pos target value rest ih =>
    refine cons_yields ?_ (ih _)
    refine ((value.generate_yields opts ctx).bind (yields_emit_resolve opts .popm target pos _)).congr rfl ?_
    simp [Stmt.after, Stmt.declared, Stmt.emitted, Context.extend, Code.emit, Code.next, Nat.add_right_comm]
  | output pos value rest ih =>
    refine cons_yields ?_ (ih _)
    refine ((value.generate_yields opts ctx).bind (yields_emit .stdout none _)).congr ?_ ?_
    · simp [Stmt.fault?]
    · simp [Stmt.after, Stmt.declared, Stmt.emitted, Context.extend, Code.emit, Code.next, Nat.add_right_comm]
  | loop pos condition body rest ihbody ih =>
    exact cons_yields (Stmt.loop_yields opts pos condition body ihbody ctx) (ih _)

end

/-- **Compilation at once**: the first fault, or the declared symbols and the emitted code. -/
theorem compile_eq (opts : Options) (stmts : List Stmt) :
    compile opts stmts =
      match Stmt.faultList? opts { base := opts.base } stmts with
      | none => .ok ⟨(Stmt.declaredList { base := opts.base } stmts).entries,
          Stmt.emittedList opts.arithmetic { base := opts.base } 1 stmts⟩
      | some e => .error e := by
  have h := Stmt.generateList_yields opts stmts (.initial opts)
  have hs : (Context.initial opts).symbols = { base := opts.base } := rfl
  rw [hs] at h
  unfold compile
  cases hf : Stmt.faultList? opts { base := opts.base } stmts with
  | none =>
    rw [hf] at h
    simp only [Generate.Yields] at h
    rw [h]
    rfl
  | some e =>
    rw [hf] at h
    obtain ⟨left, h⟩ := h
    rw [h]

theorem compile_eq_ok_iff {opts : Options} {stmts : List Stmt} {p : Program} :
    compile opts stmts = .ok p ↔
      Stmt.faultList? opts { base := opts.base } stmts = none ∧
      p.symbols = (Stmt.declaredList { base := opts.base } stmts).entries ∧
      p.code = Stmt.emittedList opts.arithmetic { base := opts.base } 1 stmts := by
  rw [compile_eq]
  cases Stmt.faultList? opts { base := opts.base } stmts with
  | none =>
    obtain ⟨symbols, code⟩ := p
    simp [eq_comm]
  | some e => simp

end RatLang
