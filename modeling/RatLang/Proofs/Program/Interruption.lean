import RatLang.Proofs.Program.Emission

/-!
# Interrupted generation

A fault keeps what was generated before it. Said at once, as for whole programs: the instructions that a program
with a fault has emitted when it meets the fault (`Stmt.begunList`), and the symbols that it has declared by then
(`Stmt.declaredBeforeList`). The jump out of a loop is patched behind the loop's body, so it has no operand yet in every
loop that the fault leaves open.

Main statement: what translation makes of any context, with or without a fault (`Context.compile_eq`).
-/
namespace RatLang

/-! ## What stands in front of the first fault -/

/-- The instructions of an expression in front of its first fault, from index `n` on. An operator without instruction
is found before its operands. -/
def Expr.begun (opts : Options) (t : SymbolTable) : Nat → Expr → Code
  | _, .literal .. | _, .identifier .. => []
  | n, .binary _ operator left right =>
    match Opcode.ofOperator? operator, left.fault? opts t with
    | none, _ => []
    | some _, some _ => left.begun opts t n
    | some _, none =>
      let first := left.emitted opts.arithmetic t n
      first ++ right.begun opts t (n + first.length)

mutual

/-- The instructions of a statement in front of its first fault, from index `n` on. -/
def Stmt.begun (opts : Options) (t : SymbolTable) (n : Nat) : Stmt → Code
  | .declaration .. => []
  | .assignment _ _ value =>
    match value.fault? opts t with
    | some _ => value.begun opts t n
    | none => value.emitted opts.arithmetic t n
  | .output _ value => value.begun opts t n
  | .loop _ condition body =>
    match condition.fault? opts t with
    | some _ => condition.begun opts t n
    | none =>
      let test := condition.emitted opts.arithmetic t n
      test ++ ⟨(n + test.length : Nat), .jumpz, none⟩ :: Stmt.begunList opts t (n + test.length + 1) body

/-- The instructions of a list of statements in front of their first fault, from index `n` on. -/
def Stmt.begunList (opts : Options) (t : SymbolTable) (n : Nat) : List Stmt → Code
  | [] => []
  | s :: rest =>
    match s.fault? opts t with
    | some _ => s.begun opts t n
    | none =>
      let first := s.emitted opts.arithmetic t n
      first ++ Stmt.begunList opts (s.declared t) (n + first.length) rest

end

mutual

/-- The symbols at the first fault of a statement. -/
def Stmt.declaredBefore (opts : Options) (t : SymbolTable) : Stmt → SymbolTable
  | .declaration .. | .assignment .. | .output .. => t
  | .loop _ condition body =>
    match condition.fault? opts t with
    | some _ => t
    | none => Stmt.declaredBeforeList opts t body

/-- The symbols at the first fault of a list of statements. -/
def Stmt.declaredBeforeList (opts : Options) (t : SymbolTable) : List Stmt → SymbolTable
  | [] => t
  | s :: rest =>
    match s.fault? opts t with
    | some _ => s.declaredBefore opts t
    | none => Stmt.declaredBeforeList opts (s.declared t) rest

end

/-! ## Generation leaves it -/

namespace Generate

variable {g h : Generate Unit} {ctx middle left : Context} {e : CompileError}

theorem bind_of_ok (hg : g ctx = .ok () middle) : (g >>= fun _ => h) ctx = h middle := by
  simp only [Bind.bind, EStateM.bind, hg]

theorem bind_of_error (hg : g ctx = .error e left) : (g >>= fun _ => h) ctx = .error e left := by
  simp only [Bind.bind, EStateM.bind, hg]

/-- The first of two faults is the one, or the other where the one is none. -/
theorem fault_orElse {f f' : Option CompileError} (hf : (f <|> f') = some e) :
    f = some e ∨ f = none ∧ f' = some e := by
  cases f with
  | none => exact Or.inr ⟨rfl, by simpa using hf⟩
  | some e' => exact Or.inl (by simpa using hf)

/-- A name that is refused leaves no instruction. -/
theorem emit_resolve_error {opts : Options} {name : Text} {pos : Position} (ctx : Context)
    (hf : ctx.symbols.fault? opts name pos = some e) (op : Opcode) :
    (do emit op (← resolve opts name pos)) ctx = .error e ctx := by
  have hrun := resolve_run opts name pos ctx
  rw [hf] at hrun
  simp only [Bind.bind, EStateM.bind, hrun]

end Generate

theorem Context.next_extend (ctx : Context) (part : Code) :
    (ctx.extend part).code.next = ctx.code.next + part.length := by
  simp [Context.extend, Code.next, Nat.add_right_comm]

theorem Context.extend_append (ctx : Context) (a b : Code) : (ctx.extend a).extend b = ctx.extend (a ++ b) := by
  simp [Context.extend]

theorem Context.extend_nil (ctx : Context) : ctx.extend [] = ctx := by
  simp [Context.extend]

/-- The context in which statements leave their first fault. -/
def Stmt.leftList (opts : Options) (ctx : Context) (stmts : List Stmt) : Context :=
  ⟨Stmt.declaredBeforeList opts ctx.symbols stmts, ctx.code ++ Stmt.begunList opts ctx.symbols ctx.code.next stmts⟩

/-- The context in which a statement leaves its first fault. -/
def Stmt.left (opts : Options) (ctx : Context) (s : Stmt) : Context :=
  ⟨s.declaredBefore opts ctx.symbols, ctx.code ++ s.begun opts ctx.symbols ctx.code.next⟩

section

open Generate

variable {opts : Options} {e : CompileError} (ctx : Context)

theorem Expr.generate_of_sound {x : Expr} (h : x.fault? opts ctx.symbols = none) :
    x.generate opts ctx = .ok () (ctx.extend (x.emitted opts.arithmetic ctx.symbols ctx.code.next)) := by
  have hyields := x.generate_yields opts ctx
  rwa [h] at hyields

theorem Stmt.generateList_of_sound {stmts : List Stmt} (h : Stmt.faultList? opts ctx.symbols stmts = none) :
    Stmt.generateList opts stmts ctx = .ok () (Stmt.afterList opts ctx stmts) := by
  have hyields := Stmt.generateList_yields opts stmts ctx
  rwa [h] at hyields

theorem Stmt.generate_of_sound {s : Stmt} (h : s.fault? opts ctx.symbols = none) :
    s.generate opts ctx = .ok () (s.after opts ctx) := by
  have hone : Stmt.generateList opts [s] ctx = .ok () (Stmt.afterList opts ctx [s]) :=
    Stmt.generateList_of_sound ctx (by simpa [Stmt.faultList?] using h)
  have hbind : Stmt.generateList opts [s] = s.generate opts := by simp [Stmt.generateList]
  have hafter : Stmt.afterList opts ctx [s] = s.after opts ctx := by
    rw [Stmt.afterList, Stmt.emittedList_singleton, Stmt.declaredList, Stmt.declaredList, Stmt.after]
  rwa [hbind, hafter] at hone

/-- The expression stops at its first fault and leaves what it has begun. -/
theorem Expr.generate_of_fault {x : Expr} (h : x.fault? opts ctx.symbols = some e) :
    x.generate opts ctx = .error e (ctx.extend (x.begun opts ctx.symbols ctx.code.next)) := by
  induction x generalizing ctx with
  | literal => cases h
  | identifier pos name =>
    rw [Expr.begun, Context.extend_nil]
    exact emit_resolve_error ctx h .pushm
  | binary pos operator left right ihl ihr =>
    cases ha : opts.arithmetic with
    | false => simp [Expr.fault?, ha] at h
    | true =>
      cases hop : Opcode.ofOperator? operator with
      | none =>
        simp only [Expr.fault?, ha, hop, if_true, Option.some.injEq] at h
        subst h
        simp only [Expr.generate, Expr.begun, ha, hop, if_true, Context.extend_nil]
        rfl
      | some op =>
        simp only [Expr.fault?, ha, hop, if_true] at h
        simp only [Expr.generate, Expr.begun, ha, hop, if_true]
        rcases fault_orElse h with hl | ⟨hl, hr⟩
        · rw [hl]
          exact bind_of_error (ihl ctx hl)
        · have hleft := Expr.generate_of_sound ctx hl
          have hright := ihr (ctx.extend (left.emitted opts.arithmetic ctx.symbols ctx.code.next)) hr
          rw [Context.next_extend, Context.extend_append, ha] at hright
          rw [ha] at hleft
          rw [hl]
          exact (bind_of_ok hleft).trans (bind_of_error hright)

/-- A loop stops in its condition, or in its body with its own jump still open. -/
theorem Stmt.generate_loop_of_fault {pos : Position} {condition : Expr} {body : List Stmt}
    (hbody : ∀ ctx : Context, Stmt.faultList? opts ctx.symbols body = some e →
      Stmt.generateList opts body ctx = .error e (Stmt.leftList opts ctx body))
    (h : (Stmt.loop pos condition body).fault? opts ctx.symbols = some e) :
    (Stmt.loop pos condition body).generate opts ctx = .error e (Stmt.left opts ctx (.loop pos condition body)) := by
  simp only [Stmt.generate, Stmt.left, Stmt.begun, Stmt.declaredBefore]
  rcases fault_orElse h with htest | ⟨htest, hinner⟩
  · rw [htest]
    exact bind_of_error (Expr.generate_of_fault ctx htest)
  · have hsound := Expr.generate_of_sound ctx htest
    generalize condition.emitted opts.arithmetic ctx.symbols ctx.code.next = test at hsound
    have hopen := hbody ⟨ctx.symbols, Code.emit (ctx.code ++ test) .jumpz none⟩ hinner
    have hnext : Code.next (Code.emit (ctx.code ++ test) .jumpz none) = ctx.code.next + test.length + 1 := by
      simp only [Code.next, Code.emit, List.length_append, List.length_cons, List.length_nil]
      omega
    rw [htest]
    refine (bind_of_ok hsound).trans ((bind_of_error hopen).trans ?_)
    rw [Stmt.leftList, hnext]
    simp [Code.emit, Code.next, Nat.add_right_comm]

theorem Stmt.generateList_cons_of_fault {s : Stmt} {rest : List Stmt}
    (hs : s.fault? opts ctx.symbols = some e → s.generate opts ctx = .error e (s.left opts ctx))
    (hrest : Stmt.faultList? opts (s.after opts ctx).symbols rest = some e →
      Stmt.generateList opts rest (s.after opts ctx) = .error e (Stmt.leftList opts (s.after opts ctx) rest))
    (h : Stmt.faultList? opts ctx.symbols (s :: rest) = some e) :
    Stmt.generateList opts (s :: rest) ctx = .error e (Stmt.leftList opts ctx (s :: rest)) := by
  rw [Stmt.generateList, Stmt.leftList, Stmt.declaredBeforeList, Stmt.begunList]
  rcases fault_orElse h with hfirst | ⟨hfirst, hlater⟩
  · rw [hfirst]
    exact bind_of_error (hs hfirst)
  · rw [hfirst]
    refine (bind_of_ok (Stmt.generate_of_sound ctx hfirst)).trans ((hrest hlater).trans ?_)
    simp [Stmt.leftList, Stmt.after, Code.next, Nat.add_right_comm]

/-- Statements stop at their first fault, and what they have begun stays. -/
theorem Stmt.generateList_of_fault {stmts : List Stmt} (h : Stmt.faultList? opts ctx.symbols stmts = some e) :
    Stmt.generateList opts stmts ctx = .error e (Stmt.leftList opts ctx stmts) := by
  induction stmts using Stmt.list_induction generalizing ctx with
  | nil => cases h
  | declaration pos dataType names rest ih =>
    refine Stmt.generateList_cons_of_fault ctx (fun hs => ?_) (ih _) h
    cases hs
  | assignment pos target value rest ih =>
    refine Stmt.generateList_cons_of_fault ctx (fun hs => ?_) (ih _) h
    simp only [Stmt.generate, Stmt.left, Stmt.begun, Stmt.declaredBefore]
    rcases fault_orElse hs with hvalue | ⟨hvalue, htarget⟩
    · rw [hvalue]
      exact bind_of_error (Expr.generate_of_fault ctx hvalue)
    · rw [hvalue]
      exact (bind_of_ok (Expr.generate_of_sound ctx hvalue)).trans
        (emit_resolve_error (ctx.extend _) htarget .popm)
  | output pos value rest ih =>
    refine Stmt.generateList_cons_of_fault ctx (fun hs => ?_) (ih _) h
    exact bind_of_error (Expr.generate_of_fault ctx hs)
  | loop pos condition body rest ihbody ih =>
    exact Stmt.generateList_cons_of_fault ctx (Stmt.generate_loop_of_fault ctx ihbody) (ih _) h

end

/-- **Translation into a context**: the code and the symbols that are there stay, and behind them comes what the
statements emit and declare, up to their first fault if they have one. -/
theorem Context.compile_eq (opts : Options) (ctx : Context) (stmts : List Stmt) :
    ctx.compile opts stmts =
      match Stmt.faultList? opts ctx.symbols stmts with
      | none => (Stmt.afterList opts ctx stmts, none)
      | some e => (Stmt.leftList opts ctx stmts, some e) := by
  unfold Context.compile
  cases h : Stmt.faultList? opts ctx.symbols stmts with
  | none => rw [Stmt.generateList_of_sound ctx h]
  | some e => rw [Stmt.generateList_of_fault ctx h]

end RatLang
