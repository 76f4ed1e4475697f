import RatLang.Program
import RatLang.Statement
import RatLang.Text.Quoted

/-!
# Code generation

Statements become instructions in a context of symbols and code. A loop is laid out as

    start: condition
           JUMPZ end
           body
           JUMP start
    end:

where the first jump gets its operand once the end is known. Without arithmetic an operator
expression produces no instructions at all. An undeclared name yields an instruction without operand,
in strict mode an error. A failure keeps the context as it was at that moment.
-/
namespace RatLang

/-- What a translation depends on besides its source. -/
structure Options where
  /-- The address of the first symbol. -/
  base : Int64 := defaultBase
  /-- Refuse stray characters and undeclared names. -/
  strict : Bool := false
  /-- Generate code for operators. -/
  arithmetic : Bool := false
  deriving DecidableEq, Repr

/-- Why code generation stopped. -/
inductive CompileError where
  /-- Strict mode: a name was used before any declaration. -/
  | unresolved (name : Text) (pos : Position)
  /-- No instruction exists for an operator. -/
  | unknownOperator (operator : Text) (pos : Position)
  deriving DecidableEq, Repr

namespace CompileError

/-- Where it happened. -/
def pos : CompileError → Position
  | unresolved _ pos | unknownOperator _ pos => pos

/-- What is wrong, without the position. -/
def message : CompileError → Text
  | unresolved name _ => bytes "identifier " ++ name.quoted ++ bytes " is not declared"
  | unknownOperator operator _ => bytes "operator " ++ operator.quoted ++ bytes " has no instruction"

end CompileError

/-- The state of a translation: the symbols declared and the code emitted so far. -/
structure Context where
  symbols : SymbolTable := {}
  code : Code := []
  deriving DecidableEq, Repr

namespace Context

/-- The state before anything was translated. -/
def initial (opts : Options) : Context := { symbols := { base := opts.base } }

/-- What has been translated so far. -/
def program (ctx : Context) : Program := ⟨ctx.symbols.entries, ctx.code⟩

end Context

/-- A step of code generation: it changes the context and may fail, and a failure keeps the changes
made before it. -/
abbrev Generate := EStateM CompileError Context

namespace Generate

/-- Emits an instruction. -/
def emit (op : Opcode) (operand : Option Int := none) : Generate Unit :=
  modify fun ctx => { ctx with code := ctx.code.emit op operand }

/-- The index of the next instruction. -/
def next : Generate Nat := return (← get).code.next

/-- The address of a name, absent when it is undeclared and the translation is not strict. -/
def resolve (opts : Options) (name : Text) (pos : Position) : Generate (Option Int) := do
  match (← get).symbols.lookup name with
  | some symbol => return some symbol.address.toInt
  | none => if opts.strict then throw (.unresolved name pos) else return none

end Generate

section

open Generate

/-- The code that pushes the value of an expression. -/
def Expr.generate (opts : Options) : Expr → Generate Unit
  | .literal _ value => emit .pushi (some value.toInt)
  | .identifier pos name => do emit .pushm (← resolve opts name pos)
  | .binary pos operator left right =>
    if opts.arithmetic then
      match Opcode.ofOperator? operator with
      | none => throw (.unknownOperator operator pos)
      | some op => do
        left.generate opts
        right.generate opts
        emit op
    else pure ()

mutual

/-- The code of a statement. -/
def Stmt.generate (opts : Options) : Stmt → Generate Unit
  | .declaration _ dataType names =>
    modify fun ctx => { ctx with symbols := ctx.symbols.declareAll names dataType }
  | .assignment pos target value => do
    value.generate opts
    emit .popm (← resolve opts target pos)
  | .output _ value => do
    value.generate opts
    emit .stdout
  | .loop _ condition body => do
    let start ← next
    condition.generate opts
    let exit ← next
    emit .jumpz
    Stmt.generateList opts body
    emit .jump (some start)
    let stop ← next
    modify fun ctx => { ctx with code := ctx.code.setOperand (exit - 1) stop }

/-- The code of a list of statements. -/
def Stmt.generateList (opts : Options) : List Stmt → Generate Unit
  | [] => pure ()
  | s :: rest => do
    s.generate opts
    Stmt.generateList opts rest

end

end

/-- The context after translating statements into it, with the error that stopped it, if any. -/
def Context.compile (opts : Options) (ctx : Context) (stmts : List Stmt) :
    Context × Option CompileError :=
  match Stmt.generateList opts stmts ctx with
  | .ok _ last => (last, none)
  | .error e last => (last, some e)

/-- The program of a list of statements. -/
def compile (opts : Options) (stmts : List Stmt) : Except CompileError Program :=
  match Stmt.generateList opts stmts (.initial opts) with
  | .ok _ last => .ok last.program
  | .error e _ => .error e

end RatLang
