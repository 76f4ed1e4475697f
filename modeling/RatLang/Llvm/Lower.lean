import RatLang.Llvm.Print
import RatLang.Program

/-!
# Lowering to LLVM

A program becomes a module whose main function behaves like it. Each instruction has a block of its
own, so that jump targets are blocks; the index after the last instruction is the exit block. A
program is refused at its first fault: first a wrong index, then an operation that cannot be lowered,
then a misuse of the stack.
-/
namespace RatLang

/-- Why an instruction cannot be lowered. -/
inductive LowerFault where
  | wrongIndex (expected : Nat)
  | missingOperand
  | unresolvedAddress
  | noSymbol (address : Int)
  | missingTarget
  | targetOutOfRange (target : Int)
  | unknownOpcode
  | stack (fault : DepthFault)
  deriving DecidableEq, Repr

namespace LowerFault

/-- The fault in words. -/
def text : LowerFault → Text
  | wrongIndex expected => bytes "expected index " ++ natDigits expected
  | missingOperand => bytes "missing operand"
  | unresolvedAddress => bytes "unresolved address"
  | noSymbol address => bytes "no symbol at address " ++ decimal address
  | missingTarget => bytes "missing jump target"
  | targetOutOfRange target => bytes "jump target " ++ decimal target ++ bytes " out of range"
  | unknownOpcode => bytes "unknown opcode"
  | stack (.underflow pops depth) =>
    bytes "stack underflow: pops " ++ natDigits pops ++ bytes " value(s) with " ++ natDigits depth ++
      bytes " on the stack"
  | stack .overflow => bytes "stack overflow"
  | stack (.mismatch depth successor other) =>
    bytes "stack depth " ++ natDigits depth ++ bytes " at instruction " ++ natDigits successor ++
      bytes ", " ++ natDigits other ++ bytes " on another path"

end LowerFault

/-- An instruction that cannot be lowered, and why. -/
structure LowerError where
  instruction : Instruction
  fault : LowerFault
  deriving DecidableEq, Repr

namespace LowerError

/-- The whole error line. -/
def text (e : LowerError) : Text :=
  bytes "instruction " ++ e.instruction.text ++ bytes ": " ++ e.fault.text

end LowerError

namespace Lower

open Llvm

/-- Instructions that push a word, numbering their results from `n`. -/
def push (n : Nat) (value : Value) : List Inst :=
  [.load n (.global stackPointer), .slot (n + 1) (.result n), .store value (.result (n + 1)),
    .arith (n + 2) .add (.result n) (.const 1), .store (.result (n + 2)) (.global stackPointer)]

/-- Instructions that pop a word, numbering their results from `n`; the word is result `n + 3`. -/
def pop (n : Nat) : List Inst :=
  [.load n (.global stackPointer), .arith (n + 1) .sub (.result n) (.const 1),
    .store (.result (n + 1)) (.global stackPointer), .slot (n + 2) (.result (n + 1)),
    .load (n + 3) (.result (n + 2))]

/-- Straight code with the number of the first free result after it. -/
structure Straight where
  insts : List Inst
  free : Nat

/-- Pops two words, combines them by one instruction and pushes the result. -/
def combine (n : Nat) (op : Arith) : Straight :=
  ⟨pop n ++ pop (n + 4) ++ [.arith (n + 8) op (.result (n + 7)) (.result (n + 3))] ++
    push (n + 9) (.result (n + 8)), n + 12⟩

/-- Pops two words, compares them and pushes 1 or 0. -/
def relate (n : Nat) (predicate : Predicate) : Straight :=
  ⟨pop n ++ pop (n + 4) ++
    [.compare (n + 8) predicate (.result (n + 7)) (.result (n + 3)), .extend (n + 9) (n + 8)] ++
    push (n + 10) (.result (n + 9)), n + 13⟩

/-- The global of the symbol at an address, the last one if several share it. -/
def symbolAt? (symbols : List Symbol) (address : Int) : Option Text :=
  (symbols.reverse.find? fun s => s.address.toInt = address).map fun s => memoryGlobal s.name

/-- The global that an instruction's operand names. -/
def memory (symbols : List Symbol) (operand : Option Int) : Except LowerFault Place :=
  match operand with
  | none => .error .unresolvedAddress
  | some address =>
    match symbolAt? symbols address with
    | none => .error (.noSymbol address)
    | some name => .ok (.global name)

/-- The block of an index in a program of `count` instructions. -/
def label (count index : Nat) : Label := if index = count + 1 then .exit else .instruction index

/-- The block that a jump's operand names. -/
def target (count : Nat) (operand : Option Int) : Except LowerFault Label :=
  match operand with
  | none => .error .missingTarget
  | some t =>
    if 1 ≤ t ∧ t ≤ count + 1 then .ok (label count t.toNat) else .error (.targetOutOfRange t)

/-- The block of the instruction at `index`, numbering results from `n`, and the next free number. -/
def block (symbols : List Symbol) (count n index : Nat) (i : Instruction) :
    Except LowerFault (Block × Nat) :=
  let next := label count (index + 1)
  let falling (s : Straight) : Block × Nat := (⟨.instruction index, s.insts, .goto next⟩, s.free)
  match i.op with
  | .pushi =>
    match i.operand with
    | none => .error .missingOperand
    | some value => .ok (falling ⟨push n (.const value), n + 3⟩)
  | .pushm => do
    let place ← memory symbols i.operand
    return falling ⟨.load n place :: push (n + 1) (.result n), n + 4⟩
  | .popm => do
    let place ← memory symbols i.operand
    return falling ⟨pop n ++ [.store (.result (n + 3)) place], n + 4⟩
  | .stdout => .ok (falling ⟨pop n ++ [.print (n + 4) (.result (n + 3))], n + 5⟩)
  | .jump => do
    let goal ← target count i.operand
    return (⟨.instruction index, [], .goto goal⟩, n)
  | .jumpz => do
    let goal ← target count i.operand
    return (⟨.instruction index, pop n ++ [.compare (n + 4) .eq (.result (n + 3)) (.const 0)],
      .branch (n + 4) goal next⟩, n + 5)
  | .add => .ok (falling (combine n .add))
  | .sub => .ok (falling (combine n .sub))
  | .mul => .ok (falling (combine n .mul))
  | .div => .ok (falling (combine n .sdiv))
  | .les => .ok (falling (relate n .slt))
  | .grt => .ok (falling (relate n .sgt))
  | .leq => .ok (falling (relate n .sle))
  | .geq => .ok (falling (relate n .sge))
  | .neq => .ok (falling (relate n .ne))
  | .other _ => .error .unknownOpcode

/-- The blocks of instructions that begin at `index`. -/
def blocks (symbols : List Symbol) (count : Nat) : Nat → Nat → Code → Except LowerError (List Block)
  | _, _, [] => .ok []
  | n, index, i :: rest =>
    match block symbols count n index i with
    | .error fault => .error ⟨i, fault⟩
    | .ok (first, free) => do
      let others ← blocks symbols count free (index + 1) rest
      return first :: others

/-- Checks that the instructions are numbered from `index` on. -/
def checkIndices : Nat → Code → Except LowerError Unit
  | _, [] => .ok ()
  | index, i :: rest =>
    if i.index = index then checkIndices (index + 1) rest else .error ⟨i, .wrongIndex index⟩

end Lower

open Llvm in
/-- The module that behaves like the program. -/
def Program.lower (p : Program) : Except LowerError Module := do
  Lower.checkIndices 1 p.code
  let blocks ← Lower.blocks p.symbols p.code.length 0 1 p.code
  match Depth.check p.code with
  | .error (i, fault) => throw ⟨i, .stack fault⟩
  | .ok () =>
    return {
      memory := p.symbols.map fun s => memoryGlobal s.name
      blocks := ⟨.entry, [], .goto (Lower.label p.code.length 1)⟩ :: blocks ++ [⟨.exit, [], .ret⟩] }

end RatLang
