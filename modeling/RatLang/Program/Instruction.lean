import RatLang.Text.Numeral

/-!
# Instructions

The code of the stack machine: instructions numbered from 1, each with an operation and at most one
operand. Programs may also come from elsewhere than the code generator, so an operation can have any
name and an index any value.
-/
namespace RatLang

/-- The operations of the stack machine. -/
inductive Opcode where
  /-- Push the operand. -/
  | pushi
  /-- Push the word at the address. -/
  | pushm
  /-- Pop into the address. -/
  | popm
  /-- Go to the index. -/
  | jump
  /-- Pop, and go to the index if the word is zero. -/
  | jumpz
  /-- Pop and print. -/
  | stdout
  | add
  | sub
  | mul
  | div
  | les
  | grt
  | leq
  | geq
  | neq
  /-- An operation the machine does not know. -/
  | other (name : Text)
  deriving DecidableEq, Repr

namespace Opcode

/-- The operations the machine knows. -/
def known : List Opcode :=
  [pushi, pushm, popm, jump, jumpz, stdout, add, sub, mul, div, les, grt, leq, geq, neq]

/-- The name in listings. -/
def name : Opcode → Text
  | pushi => bytes "PUSHI"
  | pushm => bytes "PUSHM"
  | popm => bytes "POPM"
  | jump => bytes "JUMP"
  | jumpz => bytes "JUMPZ"
  | stdout => bytes "STDOUT"
  | add => bytes "ADD"
  | sub => bytes "SUB"
  | mul => bytes "MUL"
  | div => bytes "DIV"
  | les => bytes "LES"
  | grt => bytes "GRT"
  | leq => bytes "LEQ"
  | geq => bytes "GEQ"
  | neq => bytes "NEQ"
  | other name => name

/-- The operation with a name. -/
def ofName (t : Text) : Opcode := (known.find? fun op => op.name = t).getD (other t)

/-- The operation of a source operator; some operators have none. -/
def ofOperator? (t : Text) : Option Opcode :=
  if t = bytes "+" then some add
  else if t = bytes "-" then some sub
  else if t = bytes "*" then some mul
  else if t = bytes "/" then some div
  else if t = bytes "<" then some les
  else if t = bytes ">" then some grt
  else if t = bytes "<=" then some leq
  else if t = bytes ">=" then some geq
  else if t = bytes "!=" then some neq
  else none

end Opcode

/-- An instruction. The operand is absent when the operation takes none or when it names something
that could not be resolved. -/
structure Instruction where
  index : Int
  op : Opcode
  operand : Option Int := none
  deriving DecidableEq, Repr

namespace Instruction

/-- The operand in decimal, nothing when it is absent. -/
def operandText (i : Instruction) : Text :=
  match i.operand with
  | some n => decimal n
  | none => []

/-- Index, operation and, if present, operand with single spaces between. -/
def text (i : Instruction) : Text :=
  decimal i.index ++ bytes " " ++ i.op.name ++
    match i.operand with
    | some n => bytes " " ++ decimal n
    | none => []

end Instruction

/-- A sequence of instructions, numbered from 1 by emission. -/
abbrev Code := List Instruction

namespace Code

/-- The index of the next instruction. -/
def next (code : Code) : Nat := code.length + 1

/-- The code with one more instruction. -/
def emit (code : Code) (op : Opcode) (operand : Option Int) : Code := code ++ [⟨code.next, op, operand⟩]

/-- The place of an index, if the code reaches it. -/
def place? (code : Code) (index : Int) : Option Nat :=
  if 1 ≤ index ∧ index ≤ code.length then some (index - 1).toNat else none

/-- The instruction at an index. -/
def at? (code : Code) (index : Int) : Option Instruction := (code.place? index).bind fun i => code[i]?

/-- The code with the operand at a place set. -/
def setOperand (code : Code) (place : Nat) (operand : Int) : Code :=
  code.modify place fun i => { i with operand := some operand }

/-- The code with the operand at an index set, if the code reaches it. -/
def patch? (code : Code) (index operand : Int) : Option Code :=
  (code.place? index).map fun i => code.setOperand i operand

end Code

end RatLang
