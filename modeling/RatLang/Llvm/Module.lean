import RatLang.Text.Numeral

/-!
# LLVM modules

The part of LLVM that lowered programs use. A module keeps one word of memory per symbol, a stack of
words with a global stack pointer, and a main function made of blocks. Results are numbered through
the whole function. The text of a module is printed from this structure.
-/
namespace RatLang.Llvm

/-- A word: a constant or an earlier result. -/
inductive Value where
  | const (n : Int)
  | result (n : Nat)
  deriving DecidableEq, Repr

/-- Where a word is kept: in a global or at an address computed before. -/
inductive Place where
  | global (name : Text)
  | result (n : Nat)
  deriving DecidableEq, Repr

/-- Arithmetic on words. -/
inductive Arith where
  | add
  | sub
  | mul
  | sdiv
  deriving DecidableEq, Repr

/-- Comparisons of words, signed. -/
inductive Predicate where
  | eq
  | ne
  | slt
  | sgt
  | sle
  | sge
  deriving DecidableEq, Repr

/-- An instruction; `r` is the number of its result. -/
inductive Inst where
  | load (r : Nat) (source : Place)
  | store (value : Value) (target : Place)
  /-- The address of the stack's slot at an index. -/
  | slot (r : Nat) (index : Value)
  | arith (r : Nat) (op : Arith) (left right : Value)
  | compare (r : Nat) (predicate : Predicate) (left right : Value)
  /-- The outcome of a comparison as a word. -/
  | extend (r : Nat) (flag : Nat)
  /-- Prints a word on a line. -/
  | print (r : Nat) (value : Value)
  deriving DecidableEq, Repr

/-- The blocks of the main function: one at each end and one per instruction of the program. -/
inductive Label where
  | entry
  | instruction (index : Nat)
  | exit
  deriving DecidableEq, Repr

/-- How a block ends. -/
inductive Terminator where
  | goto (target : Label)
  /-- The first target if the flag is set, else the second. -/
  | branch (flag : Nat) (yes no : Label)
  | ret
  deriving DecidableEq, Repr

/-- A block: straight code and how it ends. -/
structure Block where
  label : Label
  insts : List Inst
  terminator : Terminator
  deriving DecidableEq, Repr

/-- A module: the names of its memory words and the blocks of its main function. -/
structure Module where
  memory : List Text
  blocks : List Block
  deriving DecidableEq, Repr

/-- The global that holds the stack pointer. -/
def stackPointer : Text := bytes "rat.sp"

/-- The global that holds the stack. -/
def stackGlobal : Text := bytes "rat.stack"

/-- The global that holds the print format. -/
def formatGlobal : Text := bytes "rat.fmt"

/-- The global of a symbol. -/
def memoryGlobal (name : Text) : Text := bytes "mem." ++ name

end RatLang.Llvm
