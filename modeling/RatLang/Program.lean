import RatLang.Program.Instruction
import RatLang.Program.Symbol

/-!
# Programs and their tables

The result of a translation: symbols and instructions. Each is written as a table with a heading line
and one line per entry, the fields of an entry separated by tabs.
-/
namespace RatLang

/-- A translated program. -/
structure Program where
  symbols : List Symbol
  code : Code
  deriving DecidableEq, Repr

/-- A line of tab separated fields. -/
def tableRow (fields : List Text) : Text := Text.line (Text.join [0x09] fields)

/-- Name, address and type of each symbol. -/
def symbolTable (symbols : List Symbol) : Text :=
  Text.line (bytes "Symbol Table") ++
    symbols.flatMap fun s => tableRow [s.name, decimal s.address.toInt, s.type]

/-- Index, operation and operand of each instruction; an absent operand leaves its field empty. -/
def instructionTable (code : Code) : Text :=
  Text.line (bytes "Instruction Table") ++
    code.flatMap fun i => tableRow [decimal i.index, i.op.name, i.operandText]

end RatLang
