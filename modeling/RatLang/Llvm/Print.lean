import RatLang.Llvm.Module
import RatLang.Program.Depth

/-!
# LLVM text

A module in LLVM's assembly language. Blocks are separated by empty lines and instructions indented
by a tab. A global whose name holds unusual bytes is quoted.
-/
namespace RatLang.Llvm

/-- Bytes that a global's name may hold without quotes. -/
def isNameByte (b : UInt8) : Bool :=
  isDigit b || isLetter b || b == 0x24 || b == 0x2e || b == 0x5f || b == 0x2d

/-- A byte of a quoted name: printable ASCII as it is, all else as two hexadecimal digits. -/
def escapeByte (b : UInt8) : Text :=
  if 0x20 ≤ b && b ≤ 0x7e && b != 0x22 && b != 0x5c then [b] else 0x5c :: hexDigitsUpper 2 b.toNat

/-- A global by its name. -/
def globalText (name : Text) : Text :=
  if name.all isNameByte then bytes "@" ++ name
  else bytes "@\"" ++ name.flatMap escapeByte ++ bytes "\""

/-- The result with a number. -/
def resultText (n : Nat) : Text := bytes "%" ++ natDigits n

/-- The hexadecimal digits of a number in upper case. -/
def hexText (n : Nat) : Text := hexDigitsUpper (Nat.log2 n / 4 + 1) n

/-- How varied the digits of a numeral are: the number of distinct digits, and the number of digits
up to the base. -/
def variety (base : Nat) (digits : Text) : Nat × Nat := (digits.eraseDups.length, min digits.length base)

/-- Whether few of the hexadecimal digits of a numeral are distinct: at most a half of four, a quarter
of sixteen and in proportion between them, where a hundredth more does no harm. -/
def isMonotonous (distinct size : Nat) : Bool := 1200 * distinct + 25 * size * size ≤ 712 * size

/-- Whether a number reads better in hexadecimal: few of the digits are distinct there, and in decimal
the share of distinct digits is greater by a fifth. The shares are compared in double precision, where
one tenth and a fifth exceed three tenths and two fifths and a fifth exceed three fifths. -/
def readsBetterInHex (n : Nat) : Bool :=
  let (hex, hexSize) := variety 16 (hexText n)
  let (dec, decSize) := variety 10 (natDigits n)
  let lower := (5 * hex + hexSize) * decSize
  let upper := 5 * dec * hexSize
  isMonotonous hex hexSize &&
    (lower < upper || (lower == upper && 10 * hex != hexSize && 5 * hex != 2 * hexSize))

/-- A constant. From 0x1000 on it is written in hexadecimal where that reads better. -/
def constText (n : Int) : Text :=
  if 0x1000 ≤ n && readsBetterInHex n.toNat then bytes "u0x" ++ hexText n.toNat else decimal n

namespace Value

/-- The operand as it is written. -/
def text : Value → Text
  | const n => constText n
  | result n => resultText n

end Value

namespace Place

/-- The address as it is written. -/
def text : Place → Text
  | global name => globalText name
  | result n => resultText n

end Place

namespace Arith

/-- The operation's name. -/
def text : Arith → Text
  | add => bytes "add"
  | sub => bytes "sub"
  | mul => bytes "mul"
  | sdiv => bytes "sdiv"

end Arith

namespace Predicate

/-- The comparison's name. -/
def text : Predicate → Text
  | eq => bytes "eq"
  | ne => bytes "ne"
  | slt => bytes "slt"
  | sgt => bytes "sgt"
  | sle => bytes "sle"
  | sge => bytes "sge"

end Predicate

/-- The type of the stack. -/
def stackType : Text := bytes "[" ++ natDigits stackSize ++ bytes " x i64]"

namespace Inst

/-- The instruction as it is written. -/
def text : Inst → Text
  | load r source => resultText r ++ bytes " = load i64, i64* " ++ source.text
  | store value target => bytes "store i64 " ++ value.text ++ bytes ", i64* " ++ target.text
  | slot r index =>
    resultText r ++ bytes " = getelementptr " ++ stackType ++ bytes ", " ++ stackType ++ bytes "* " ++
      globalText stackGlobal ++ bytes ", i64 0, i64 " ++ index.text
  | arith r op left right =>
    resultText r ++ bytes " = " ++ op.text ++ bytes " i64 " ++ left.text ++ bytes ", " ++ right.text
  | compare r predicate left right =>
    resultText r ++ bytes " = icmp " ++ predicate.text ++ bytes " i64 " ++ left.text ++ bytes ", " ++
      right.text
  | extend r flag => resultText r ++ bytes " = zext i1 " ++ resultText flag ++ bytes " to i64"
  | print r value =>
    resultText r ++ bytes " = call i32 (i8*, ...) @printf(i8* getelementptr ([4 x i8], [4 x i8]* " ++
      globalText formatGlobal ++ bytes ", i64 0, i64 0), i64 " ++ value.text ++ bytes ")"

end Inst

namespace Label

/-- The block's name. -/
def name : Label → Text
  | entry => bytes "entry"
  | instruction index => bytes "i" ++ natDigits index
  | exit => bytes "exit"

/-- The block as the target of a branch. -/
def text (l : Label) : Text := bytes "label %" ++ l.name

end Label

namespace Terminator

/-- The terminator as it is written. -/
def text : Terminator → Text
  | goto target => bytes "br " ++ target.text
  | branch flag yes no =>
    bytes "br i1 " ++ resultText flag ++ bytes ", " ++ yes.text ++ bytes ", " ++ no.text
  | ret => bytes "ret i32 0"

end Terminator

namespace Block

/-- The block's lines. -/
def text (b : Block) : Text :=
  Text.line (b.label.name ++ bytes ":") ++
    (b.insts.flatMap fun i => Text.line (0x09 :: i.text)) ++ Text.line (0x09 :: b.terminator.text)

end Block

namespace Module

/-- The text of a module. -/
def text (m : Module) : Text :=
  Text.line (globalText stackGlobal ++ bytes " = global " ++ stackType ++ bytes " zeroinitializer") ++
  Text.line (globalText stackPointer ++ bytes " = global i64 0") ++
  Text.line (globalText formatGlobal ++ bytes " = constant [4 x i8] c\"%d\\0A\\00\"") ++
  (m.memory.flatMap fun name => Text.line (globalText name ++ bytes " = global i64 0")) ++
  Text.line [] ++
  Text.line (bytes "declare i32 @printf(i8* %format, ...)") ++
  Text.line [] ++
  Text.line (bytes "define i32 @main() \x7b") ++
  Text.join [0x0a] (m.blocks.map Block.text) ++
  Text.line (bytes "\x7d")

end Module

end RatLang.Llvm
