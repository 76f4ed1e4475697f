import RatLang.Text.Blank

/-!
# Prompts

Questions to a person, answered by lines of input. A question shows what an empty answer means.
-/
namespace RatLang

/-- What is left of the input that answers are read from. -/
structure Prompt where
  input : Text := []
  deriving DecidableEq, Repr

/-- An answered question: the answer, what was shown, and the input after it. -/
structure Reply (α : Type) where
  answer : α
  shown : Text
  rest : Prompt
  deriving Repr

namespace Prompt

/-- The next line of input without the white space at its ends, and the input after it. The last
line may lack its newline. -/
def readLine (p : Prompt) : Text × Prompt :=
  let (line, rest) := p.input.span (· != 0x0a)
  (Text.trimmed line, ⟨rest.drop 1⟩)

/-- Asks for a text. -/
def askText (p : Prompt) (question default : Text) : Reply Text :=
  let (line, rest) := p.readLine
  ⟨if line.isEmpty then default else line, question ++ bytes " (" ++ default ++ bytes "): ", rest⟩

/-- The small letter of a letter. The long s and the Kelvin sign are letters too. -/
def foldCase (code : Nat) : Nat :=
  if 0x41 ≤ code && code ≤ 0x5a then code + 0x20
  else if code == 0x17f then 0x73
  else if code == 0x212a then 0x6b
  else code

/-- Whether a text spells a word of small letters, in any case. -/
def spells (t word : Text) : Bool :=
  t.points.map (fun p => p.code.map foldCase) == word.map fun b => some b.toNat

/-- Asks for a yes or a no. -/
def askYesNo (p : Prompt) (question : Text) (default : Bool) : Reply Bool :=
  let (line, rest) := p.readLine
  let choices := if default then bytes " (Y/n): " else bytes " (y/N): "
  let answer := if line.isEmpty then default else spells line (bytes "y") || spells line (bytes "yes")
  ⟨answer, question ++ choices, rest⟩

end Prompt

end RatLang
