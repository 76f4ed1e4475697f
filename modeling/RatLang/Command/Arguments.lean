import RatLang.Text.Numeral
import RatLang.Text.CodePoint

/-!
# Command line arguments

Flags come first: `-f` and `--f` are the same, a value follows as `--f=value` or as the next
argument, and a switch needs none. Switches of one letter may be put together, as in `-sa`. The first
other argument, or `--`, ends the flags. Of a flag that is given twice the last value counts.
-/
namespace RatLang

/-- What a flag takes. -/
inductive FlagKind where
  | switch
  | text
  | number
  deriving DecidableEq, Repr

/-- A flag and its spellings; the first one is its name. -/
structure Flag where
  name : Text
  aliases : List Text := []
  kind : FlagKind
  deriving DecidableEq, Repr

/-- What is wrong with a command line. -/
inductive UsageError where
  | badSyntax (argument : Text)
  | unknownFlag (name : Text)
  | missingValue (name : Text)
  | badValue (value name : Text)
  | unknownCommand (name : Text)
  | noCommand
  deriving DecidableEq, Repr

/-- The error in words. -/
def UsageError.text : UsageError → Text
  | badSyntax argument => bytes "bad flag syntax: " ++ argument
  | unknownFlag name => bytes "flag provided but not defined: -" ++ name
  | missingValue name => bytes "flag needs an argument: -" ++ name
  | badValue value name =>
    bytes "invalid value \"" ++ value ++ bytes "\" for flag -" ++ name
  | unknownCommand name => bytes "No help topic for '" ++ name ++ bytes "'"
  | noCommand => bytes "no command given"

/-- The flags that were set, the last one first, and the other arguments. -/
structure Arguments where
  flags : List (Text × Text) := []
  rest : List Text := []
  deriving DecidableEq, Repr

/-- A truth value on the command line. -/
def readBool? (t : Text) : Option Bool :=
  if ["1", "t", "T", "TRUE", "true", "True"].any (bytes · == t) then some true
  else if ["0", "f", "F", "FALSE", "false", "False"].any (bytes · == t) then some false
  else none

namespace Flag

/-- The flag with a given spelling. -/
def find? (flags : List Flag) (name : Text) : Option Flag :=
  flags.find? fun f => f.name == name || f.aliases.contains name

/-- Whether a value is of the flag's kind. -/
def accepts (f : Flag) (value : Text) : Bool :=
  match f.kind with
  | .switch => (readBool? value).isSome
  | .text => true
  | .number => (Numeral.readInteger value).isOk

end Flag

namespace Arguments

/-- The value of a flag, if it was set. -/
def text? (a : Arguments) (name : String) : Option Text := a.flags.lookup (bytes name)

/-- The value of a switch, if it was set. -/
def switch? (a : Arguments) (name : String) : Option Bool := (a.text? name).bind readBool?

/-- Whether a switch is on. -/
def isOn (a : Arguments) (name : String) : Bool := (a.switch? name).getD false

/-- The value of a number, if it was set. -/
def number? (a : Arguments) (name : String) : Option Int64 :=
  (a.text? name).bind fun t => (Numeral.readInteger t).toOption

/-- Sets a flag. -/
def set (a : Arguments) (f : Flag) (value : Text) : Arguments :=
  { a with flags := (f.name, value) :: a.flags }

/-- A word that begins with a dash: its name, without the dashes, and the value behind `=`. -/
def split (word : Text) : Text × Option Text :=
  let body := match word with
    | 0x2d :: 0x2d :: rest => rest
    | _ :: rest => rest
    | [] => []
  match body.span (· != 0x3d) with
  | (name, _ :: value) => (name, some value)
  | (name, []) => (name, none)

/-- The switches that a word such as `-sa` puts together, if every letter of it is a flag. -/
def together? (flags : List Flag) (word : Text) : Option (List Text) :=
  match word with
  | 0x2d :: b :: c :: rest =>
    let letters := Text.points (b :: c :: rest) |>.map Point.bytes
    if b != 0x2d && letters.all fun l => (Flag.find? flags l).isSome then
      some (letters.map (0x2d :: ·))
    else none
  | _ => none

/-- Reads arguments. The fuel bounds the number of flags; a word of switches stands for no more
flags than it has bytes. -/
def readFrom (flags : List Flag) (a : Arguments) : Nat → List Text → Except UsageError Arguments
  | 0, words => .ok { a with rest := words }
  | _, [] => .ok a
  | fuel + 1, word :: rest =>
    if word.length < 2 || word.head? != some 0x2d then .ok { a with rest := word :: rest }
    else if word == [0x2d, 0x2d] then .ok { a with rest }
    else
      let (name, value) := split word
      if name.isEmpty || name.head? == some 0x2d then .error (.badSyntax word)
      else match Flag.find? flags name with
        | none =>
          match together? flags word with
          | some words => readFrom flags a fuel (words ++ rest)
          | none => .error (.unknownFlag name)
        | some f =>
          let accept (value : Text) (rest : List Text) : Except UsageError Arguments :=
            if f.accepts value then readFrom flags (a.set f value) fuel rest
            else .error (.badValue value name)
          match f.kind, value, rest with
          | _, some value, _ => accept value rest
          | .switch, none, _ => accept (bytes "true") rest
          | _, none, value :: rest => accept value rest
          | _, none, [] => .error (.missingValue name)

/-- Reads the arguments of a command with the given flags. -/
def read (flags : List Flag) (words : List Text) : Except UsageError Arguments :=
  readFrom flags {} (2 * words.foldl (fun n w => n + w.length + 1) 1) words

end Arguments

end RatLang
