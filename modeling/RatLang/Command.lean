import RatLang.FileTree

/-!
# Commands

What a command starts from and what it leaves: files, two streams of text and, if it failed, a
message. Text for people may be coloured.
-/
namespace RatLang

/-- What a command starts from. -/
structure Setting where
  files : FileTree
  /-- The text on standard input. -/
  input : Text := []
  /-- Whether messages are coloured. -/
  color : Bool := false
  /-- The path of the user's shell. -/
  shell : Text := []
  /-- Whether progress is logged. -/
  verbose : Bool := false
  deriving Repr

/-- What a command leaves. A command fails exactly if there is a failure message. -/
structure Outcome where
  files : FileTree
  stdout : Text := []
  stderr : Text := []
  failure : Option Text := none
  deriving Repr

/-- A way to show text on a terminal: the codes that begin and end it. -/
structure Ink where
  start : String
  stop : String := "0"

namespace Ink

def red : Ink := { start := "31" }
def green : Ink := { start := "32" }
def yellow : Ink := { start := "33" }
def cyan : Ink := { start := "36" }
def white : Ink := { start := "37" }
def boldMagenta : Ink := { start := "35;1", stop := "0;22" }

/-- A control sequence that sets how text is shown. -/
def sequence (codes : String) : Text := [0x1b, 0x5b] ++ bytes codes ++ [0x6d]

/-- A text in colour, if colour is wanted. -/
def paint (i : Ink) (color : Bool) (t : Text) : Text :=
  if color then sequence i.start ++ t ++ sequence i.stop else t

end Ink

namespace Setting

/-- The outcome that leaves the files as they are and says nothing. -/
def silent (s : Setting) : Outcome := { files := s.files }

/-- The outcome of a command that fails at once. -/
def fail (s : Setting) (message : Text) : Outcome :=
  { files := s.files, failure := some (Ink.red.paint s.color message) }

/-- The outcome of a command that only prints. -/
def print (s : Setting) (text : Text) : Outcome := { files := s.files, stdout := text }

end Setting

namespace Outcome

/-- The exit code. -/
def exitCode (o : Outcome) : UInt32 := if o.failure.isSome then 1 else 0

/-- The outcome with a failure. -/
def failing (o : Outcome) (s : Setting) (message : Text) : Outcome :=
  { o with failure := some (Ink.red.paint s.color message) }

/-- The outcome with one more line on standard output. -/
def say (o : Outcome) (t : Text) : Outcome := { o with stdout := o.stdout ++ Text.line t }

end Outcome

/-- A line of the log. A line feed at the end of the message ends the line. -/
def logLine (t : Text) : Text :=
  let line := bytes "ratc: " ++ t
  if line.getLast? == some 0x0a then line else Text.line line

end RatLang
