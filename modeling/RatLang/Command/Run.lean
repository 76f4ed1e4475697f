import RatLang.Command.Build
import RatLang.Command.Completion
import RatLang.Command.Init
import RatLang.Command.Inspect

/-!
# The command line

A global flag or two, the name of a command and its arguments.
-/
namespace RatLang

/-- A command: its name, its flags and what it does. -/
structure Command where
  name : Text
  flags : List Flag := []
  run : Setting → Arguments → Outcome

/-- All commands. -/
def commands : List Command :=
  [⟨bytes "build", buildFlags, fun s a => buildCommand s a⟩, ⟨bytes "tokens", tokensFlags, tokensCommand⟩,
    ⟨bytes "parse", parseFlags, parseCommand⟩, ⟨bytes "grammar", [], grammarCommand⟩,
    ⟨bytes "init", initFlags, initCommand⟩, ⟨bytes "completion", [], completionCommand⟩]

/-- The flags in front of the command. -/
def globalFlags : List Flag :=
  [{ name := bytes "verbose", aliases := [bytes "V"], kind := .switch },
    { name := bytes "version", aliases := [bytes "v"], kind := .switch }]

/-- The version of the program. -/
def versionText : Text := bytes "ratc version 0.3.0"

/-- Runs a command on its arguments. -/
def Command.runOn (c : Command) (s : Setting) (words : List Text) : Outcome :=
  match Arguments.read c.flags words with
  | .error e => s.fail e.text
  | .ok a => c.run s a

/-- Runs a whole command line. -/
def runCommandLine (s : Setting) (words : List Text) : Outcome :=
  match Arguments.read globalFlags words with
  | .error e => s.fail e.text
  | .ok a =>
    if a.isOn "version" then s.print (Text.line versionText)
    else match a.rest with
      | [] => s.fail UsageError.noCommand.text
      | name :: rest =>
        match commands.find? (·.name == name) with
        | some c => c.runOn { s with verbose := a.isOn "verbose" } rest
        | none => s.fail (UsageError.unknownCommand name).text

end RatLang
