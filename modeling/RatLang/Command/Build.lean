import RatLang.Build
import RatLang.Command
import RatLang.Command.Arguments
import RatLang.Project.Load

/-!
# The build command

The project file gives the settings, and flags overrule it. Without a project file the defaults hold
and the inputs are the arguments.
-/
namespace RatLang

/-- The flags of the build command. -/
def buildFlags : List Flag :=
  [{ name := bytes "config", aliases := [bytes "c"], kind := .text },
    { name := bytes "out", aliases := [bytes "o"], kind := .text },
    { name := bytes "base", kind := .number },
    { name := bytes "strict", aliases := [bytes "s"], kind := .switch },
    { name := bytes "arithmetic", aliases := [bytes "a"], kind := .switch },
    { name := bytes "llvm", kind := .switch },
    { name := bytes "no-cache", aliases := [bytes "n"], kind := .switch },
    { name := bytes "fail-fast", aliases := [bytes "f"], kind := .switch }]

/-- The project of a build: the one that is asked for, or else the one of the working directory if
it has one. -/
def findProject (t : FileTree) (config : Text) : Except LoadError (Option Project) :=
  if config.isEmpty then
    match t.find Project.fileName with
    | .error .notFound => .ok none
    | _ => some <$> Project.loadFile t Project.fileName
  else some <$> Project.loadFile t config

/-- The settings of a build. -/
def BuildSettings.of (a : Arguments) (project : Option Project) : BuildSettings :=
  let p := project.getD (.named Path.here)
  { options :=
      { base := (a.number? "base").getD p.base
        strict := (a.switch? "strict").getD p.strict
        arithmetic := (a.switch? "arithmetic").getD p.arithmetic }
    outDir := (a.text? "out").getD (if project.isSome then p.resolve p.outputDir else Path.here)
    llvm := (a.switch? "llvm").getD p.llvm
    useCache := !a.isOn "no-cache"
    failFast := a.isOn "fail-fast" }

namespace BuildNotice

/-- The first two of the paths. -/
def twoPaths (paths : List Text) : Text := Text.join (bytes " and ") (paths.take 2)

/-- What a notice puts on standard output. -/
def onStdout (color : Bool) : BuildNotice → Text
  | sumsIgnored e => Ink.yellow.paint color (Text.line (bytes "Ignoring the translation cache: " ++ e.text))
  | sumsNotSaved e =>
    Ink.yellow.paint color (Text.line (bytes "Could not save the translation cache: " ++ e.text))
  | processed input paths =>
    Text.line (bytes "Processed " ++ input ++ bytes ", outputs written to " ++ twoPaths paths)
  | translating _ | skipped _ | unchanged .. | failed .. | warning _ => []

/-- What a notice puts on standard error; the log is only written if it is wanted. -/
def onStderr (color verbose : Bool) : BuildNotice → Text
  | failed input e =>
    Text.line (Ink.red.paint color (bytes "Error translating " ++ input ++ bytes ": " ++ e.text))
  | warning w => Text.line (Ink.yellow.paint color (bytes "warning: " ++ w.text))
  | translating input => if verbose then logLine (bytes "translating " ++ input) else []
  | skipped stray => if verbose then logLine stray.skipText else []
  | unchanged input paths =>
    if verbose then logLine (input ++ bytes " is unchanged, keeping " ++ twoPaths paths) else []
  | sumsIgnored _ | sumsNotSaved _ | processed .. => []

end BuildNotice

/-- Builds the inputs, or the jobs of the project. -/
def buildCommand (s : Setting) (a : Arguments) (c : Conditions := {}) : Outcome :=
  match findProject s.files ((a.text? "config").getD []) with
  | .error e => s.fail (bytes "Error loading project file: " ++ e.text)
  | .ok project =>
    let settings := BuildSettings.of a project
    if settings.options.base < 0 then s.fail (bytes "Error: base address must not be negative")
    else match Job.all a.rest project with
      | .error e => s.fail (bytes "Error: " ++ e.text)
      | .ok jobs =>
        let b := Build.run settings s.files jobs c
        let outcome : Outcome :=
          { files := b.files
            stdout := b.notices.flatMap (·.onStdout s.color)
            stderr := b.notices.flatMap (·.onStderr s.color s.verbose) }
        if b.failed == 0 then outcome
        else outcome.failing s
          (natDigits b.failed ++ bytes " of " ++ natDigits jobs.length ++ bytes " inputs failed")

end RatLang
