import RatLang.Project
import RatLang.Yaml.Write

/-!
# Writing project files

The fields of a project in a fixed order, one per line; a project without jobs has no list of them.
A file that is there is only replaced with consent.
-/
namespace RatLang

namespace Job

/-- The two lines of a job. -/
def yaml (job : Job) : Text :=
  bytes "    - input: " ++ Yaml.writeString 8 job.input ++
  bytes "      output: " ++ Yaml.writeString 8 job.output

end Job

/-- A project file that could not be written. -/
structure SaveError where
  path : Text
  cause : FileError
  deriving DecidableEq, Repr

/-- The error line. -/
def SaveError.text (e : SaveError) : Text := bytes "writing " ++ e.path ++ bytes ": " ++ e.cause.text

namespace Project

/-- The content of the project file. -/
def yaml (p : Project) : Text :=
  bytes "name: " ++ Yaml.writeString 4 p.name ++
  Text.line (bytes "base_address: " ++ decimal p.base.toInt) ++
  Text.line (bytes "strict: " ++ boolText p.strict) ++
  Text.line (bytes "arithmetic: " ++ boolText p.arithmetic) ++
  bytes "output_dir: " ++ Yaml.writeString 4 p.outputDir ++
  Text.line (bytes "llvm: " ++ boolText p.llvm) ++
  if p.jobs.isEmpty then [] else bytes "jobs:\n" ++ p.jobs.flatMap Job.yaml

/-- The question to answer before the project file is written: none if nothing is there, or if it is
to be replaced in any case. -/
def question? (t : FileTree) (path : Text) (overwrite : Bool) : Option Text :=
  if t.has path && !overwrite then some (path ++ bytes " already exists. Overwrite?") else none

/-- Writes the project file, unless it is there and there is no consent to replace it. -/
def save (p : Project) (t : FileTree) (path : Text) (consent : Bool) : Except SaveError FileTree :=
  if t.has path && !consent then .ok t
  else match t.write path p.yaml with
    | .error e => .error ⟨path, e.error⟩
    | .ok t => .ok t

end Project

end RatLang
