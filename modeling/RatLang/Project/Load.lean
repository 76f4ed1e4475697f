import RatLang.Project
import RatLang.Yaml.Decode.Record
import RatLang.Yaml.Node.Compose

/-!
# Reading project files

A project file is a mapping from field names to values. A field that is missing or null keeps its
default, names that are no fields are ignored, and all values of a wrong type are reported together.
A text field takes any scalar as it is written; a truth value may be spelled in the old ways, and a
number loses its fraction.
-/
namespace RatLang

/-- Why a project could not be loaded. -/
inductive LoadError where
  | opening (e : FileError)
  | decoding (path : Text) (e : Yaml.Error)
  | invalid (path : Text) (fault : ProjectFault)
  deriving DecidableEq, Repr

/-- The error line. -/
def LoadError.text : LoadError → Text
  | opening e => bytes "opening project file: " ++ e.text
  | decoding path e => bytes "decoding " ++ path ++ bytes ": " ++ e.text
  | invalid path fault => bytes "invalid " ++ path ++ bytes ": " ++ fault.text

/-- The fields of a job. -/
def Job.record : Yaml.Record Job where
  type := bytes "project.Job"
  field? name :=
    let text (set : Job → Text → Job) : Option (Yaml.Node → Job → Yaml.Decode Job) :=
      some fun n job => return (← Yaml.Decode.text? n).elim job (set job)
    if name == bytes "input" then text fun job t => { job with input := t }
    else if name == bytes "output" then text fun job t => { job with output := t }
    else none

namespace Project

/-- The fields of a project, where `fuel` lasts for its jobs. -/
def record (fuel : Nat) : Yaml.Record Project where
  type := bytes "project.Config"
  field? name :=
    let field {α : Type} (decode : Yaml.Node → Yaml.Decode (Option α))
        (set : Project → α → Project) : Option (Yaml.Node → Project → Yaml.Decode Project) :=
      some fun n p => return (← decode n).elim p (set p)
    if name == bytes "name" then field Yaml.Decode.text? fun p t => { p with name := t }
    else if name == bytes "base_address" then field Yaml.Decode.int? fun p i => { p with base := i }
    else if name == bytes "strict" then field Yaml.Decode.bool? fun p b => { p with strict := b }
    else if name == bytes "arithmetic" then
      field Yaml.Decode.bool? fun p b => { p with arithmetic := b }
    else if name == bytes "output_dir" then
      field Yaml.Decode.text? fun p t => { p with outputDir := t }
    else if name == bytes "llvm" then field Yaml.Decode.bool? fun p b => { p with llvm := b }
    else if name == bytes "jobs" then
      field (Job.record.list? fuel {}) fun p jobs => { p with jobs := jobs }
    else none

/-- The project with the fields that a YAML text sets. -/
def withFields (p : Project) (content : Text) : Except Yaml.Error Project := do
  (← Yaml.Document.ofText content).decode record p

/-- The project that a file describes. -/
def loadFile (t : FileTree) (path : Text) : Except LoadError Project :=
  match t.read path with
  | .error e =>
    if e.action == .reading then .error (.decoding path (.unreadable e)) else .error (.opening e)
  | .ok content =>
    match (named (Path.base (Path.parent path))).withFields content with
    | .error e => .error (.decoding path e)
    | .ok p =>
      let p := { p with dir := Path.parent path }
      match p.fault? with
      | some fault => .error (.invalid path fault)
      | none => .ok p

/-- The project of a directory. -/
def load (t : FileTree) (dir : Text) : Except LoadError Project :=
  loadFile t (Path.join [dir, fileName])

end Project

end RatLang
