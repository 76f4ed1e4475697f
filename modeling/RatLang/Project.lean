import RatLang.FileTree
import RatLang.Program.Compile
import RatLang.Text.Blank
import RatLang.Text.Numeral
import RatLang.Text.Quoted

/-!
# Projects

A project names the sources to translate, what their tables are called, where these go and under
which options they are made. It is described by a file; the paths in it are relative to the
directory of that file.
-/
namespace RatLang

/-- A source and the name of its tables. -/
structure Job where
  input : Text := []
  output : Text := []
  deriving DecidableEq, Repr

/-- The description of a project. -/
structure Project where
  name : Text := []
  base : Int64 := 0
  strict : Bool := false
  arithmetic : Bool := false
  outputDir : Text := []
  llvm : Bool := false
  jobs : List Job := []
  /-- The directory that paths are relative to; empty means the working directory. -/
  dir : Text := []
  deriving DecidableEq, Repr

/-- What is wrong with a project. Jobs are counted from one. -/
inductive ProjectFault where
  | negativeBase (base : Int64)
  | noInput (job : Nat)
  | noOutput (job : Nat) (input : Text)
  | sharedOutput (output : Text)
  deriving DecidableEq, Repr

/-- The fault in words. -/
def ProjectFault.text : ProjectFault → Text
  | negativeBase base => bytes "base_address must not be negative, got " ++ decimal base.toInt
  | noInput job => bytes "job " ++ natDigits job ++ bytes " has no input"
  | noOutput job input =>
    bytes "job " ++ natDigits job ++ bytes " (" ++ input ++ bytes ") has no output name"
  | sharedOutput output => bytes "output name " ++ output.quoted ++ bytes " is used by more than one job"

namespace Project

/-- The name of the project file in its directory. -/
def fileName : Text := bytes "ratc.yaml"

/-- A project without jobs. One that would be named for no directory in particular gets a name to be
replaced. -/
def named (name : Text) : Project where
  name := if name.isEmpty || name == Path.here then bytes "NewProject" else name
  base := defaultBase
  outputDir := Path.here
  dir := Path.here

/-- The directory that paths are relative to. -/
def directory (p : Project) : Text := if p.dir.isEmpty then Path.here else p.dir

/-- A path of the project as seen from the working directory. -/
def resolve (p : Project) (path : Text) : Text :=
  if Path.isAbsolute path then path else Path.join [p.directory, path]

/-- The options that the sources are translated under. -/
def options (p : Project) : Options where
  base := p.base
  strict := p.strict
  arithmetic := p.arithmetic

/-- The first fault of the jobs from the `n`th one on, where the names in `taken` are used before. -/
def jobsFault? (taken : List Text) (n : Nat) : List Job → Option ProjectFault
  | [] => none
  | job :: rest =>
    if job.input.trimmed.isEmpty then some (.noInput n)
    else if job.output.trimmed.isEmpty then some (.noOutput n job.input)
    else if taken.contains job.output then some (.sharedOutput job.output)
    else jobsFault? (job.output :: taken) (n + 1) rest

/-- The first fault of a project: a negative base address, then faults of its jobs in order. -/
def fault? (p : Project) : Option ProjectFault :=
  if p.base < 0 then some (.negativeBase p.base) else jobsFault? [] 1 p.jobs

end Project

end RatLang
