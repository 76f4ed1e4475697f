import RatLang.Fingerprint
import RatLang.Llvm.Lower
import RatLang.Project
import RatLang.Statement.Warning
import RatLang.Sums
import RatLang.Translate

/-!
# Builds

A build translates the sources of a list of jobs and writes their artifacts: the symbol table, the
instruction table and, on request, LLVM IR. All sources are translated first, from the files as they
were before the build; then the jobs are finished one after the other. A job whose source has the
fingerprint recorded at its last build is skipped if its artifacts are there. A job that fails takes
back the artifacts that it has written, and its fingerprint is forgotten if the failure came while
writing.
-/
namespace RatLang

/-! ### Settings and jobs -/

/-- How a build is done. -/
structure BuildSettings where
  options : Options
  /-- The directory of the artifacts and of the sum file. -/
  outDir : Text
  llvm : Bool
  useCache : Bool
  failFast : Bool
  deriving DecidableEq, Repr

namespace BuildSettings

/-- The paths of the artifacts of a job, given the name of its tables. -/
def paths (s : BuildSettings) (name : Text) : List Text :=
  [Path.join [s.outDir, name ++ bytes "_symbol_table.txt"],
    Path.join [s.outDir, name ++ bytes "_instruction_table.txt"]] ++
  if s.llvm then [Path.join [s.outDir, name ++ bytes ".ll"]] else []

end BuildSettings

/-- Why there is nothing sensible to build. -/
inductive JobsError where
  | none
  /-- Two inputs would write tables of one name. -/
  | conflict (first second name : Text)
  deriving DecidableEq, Repr

/-- The error in words. -/
def JobsError.text : JobsError → Text
  | none => bytes "no input files given and no jobs in " ++ Project.fileName
  | conflict first second name =>
    first ++ bytes " and " ++ second ++ bytes " would both write " ++ name ++ bytes " tables"

namespace Job

/-- The job of an input given by its path alone: the tables are named like the file. -/
def ofInput (input : Text) : Job := ⟨input, Path.stem input⟩

/-- The first two jobs of a list that share a name, where `seen` holds the jobs before it. -/
def conflict? (seen : List Job) : List Job → Option JobsError
  | [] => none
  | job :: rest =>
    match seen.find? (·.output == job.output) with
    | some other => some (.conflict other.input job.input job.output)
    | none => conflict? (job :: seen) rest

/-- The jobs of a build: the inputs given, or else the jobs of the project. -/
def all (inputs : List Text) (project : Option Project) : Except JobsError (List Job) :=
  let jobs := match inputs, project with
    | [], some p => p.jobs.map fun j => ⟨p.resolve j.input, j.output⟩
    | inputs, _ => inputs.map ofInput
  if jobs.isEmpty then .error .none
  else match conflict? [] jobs with
    | some e => .error e
    | none => .ok jobs

end Job

/-! ### Translating one job -/

/-- Why a job failed. -/
inductive JobError where
  | reading (input : Text) (e : FileError)
  | translation (e : TranslateError)
  | lowering (e : LowerError)
  | makingDirectory (e : FileError)
  | writing (path : Text) (e : FileError)
  deriving DecidableEq, Repr

/-- The error in words. -/
def JobError.text : JobError → Text
  | reading input e => bytes "reading " ++ input ++ bytes ": " ++ e.text
  | translation e => e.text
  | lowering e => bytes "lowering to LLVM IR: " ++ e.text
  | makingDirectory e => bytes "creating output directory: " ++ e.text
  | writing path e => bytes "writing " ++ path ++ bytes ": " ++ e.text

/-- The artifacts of a program, in the order of their paths. -/
def Program.artifacts (p : Program) (llvm : Bool) : Except JobError (List Text) :=
  let tables := [symbolTable p.symbols, instructionTable p.code]
  if llvm then
    match p.lower with
    | .error e => .error (.lowering e)
    | .ok m => .ok (tables ++ [m.text])
  else .ok tables

/-- What became of a job before anything is written. -/
inductive JobResult where
  /-- Nothing has changed since the last build. -/
  | unchanged
  | failed (e : JobError)
  | translated (sum : Text) (artifacts : List Text) (warnings : List Warning)
  deriving DecidableEq, Repr

namespace BuildSettings

/-- The artifacts and the warnings of a source. -/
def translate (s : BuildSettings) (file src : Text) : Except JobError (List Text × List Warning) :=
  match Source.parse s.options.strict file src with
  | .error e => .error (.translation e)
  | .ok stmts =>
    match compile s.options stmts with
    | .error e => .error (.translation (.generation e))
    | .ok program =>
      match program.artifacts s.llvm with
      | .error e => .error e
      | .ok artifacts => .ok (artifacts, analyze s.options.arithmetic stmts)

/-- Translates the source of a job unless it is fresh. -/
def prepare (s : BuildSettings) (t : FileTree) (sums : Option Sums) (job : Job) : JobResult :=
  match t.read job.input with
  | .error e => .failed (.reading job.input e)
  | .ok src =>
    let sum := fingerprint s.options src
    if sums.any fun sums => sums.fresh t job.output sum (s.paths job.output) then .unchanged
    else match s.translate job.input src with
      | .error e => .failed e
      | .ok (artifacts, warnings) => .translated sum artifacts warnings

end BuildSettings

/-! ### Writing -/

/-- Removes files one after the other; one that cannot be removed stays. -/
def FileTree.removeEach (t : FileTree) (paths : List Text) (d : Device := {}) : FileTree :=
  paths.foldl (fun t path => (t.remove path d).toOption.getD t) t

/-- Writes files one after the other. When one cannot be written, those before it are removed. -/
def FileTree.writeEach (t : FileTree) (written : List Text) (files : List (Text × Text)) (d : Device := {}) :
    FileTree × Option JobError :=
  match files with
  | [] => (t, none)
  | (path, content) :: rest =>
    match t.write path content d with
    | .ok t => t.writeEach (written ++ [path]) rest d
    | .error e => (e.files.removeEach written d, some (.writing path e.error))

/-- Writes the artifacts of a job, and makes their directory if it is missing. -/
def FileTree.writeArtifacts (t : FileTree) (paths artifacts : List Text) (d : Device := {}) :
    FileTree × Option JobError :=
  match paths with
  | [] => (t, none)
  | first :: _ =>
    match t.makeDirs (Path.parent first) d with
    | .error e => (e.files, some (.makingDirectory e.error))
    | .ok t => t.writeEach [] (paths.zip artifacts) d

/-! ### Whole builds -/

/-- Something that a build has to say. -/
inductive BuildNotice where
  /-- The sums of the last build cannot be used. -/
  | sumsIgnored (e : SumsError)
  /-- The sums of this build could not be saved. -/
  | sumsNotSaved (e : SumsError)
  | translating (input : Text)
  | skipped (stray : Stray)
  | unchanged (input : Text) (paths : List Text)
  | failed (input : Text) (e : JobError)
  | warning (w : Warning)
  | processed (input : Text) (paths : List Text)
  deriving DecidableEq, Repr

/-- A build in progress. -/
structure Build where
  files : FileTree
  /-- The sums, if the build uses any. -/
  sums : Option Sums := none
  /-- The number of jobs that have failed. -/
  failed : Nat := 0
  notices : List BuildNotice := []
  deriving DecidableEq, Repr

/-- The device at each time that a build writes: while a job is finished, and while the sums are saved. -/
structure Conditions where
  finishing : Job → Device := fun _ => {}
  saving : Device := {}

namespace Build

/-- Adds notices. -/
def note (b : Build) (notices : List BuildNotice) : Build :=
  { b with notices := b.notices ++ notices }

/-- Counts a job that failed. -/
def fail (b : Build) (job : Job) (e : JobError) : Build :=
  note { b with failed := b.failed + 1 } [.failed job.input e]

/-- Finishes a job: writes its artifacts and records its fingerprint. -/
def finish (s : BuildSettings) (b : Build) (job : Job) (result : JobResult) (d : Device := {}) : Build :=
  match result with
  | .failed e => b.fail job e
  | .unchanged => b.note [.unchanged job.input (s.paths job.output)]
  | .translated sum artifacts warnings =>
    match b.files.writeArtifacts (s.paths job.output) artifacts d with
    | (files, some e) =>
      let sums := b.sums.map fun sums => sums.forget job.output
      fail { b with files, sums } job e
    | (files, none) =>
      let sums := b.sums.map fun sums => sums.record job.output sum
      note { b with files, sums }
        (warnings.map .warning ++ [.processed job.input (s.paths job.output)])

/-- Finishes jobs in order, if it is to be so only up to the first that fails. -/
def finishAll (s : BuildSettings) (b : Build) (results : List (Job × JobResult)) (c : Conditions := {}) : Build :=
  match results with
  | [] => b
  | (job, result) :: rest =>
    let next := b.finish s job result (c.finishing job)
    if s.failFast && b.failed < next.failed then next else next.finishAll s rest c

/-- The sums that a build starts with. -/
def loadSums (s : BuildSettings) (t : FileTree) : Build :=
  if s.useCache then
    match Sums.load t s.outDir with
    | .ok sums => { files := t, sums := some sums }
    | .error e => { files := t, notices := [.sumsIgnored e] }
  else { files := t }

/-- Saves the sums. -/
def saveSums (b : Build) (d : Device := {}) : Build :=
  match b.sums with
  | none => b
  | some sums =>
    match sums.save b.files d with
    | .ok files => { b with files }
    | .error e => note { b with files := e.files } [.sumsNotSaved e.error]

/-- What is said about a job while it is translated. -/
def progress (s : BuildSettings) (t : FileTree) (job : Job) (result : JobResult) :
    List BuildNotice :=
  .translating job.input ::
    match result, t.read job.input with
    | .unchanged, _ | _, .error _ => []
    | _, .ok src => (Source.skips s.options.strict job.input src).map .skipped

/-- The build of a list of jobs. -/
def run (s : BuildSettings) (t : FileTree) (jobs : List Job) (c : Conditions := {}) : Build :=
  let start := loadSums s t
  let results := jobs.map fun job => (job, s.prepare t start.sums job)
  let start := start.note (results.flatMap fun (job, result) => progress s t job result)
  (start.finishAll s results c).saveSums c.saving

end Build

end RatLang
