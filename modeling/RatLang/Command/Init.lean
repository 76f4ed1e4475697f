import RatLang.Command
import RatLang.Command.Arguments
import RatLang.Project.Save
import RatLang.Prompt

/-!
# The init command

Makes a project in a directory: asks for its name unless it is given, takes the further arguments as
inputs, and writes the project file. A file that is there is replaced only if the user agrees or has
forced it.
-/
namespace RatLang

/-- The flags of the init command. -/
def initFlags : List Flag :=
  [{ name := bytes "name", aliases := [bytes "n"], kind := .text },
    { name := bytes "out", aliases := [bytes "o"], kind := .text },
    { name := bytes "force", aliases := [bytes "f"], kind := .switch }]

/-- A path from the root, in normal form. -/
def FileTree.absolute (t : FileTree) (path : Text) : Text :=
  if Path.isAbsolute path then Path.normal path
  else Path.join [Path.slash :: Text.join [Path.slash] t.cwd, path]

/-- The job of an input of a new project. -/
def Job.ofNewInput (input : Text) : Job := ⟨input, bytes "output_" ++ Path.stem input⟩

/-- The line around the closing words. -/
def rule : Text := List.replicate 40 0x2d

/-- The directory of the new project, made if it is missing. -/
def initDirectory (s : Setting) (root : Text) : Except FileError Outcome :=
  match s.files.find root with
  | .error .notFound =>
    match s.files.makeDirs root with
    | .error e => .error e.error
    | .ok files => .ok ({ s.silent with files }.say (bytes "Created directory: " ++ root))
  | _ => .ok s.silent

/-- The name of the new project, asked for unless it is given. -/
def initName (o : Outcome) (given root : Text) (p : Prompt) : Reply Text :=
  if given.isEmpty then p.askText (bytes "Project name") (Path.base (o.files.absolute root))
  else ⟨given, [], p⟩

/-- Writes the project file, after asking if it must be replaced. -/
def initSave (s : Setting) (o : Outcome) (p : Project) (root : Text) (force : Bool) (ask : Prompt) :
    Outcome :=
  let path := Path.join [root, Project.fileName]
  let reply : Reply Bool :=
    match Project.question? o.files path force with
    | some question => ask.askYesNo question false
    | none => ⟨true, [], ask⟩
  let o := { o with stdout := o.stdout ++ reply.shown }
  match p.save o.files path reply.answer with
  | .error e => o.failing s (bytes "Error saving project file: " ++ e.text)
  | .ok files =>
    if reply.answer then
      { o with files }
        |>.say (bytes "Created file: " ++ path)
        |>.say rule
        |>.say (bytes "Project initialized successfully!")
        |>.say (bytes "Run 'cd " ++ root ++ bytes " && ratc build' to translate the project.")
        |>.say rule
    else o.say (bytes "Kept existing file: " ++ path)

/-- Makes a new project. -/
def initCommand (s : Setting) (a : Arguments) : Outcome :=
  let root := if (a.rest.headD []).isEmpty then Path.here else a.rest.headD []
  match initDirectory s root with
  | .error e => s.fail (bytes "Error creating directory: " ++ e.text)
  | .ok o =>
    let reply := initName o ((a.text? "name").getD []) root ⟨s.input⟩
    let o := { o with stdout := o.stdout ++ reply.shown }
    let p := { Project.named reply.answer with
      outputDir := (a.text? "out").getD Path.here
      jobs := (a.rest.drop 1).map Job.ofNewInput }
    match p.fault? with
    | some fault => o.failing s (bytes "Error: " ++ fault.text)
    | none => initSave s o p root (a.isOn "force") reply.rest

end RatLang
