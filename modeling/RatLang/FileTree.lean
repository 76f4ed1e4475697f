import RatLang.Path

/-!
# File trees

Files and directories as a value. A tree maps locations, the names on the way down from the root, to
entries; paths are walked from the root or from the working directory, and each step needs a
directory to step from. Operations fail with the path they were given and the reason.

The tree is kept on a device, which may not do what the tree would allow: it may be full, or be there
for reading only. What it does is told beforehand by a `Device`; one that never interferes is the
default.
-/
namespace RatLang

/-- What is found at a location. -/
inductive Entry where
  | file (content : Text)
  | directory
  deriving DecidableEq, Repr

/-- The names on the way from the root to an entry. -/
abbrev Location := List Text

/-- Why a path could not be used. -/
inductive PathFault where
  | notFound
  | notDirectory
  | isDirectory
  | exists
  /-- The device would not do it. -/
  | system (reason : Text)
  deriving DecidableEq, Repr

/-- The fault in words. -/
def PathFault.text : PathFault → Text
  | notFound => bytes "no such file or directory"
  | notDirectory => bytes "not a directory"
  | isDirectory => bytes "is a directory"
  | .exists => bytes "file exists"
  | system reason => reason

/-- What was tried on a path. -/
inductive FileAction where
  | opening
  | reading
  | writing
  | removing
  | makingDirectory
  deriving DecidableEq, Repr

/-- The action in words. -/
def FileAction.text : FileAction → Text
  | opening => bytes "open"
  | reading => bytes "read"
  | writing => bytes "write"
  | removing => bytes "remove"
  | makingDirectory => bytes "mkdir"

/-- A failed operation on a path. -/
structure FileError where
  action : FileAction
  path : Text
  fault : PathFault
  deriving DecidableEq, Repr

/-- The error line. -/
def FileError.text (e : FileError) : Text :=
  e.action.text ++ [0x20] ++ e.path ++ bytes ": " ++ e.fault.text

/-- Files and directories, and the directory that relative paths start from. -/
structure FileTree where
  entries : List (Location × Entry) := []
  cwd : Location := []
  deriving DecidableEq, Repr

/-- A failed operation, and the tree that it leaves. -/
structure FileFailure where
  error : FileError
  files : FileTree
  deriving DecidableEq, Repr

/-- The error line. -/
def FileFailure.text (e : FileFailure) : Text := e.error.text

/-! ### Devices -/

/-- How a device keeps a file from being written. -/
inductive WriteTrouble where
  /-- The file cannot be opened, and stays as it is. -/
  | refused (reason : Text)
  /-- The file is opened, which empties it, and gets no more than the first bytes. -/
  | brokenOff (reason : Text) (count : Nat)
  deriving DecidableEq, Repr

/-- What a device does not do, by the paths of the operations. -/
structure Device where
  writing : Text → Option WriteTrouble := fun _ => none
  removing : Text → Option Text := fun _ => none
  makingDirectory : Text → Option Text := fun _ => none

namespace FileTree

/-! ### Locations -/

/-- The entry at a location. The root is always there. -/
def entryAt (t : FileTree) (l : Location) : Option Entry :=
  if l.isEmpty then some .directory else t.entries.lookup l

/-- The tree with an entry put at a location. -/
def put (t : FileTree) (l : Location) (e : Entry) : FileTree :=
  { t with entries := (l, e) :: t.entries.filter (·.1 != l) }

/-- The tree without the entry at a location. -/
def drop (t : FileTree) (l : Location) : FileTree :=
  { t with entries := t.entries.filter (·.1 != l) }

/-- The tree without a location and everything below it. -/
def dropAll (t : FileTree) (l : Location) : FileTree :=
  { t with entries := t.entries.filter fun e => !l.isPrefixOf e.1 }

/-- A location that must be a directory. -/
def asDirectory (t : FileTree) (l : Location) : Except PathFault Location :=
  match t.entryAt l with
  | some .directory => .ok l
  | some (.file _) => .error .notDirectory
  | none => .error .notFound

/-- The location reached from a directory by following names. Only the last name may be absent. -/
def walk (t : FileTree) (l : Location) : List Text → Except PathFault Location
  | [] => .ok l
  | name :: rest => do
    let l ← t.asDirectory l
    if name == [] || name == Path.here then t.walk l rest
    else if name == Path.above then t.walk l.dropLast rest
    else t.walk (l ++ [name]) rest

/-- Where a path starts. -/
def origin (t : FileTree) (path : Text) : Location := if Path.isAbsolute path then [] else t.cwd

/-- The location that a path leads to. -/
def locate (t : FileTree) (path : Text) : Except PathFault Location :=
  if path.isEmpty then .error .notFound
  else t.walk (t.origin path) (path.splitOn Path.slash)

/-- The entry that a path leads to. -/
def find (t : FileTree) (path : Text) : Except PathFault Entry := do
  match t.entryAt (← t.locate path) with
  | some e => return e
  | none => throw .notFound

/-- Whether a path leads to anything. -/
def has (t : FileTree) (path : Text) : Bool := (t.find path).isOk

/-- The location that a path names for a new entry. It lies in a directory that is there, and it is
absent when the path can only name a directory: one that ends in a slash, `.` or `..`. -/
def locateNew (t : FileTree) (path : Text) : Except PathFault (Option Location) :=
  if path.isEmpty then .error .notFound
  else
    match (Path.withoutTrailing path).splitOn Path.slash |>.reverse with
    | [] => .ok none
    | name :: names => do
      let l ← t.asDirectory (← t.walk (t.origin path) names.reverse)
      if name == [] || name == Path.here || name == Path.above then return none
      else return some (l ++ [name])

/-! ### Files -/

/-- The content of a file. -/
def read (t : FileTree) (path : Text) : Except FileError Text :=
  match t.find path with
  | .error fault => .error ⟨.opening, path, fault⟩
  | .ok .directory => .error ⟨.reading, path, .isDirectory⟩
  | .ok (.file content) => .ok content

/-- The tree after writing a file where one may be, as far as the device does it. -/
def writeAt (t : FileTree) (l : Location) (path content : Text) (d : Device) : Except FileFailure FileTree :=
  match d.writing path with
  | none => .ok (t.put l (.file content))
  | some (.refused reason) => .error ⟨⟨.opening, path, .system reason⟩, t⟩
  | some (.brokenOff reason count) =>
    .error ⟨⟨.writing, path, .system reason⟩, t.put l (.file (content.take count))⟩

/-- The tree after writing a file, which is created if it is not there. -/
def write (t : FileTree) (path content : Text) (d : Device := {}) : Except FileFailure FileTree :=
  match t.locateNew path with
  | .error fault => .error ⟨⟨.opening, path, fault⟩, t⟩
  | .ok none => .error ⟨⟨.opening, path, .isDirectory⟩, t⟩
  | .ok (some l) =>
    if t.entryAt l == some .directory || path.getLast? == some Path.slash then
      .error ⟨⟨.opening, path, .isDirectory⟩, t⟩
    else t.writeAt l path content d

/-- The tree without the file at a path. -/
def remove (t : FileTree) (path : Text) (d : Device := {}) : Except FileError FileTree :=
  match t.locate path with
  | .error fault => .error ⟨.removing, path, fault⟩
  | .ok l =>
    match t.entryAt l, d.removing path with
    | none, _ => .error ⟨.removing, path, .notFound⟩
    | some .directory, _ => .error ⟨.removing, path, .isDirectory⟩
    | some (.file _), some reason => .error ⟨.removing, path, .system reason⟩
    | some (.file _), none => .ok (t.drop l)

/-- The tree without whatever is at a path and below it. -/
def removeAll (t : FileTree) (path : Text) : FileTree :=
  match t.locate path with
  | .ok l => t.dropAll l
  | .error _ => t

/-! ### Directories -/

/-- The tree with one new directory. -/
def makeDir (t : FileTree) (path : Text) (d : Device := {}) : Except FileError FileTree :=
  match t.locateNew path with
  | .error fault => .error ⟨.makingDirectory, path, fault⟩
  | .ok none => .error ⟨.makingDirectory, path, .exists⟩
  | .ok (some l) =>
    if (t.entryAt l).isSome then .error ⟨.makingDirectory, path, .exists⟩
    else match d.makingDirectory path with
      | some reason => .error ⟨.makingDirectory, path, .system reason⟩
      | none => .ok (t.put l .directory)

/-- The tree with a new directory, where one that is there already is as good. -/
def ensureDir (t : FileTree) (path : Text) (d : Device := {}) : Except FileFailure FileTree :=
  match t.makeDir path d with
  | .ok t => .ok t
  | .error e => if (t.find path).toOption == some .directory then .ok t else .error ⟨e, t⟩

/-- The path before the last name, with the slash that ends it. -/
def pathAbove (path : Text) : Text :=
  ((path.reverse.dropWhile (· == Path.slash)).dropWhile (· != Path.slash)).reverse

theorem length_pathAbove_lt {path : Text} (h : pathAbove path ≠ []) :
    (pathAbove path).length < path.length := by
  have whole := (List.dropWhile_suffix (l := path.reverse) (· == Path.slash)).length_le
  cases e : path.reverse.dropWhile (· == Path.slash) with
  | nil => simp [pathAbove, e] at h
  | cons b rest =>
    have first : (b == Path.slash) = false := by
      have := List.head_dropWhile_not (l := path.reverse) (· == Path.slash) (by simp [e])
      simpa [e] using this
    have shorter := (List.dropWhile_suffix (l := rest) (· != Path.slash)).length_le
    simp only [e, List.length_cons, List.length_reverse] at whole
    simp only [pathAbove, e, List.dropWhile_cons, bne, first, Bool.not_false, if_true,
      List.length_reverse]
    simp only [bne] at shorter
    omega

/-- The tree with a directory at the path, and directories on the way to it. Those that were made
stay when the next one cannot be made. -/
def makeDirs (t : FileTree) (path : Text) (d : Device := {}) : Except FileFailure FileTree :=
  match t.find path with
  | .ok .directory => .ok t
  | .ok (.file _) => .error ⟨⟨.makingDirectory, path, .notDirectory⟩, t⟩
  | .error _ =>
    if _top : pathAbove path = [] then t.ensureDir path d
    else do (← t.makeDirs (pathAbove path) d).ensureDir path d
termination_by path.length
decreasing_by exact length_pathAbove_lt _top

/-- Everything below the working directory, by the names from there. -/
def listing (t : FileTree) : List (List Text × Entry) :=
  t.entries.filterMap fun e =>
    if t.cwd.isPrefixOf e.1 && e.1 != t.cwd then some (e.1.drop t.cwd.length, e.2) else none

end FileTree

end RatLang
