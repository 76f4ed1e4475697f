import RatLang.FileTree
import RatLang.Text.Numeral

/-!
# Sums

The fingerprints of the sources that were translated last, one per job, kept in a file of the output
directory between runs. A job is fresh when its source still has the recorded fingerprint and its
tables are still there.

The file is a heading and one line per job, with the job's name and fingerprint in hexadecimal, and
a last line without which the file does not count, since the rest may be missing then.
-/
namespace RatLang

/-! ### The sum file -/

namespace SumFile

/-- The name of the sum file in its directory. -/
def name : Text := bytes ".ratc-sums"

/-- The first line of a sum file. -/
def heading : Text := bytes "sums"

/-- The last line of a sum file. -/
def closing : Text := bytes "end"

/-- Two hexadecimal digits per byte. -/
def hex (t : Text) : Text := t.flatMap fun b => hexDigits 2 b.toNat

/-- The bytes that pairs of hexadecimal digits spell. -/
def unhex? : Text → Option Text
  | [] => some []
  | [_] => none
  | a :: b :: rest => do
    let high ← Numeral.digitValue? a
    let low ← Numeral.digitValue? b
    if 16 ≤ high || 16 ≤ low then none
    else return (high * 16 + low).toUInt8 :: (← unhex? rest)

/-- The line of one job. -/
def line (e : Text × Text) : Text := Text.line (hex e.1 ++ [0x20] ++ hex e.2)

/-- The job of one line. -/
def entry? (line : Text) : Option (Text × Text) :=
  match line.splitOn 0x20 with
  | [name, sum] => do return (← unhex? name, ← unhex? sum)
  | _ => none

/-- The content of a sum file. -/
def encode (entries : List (Text × Text)) : Text :=
  Text.line heading ++ entries.flatMap line ++ Text.line closing

/-- The entries of a sum file. -/
def decode? (content : Text) : Option (List (Text × Text)) :=
  match content.splitOn 0x0a with
  | first :: lines =>
    if first == heading && [closing, []].isSuffixOf lines then (lines.take (lines.length - 2)).mapM entry? else none
  | [] => none

end SumFile

/-! ### Sums -/

/-- The fingerprint of each job, and the file they are kept in. -/
structure Sums where
  path : Text
  entries : List (Text × Text) := []
  deriving DecidableEq, Repr

/-- Why sums could not be loaded or saved. -/
inductive SumsError where
  /-- The file is there and cannot be opened. -/
  | opening (e : FileError)
  /-- The file cannot be read. -/
  | reading (path : Text) (e : FileError)
  /-- The file is empty. -/
  | ended (path : Text)
  /-- The file is no sum file. -/
  | malformed (path : Text)
  /-- The directory of the file cannot be made. -/
  | makingDirectory (e : FileError)
  /-- The file cannot be created. -/
  | creating (e : FileError)
  /-- The file cannot be written to its end. -/
  | encoding (path : Text) (e : FileError)
  deriving DecidableEq, Repr

/-- The error line. -/
def SumsError.text : SumsError → Text
  | opening e => bytes "opening sum file: " ++ e.text
  | reading path e => bytes "decoding " ++ path ++ bytes ": " ++ e.text
  | ended path => bytes "decoding " ++ path ++ bytes ": EOF"
  | malformed path => bytes "decoding " ++ path ++ bytes ": malformed sum file"
  | makingDirectory e => bytes "creating output directory: " ++ e.text
  | creating e => bytes "creating sum file: " ++ e.text
  | encoding path e => bytes "encoding " ++ path ++ bytes ": " ++ e.text

/-- Sums that could not be saved, and the tree that the attempt leaves. -/
structure SumsFailure where
  error : SumsError
  files : FileTree
  deriving DecidableEq, Repr

/-- The error line. -/
def SumsFailure.text (e : SumsFailure) : Text := e.error.text

namespace Sums

/-- The sums kept in a directory; there are none before the first save. -/
def load (t : FileTree) (dir : Text) : Except SumsError Sums :=
  let path := Path.join [dir, SumFile.name]
  match t.read path with
  | .error e =>
    if e.fault == .notFound then .ok { path }
    else if e.action == .reading then .error (.reading path e)
    else .error (.opening e)
  | .ok content =>
    if content.isEmpty then .error (.ended path)
    else match SumFile.decode? content with
      | some entries => .ok { path, entries }
      | none => .error (.malformed path)

/-- The fingerprint recorded for a job. -/
def sum? (s : Sums) (name : Text) : Option Text := s.entries.lookup name

/-- Forgets the fingerprint of a job. -/
def forget (s : Sums) (name : Text) : Sums :=
  { s with entries := s.entries.filter (·.1 != name) }

/-- Records the fingerprint of a job in place of an older one. -/
def record (s : Sums) (name sum : Text) : Sums :=
  { s with entries := (name, sum) :: (s.forget name).entries }

/-- Whether a job has the recorded fingerprint and all its artifacts are there. -/
def fresh (s : Sums) (t : FileTree) (name sum : Text) (artifacts : List Text) : Bool :=
  s.sum? name == some sum && artifacts.all t.has

/-- Writes the sum file, and makes its directory if it is missing. -/
def save (s : Sums) (t : FileTree) (d : Device := {}) : Except SumsFailure FileTree :=
  match t.makeDirs (Path.parent s.path) d with
  | .error e => .error ⟨.makingDirectory e.error, e.files⟩
  | .ok t =>
    match t.write s.path (SumFile.encode s.entries) d with
    | .error e =>
      .error ⟨if e.error.action == .writing then .encoding s.path e.error else .creating e.error, e.files⟩
    | .ok t => .ok t

end Sums

end RatLang
