import RatLang.Command.Run

/-!
# The program

Reads the files below the working directory and those named on the command line, runs the command on
them, and carries out what it changed.
-/
namespace RatLang.Main

/-- The path of a location as the system takes it. -/
def systemPath (l : Location) : String :=
  (String.fromUTF8? (ByteArray.mk (Path.slash :: Text.join [Path.slash] l).toArray)).getD "/"

/-- The names of a path from the root. -/
def locationOf (path : Text) : Location := Path.names path

/-- Adds a file or an empty directory, if there is one. -/
def loadEntry (t : FileTree) (l : Location) : IO FileTree := do
  let path := (← IO.currentDir) / systemPath l
  if (t.entryAt l).isSome || !(← path.pathExists) then return t
  else if ← path.isDir then return t.put l .directory
  else
    try return t.put l (.file (← IO.FS.readBinFile path).toList)
    catch _ => return t

/-- Adds what is in a directory; with everything below it, if `deep`. -/
partial def loadDirectory (deep : Bool) (t : FileTree) (l : Location) : IO FileTree := do
  let mut t := t
  for e in ← ((← IO.currentDir) / systemPath l).readDir do
    let l := l ++ [bytes e.fileName]
    t ← loadEntry t l
    if deep && t.entryAt l == some .directory then t ← loadDirectory deep t l
  return t

/-- Adds the directories on the way to a location, and the location itself. -/
def loadPath (t : FileTree) (l : Location) : IO FileTree := do
  let mut t := t
  for n in List.range l.length do
    t ← loadEntry t (l.take (n + 1))
  return t

/-- The files that a command may look at. -/
def loadFiles (words : List Text) : IO FileTree := do
  let cwd := locationOf (bytes (← IO.currentDir).toString)
  let mut t ← loadPath { cwd } cwd
  t ← loadDirectory true t cwd
  for word in words do
    let l := locationOf (t.absolute word)
    unless cwd.isPrefixOf l do
      t ← loadPath t l
      if t.entryAt l == some .directory then t ← loadDirectory false t l
  return t

/-- Makes the files as they are after a command. -/
def storeFiles (before after : FileTree) : IO Unit := do
  for (l, _) in before.entries do
    if (after.entryAt l).isNone then IO.FS.removeFile (systemPath l)
  for (l, e) in after.entries.reverse do
    if before.entryAt l != some e then
      match e with
      | .directory => IO.FS.createDirAll (systemPath l)
      | .file content => IO.FS.writeBinFile (systemPath l) ⟨content.toArray⟩

/-- Writes a text to a stream. -/
def put (stream : IO.FS.Stream) (t : Text) : IO Unit := do
  stream.write ⟨t.toArray⟩
  stream.flush

/-- The rest of a stream. -/
partial def readAll (stream : IO.FS.Stream) (read : ByteArray) : IO Text := do
  let more ← stream.read 4096
  if more.isEmpty then return read.toList else readAll stream (read ++ more)

end RatLang.Main

open RatLang RatLang.Main in
/-- Runs the command line. -/
def main (args : List String) : IO UInt32 := do
  let words := args.map bytes
  let files ← loadFiles words
  let stdout ← IO.getStdout
  let stderr ← IO.getStderr
  let asks := args.any (· == "init")
  let input ← if asks then readAll (← IO.getStdin) .empty else pure []
  let setting : Setting :=
    { files
      input
      color := (← stdout.isTty) && (← IO.getEnv "NO_COLOR").isNone
      shell := bytes ((← IO.getEnv "SHELL").getD "") }
  let o := runCommandLine setting words
  storeFiles files o.files
  put stdout o.stdout
  put stderr o.stderr
  put stderr (o.failure.elim [] Text.line)
  return o.exitCode
