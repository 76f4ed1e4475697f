import RatLang.Command
import RatLang.Command.Arguments
import RatLang.Grammar.Accept
import RatLang.Statement.Dump
import RatLang.Statement.Warning
import RatLang.Translate

/-!
# Commands that show what a source is made of

`tokens` lists the tokens of a source, `parse` prints its syntax tree as JSON, and `grammar` prints
the grammar or checks a source against it. The first two also take a program from the command line.
-/
namespace RatLang

/-- The flag for a program on the command line. -/
def inputFlag : Flag := { name := bytes "input-str", aliases := [bytes "i"], kind := .text }

/-- The flag for strict mode. -/
def strictFlag : Flag := { name := bytes "strict", aliases := [bytes "s"], kind := .switch }

/-- The flags of the command that lists tokens. -/
def tokensFlags : List Flag := [inputFlag, strictFlag]

/-- The flags of the command that prints syntax trees. -/
def parseFlags : List Flag :=
  [inputFlag, strictFlag, { name := bytes "output", aliases := [bytes "o"], kind := .text },
    { name := bytes "arithmetic", aliases := [bytes "a"], kind := .switch }]

/-- Why there is no source to look at. -/
inductive SourceError where
  | noFile
  | reading (path : Text) (e : FileError)
  deriving DecidableEq, Repr

/-- The error in words. -/
def SourceError.text : SourceError → Text
  | noFile => bytes "no file specified"
  | reading path e => bytes "reading " ++ path ++ bytes ": " ++ e.text

/-- The source to look at, with the name of its file. -/
def readSource (t : FileTree) (a : Arguments) : Except SourceError (Text × Text) :=
  match a.text? "input-str" with
  | some src => .ok (bytes "<input>", src)
  | none =>
    match a.rest.headD [] with
    | [] => .error .noFile
    | file =>
      match t.read file with
      | .error e => .error (.reading file e)
      | .ok src => .ok (file, src)

/-- The log of the characters that the scanner skips. -/
def skipLog (s : Setting) (strict : Bool) (file src : Text) : Text :=
  if s.verbose then (Source.skips strict file src).flatMap fun stray => logLine stray.skipText
  else []

/-- The colour of a kind of tokens. -/
def Kind.ink? : Kind → Option Ink
  | .keyword => some .boldMagenta
  | .identifier => some .cyan
  | .integer => some .yellow
  | .assign | .operator => some .green
  | .delimiter => some .white
  | .unknown _ => none

/-- A line of the list of tokens. -/
def Token.row (color : Bool) (t : Token) : Text :=
  let name := match t.kind.ink? with
    | some ink => ink.paint color t.kind.name
    | none => t.kind.name
  Text.line (decimal t.pos.line.toInt ++ bytes ":" ++ decimal t.pos.column.toInt ++ [0x09] ++ name ++
    [0x09] ++ t.lexeme)

/-- Lists the tokens of a source. -/
def tokensCommand (s : Setting) (a : Arguments) : Outcome :=
  match readSource s.files a with
  | .error e => s.fail (bytes "Error: " ++ e.text)
  | .ok (file, src) =>
    let strict := a.isOn "strict"
    let outcome := { s.silent with stderr := skipLog s strict file src }
    match Source.tokenize strict file src with
    | .error stray => outcome.failing s (bytes "Error tokenizing: " ++ (TranslateError.stray stray).text)
    | .ok tokens => { outcome with stdout := tokens.flatMap (Token.row s.color) }

/-- Prints the syntax tree of a source, or writes it to a file. -/
def parseCommand (s : Setting) (a : Arguments) : Outcome :=
  match readSource s.files a with
  | .error e => s.fail (bytes "Error: " ++ e.text)
  | .ok (file, src) =>
    let strict := a.isOn "strict"
    let log := skipLog s strict file src
    match Source.parse strict file src with
    | .error e => { s.silent with stderr := log }.failing s (bytes "Error parsing: " ++ e.text)
    | .ok stmts =>
      let warnings := (analyze (a.isOn "arithmetic") stmts).flatMap fun w =>
        Text.line (Ink.yellow.paint s.color (bytes "warning: " ++ w.text))
      let outcome := { s.silent with stderr := log ++ warnings }
      match (a.text? "output").getD [], dumpIndented stmts with
      | [], .ok text => { outcome with stdout := text }
      | [], .error e => outcome.failing s (bytes "Error encoding AST: " ++ e.text)
      | path, text =>
        -- the file is there before anything is encoded
        match s.files.write path (text.toOption.getD []), text with
        | .error e, _ => outcome.failing s (bytes "Error creating AST dump file: " ++ e.text)
        | .ok files, .ok _ => { outcome with files }
        | .ok files, .error e =>
          { outcome with files }.failing s (bytes "Error encoding AST: " ++ e.text)

/-- Prints the grammar, or checks a source against it. -/
def grammarCommand (s : Setting) (a : Arguments) : Outcome :=
  match a.rest.headD [] with
  | [] =>
    s.print (Text.line Grammar.text ++ Text.line [] ++ Text.line (bytes "Keywords: " ++ Grammar.keywordText))
  | file =>
    match s.files.read file with
    | .error e => s.fail (bytes "Error reading " ++ file ++ bytes ": " ++ e.text)
    | .ok src =>
      match Grammar.accept file src with
      | .error e => s.fail e.text
      | .ok _ => s.print (Text.line (file ++ bytes ": ok"))

end RatLang
