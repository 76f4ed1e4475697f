import RatLang.Program.Compile
import RatLang.Statement.Parse

/-!
# Translation

From a source text to a program: scan, parse, generate. Each stage has its own way to fail.
-/
namespace RatLang

/-- Why a source was not translated. -/
inductive TranslateError where
  | stray (s : Stray)
  | grammar (e : SyntaxError)
  | generation (e : CompileError)
  deriving DecidableEq, Repr

namespace TranslateError

/-- What is wrong, without the position. -/
def message : TranslateError → Text
  | stray s => s.message
  | grammar e => e.message
  | generation e => e.message

/-- Where it is wrong. -/
def pos : TranslateError → Position
  | stray s => s.pos
  | grammar e => e.pos
  | generation e => e.pos

/-- The whole error line. An operator without instruction is labelled by the known parts of its
position only. -/
def text : TranslateError → Text
  | generation (.unknownOperator operator pos) =>
    pos.label ++ (CompileError.unknownOperator operator pos).message
  | e => e.pos.text ++ bytes ": " ++ e.message

end TranslateError

namespace Source

/-- The statements of a source. -/
def parse (strict : Bool) (file src : Text) : Except TranslateError (List Stmt) :=
  match tokenize strict file src with
  | .error s => .error (.stray s)
  | .ok tokens =>
    match RatLang.parse tokens with
    | .error e => .error (.grammar e)
    | .ok stmts => .ok stmts

/-- The program of a source. -/
def translate (opts : Options) (file src : Text) : Except TranslateError Program :=
  match parse opts.strict file src with
  | .error e => .error e
  | .ok stmts =>
    match compile opts stmts with
    | .error e => .error (.generation e)
    | .ok program => .ok program

end Source

end RatLang
