import RatLang.Statement
import RatLang.Text.Quoted

/-!
# Warnings

Constructs that translation accepts silently though they rarely mean what their author intended: a
name declared twice, a name used before its declaration, and an operator expression that produces no
instructions. Statements are walked in the order in which they are translated. There is one global
scope.
-/
namespace RatLang

/-- The names declared so far, each with the position of its first declaration. -/
structure Scope where
  entries : List (Text × Position) := []
  deriving Repr

namespace Scope

/-- Where a name was first declared. -/
def lookup (s : Scope) (name : Text) : Option Position :=
  (s.entries.find? fun e => e.1 = name).map (·.2)

/-- The scope after a declaration; the first one of a name stands. -/
def declare (s : Scope) (name : Text) (pos : Position) : Scope :=
  if (s.lookup name).isSome then s else ⟨s.entries ++ [(name, pos)]⟩

end Scope

/-- Something suspicious in a program. -/
inductive Warning where
  /-- The name was declared before, first at `first`. -/
  | redeclared (pos : Position) (name : Text) (first : Position)
  /-- The name is used before any declaration of it. -/
  | undeclared (pos : Position) (name : Text)
  /-- The expression with this operator yields no instructions. -/
  | untranslated (pos : Position) (operator : Text)
  deriving DecidableEq, Repr

namespace Warning

/-- The class of a warning. -/
inductive Kind where
  | redeclared
  | undeclared
  | untranslated
  /-- A number that names no class. -/
  | unknown (code : Int64)
  deriving DecidableEq, Repr

/-- The class with a given number. -/
def Kind.ofCode (code : Int64) : Kind :=
  if code = 0 then redeclared
  else if code = 1 then undeclared
  else if code = 2 then untranslated
  else unknown code

/-- The name of a class. -/
def Kind.name : Kind → Text
  | redeclared => bytes "redeclared"
  | undeclared => bytes "undeclared"
  | untranslated => bytes "untranslated"
  | unknown code => bytes "Kind(" ++ decimal code.toInt ++ bytes ")"

/-- The class of this warning. -/
def kind : Warning → Kind
  | redeclared .. => .redeclared
  | undeclared .. => .undeclared
  | untranslated .. => .untranslated

/-- Where it is. -/
def pos : Warning → Position
  | redeclared pos .. | undeclared pos _ | untranslated pos _ => pos

/-- What it says. -/
def message : Warning → Text
  | redeclared _ name first => name.quoted ++ bytes " was already declared at " ++ first.text
  | undeclared _ name => name.quoted ++ bytes " is used before it is declared"
  | untranslated _ operator =>
    bytes "expression with operator " ++ operator.quoted ++
      bytes " produces no instructions and leaves the value stack short"

/-- A warning line: position, class and message. -/
def line (pos : Position) (kind : Kind) (message : Text) : Text :=
  pos.text ++ bytes ": " ++ kind.name ++ bytes ": " ++ message

/-- The warning as a line. -/
def text (w : Warning) : Text := line w.pos w.kind w.message

end Warning

namespace Scope

/-- The warning for the use of a name, if it is not declared. -/
def use (s : Scope) (name : Text) (pos : Position) : List Warning :=
  if (s.lookup name).isSome then [] else [.undeclared pos name]

/-- Declares names one after another and warns of each that was declared before. -/
def declareAll (s : Scope) (pos : Position) : List Text → Scope × List Warning
  | [] => (s, [])
  | name :: names =>
    let (last, warnings) := (s.declare name pos).declareAll pos names
    match s.lookup name with
    | some first => (last, .redeclared pos name first :: warnings)
    | none => (last, warnings)

end Scope

/-- The warnings of an expression. Without arithmetic an operator hides its operands. -/
def Expr.warnings (arithmetic : Bool) (s : Scope) : Expr → List Warning
  | .literal .. => []
  | .identifier pos name => s.use name pos
  | .binary pos operator left right =>
    if arithmetic then left.warnings arithmetic s ++ right.warnings arithmetic s
    else [.untranslated pos operator]

mutual

/-- The scope after a statement and the statement's warnings. -/
def Stmt.warnings (arithmetic : Bool) (s : Scope) : Stmt → Scope × List Warning
  | .declaration pos _ names => s.declareAll pos names
  | .assignment pos target value => (s, value.warnings arithmetic s ++ s.use target pos)
  | .output _ value => (s, value.warnings arithmetic s)
  | .loop _ condition body =>
    let (last, inner) := Stmt.warningsList arithmetic s body
    (last, condition.warnings arithmetic s ++ inner)

/-- The scope after a list of statements and their warnings. -/
def Stmt.warningsList (arithmetic : Bool) (s : Scope) : List Stmt → Scope × List Warning
  | [] => (s, [])
  | stmt :: rest =>
    let (middle, first) := stmt.warnings arithmetic s
    let (last, others) := Stmt.warningsList arithmetic middle rest
    (last, first ++ others)

end

/-- The warnings of a program, in the order of translation. -/
def analyze (arithmetic : Bool) (stmts : List Stmt) : List Warning :=
  (Stmt.warningsList arithmetic {} stmts).2

end RatLang
