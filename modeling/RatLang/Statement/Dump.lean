import RatLang.Json
import RatLang.Statement
import RatLang.Token

/-!
# Syntax trees as JSON

Every node is an object whose first field `type` names its kind, followed by the node's own fields.
Positions are left out. A list may be missing, and is `null` then; an empty one is an empty array.

The text of every node is read once more when it is put into the text around it, and the reader gives
up where objects and arrays are nested too deeply.
-/
namespace RatLang

/-! ### Nodes -/

/-- A statement to be dumped. Its lists may be missing, which is not the same as being empty. -/
inductive Node where
  | declaration (pos : Position) (dataType : Text) (names : Option (List Text))
  | assignment (pos : Position) (target : Text) (value : Expr)
  | output (pos : Position) (value : Expr)
  | loop (pos : Position) (condition : Expr) (body : Option (List Node))
  deriving Repr, Inhabited

/-- A list that is missing if there is nothing in it. -/
def listed {α : Type} : List α → Option (List α)
  | [] => none
  | items => some items

mutual

/-- The node of a statement. A loop without statements has no list of them. -/
def Stmt.node : Stmt → Node
  | .declaration pos dataType names => .declaration pos dataType (some names)
  | .assignment pos target value => .assignment pos target value
  | .output pos value => .output pos value
  | .loop pos condition body => .loop pos condition (listed (Stmt.nodes body))

/-- The nodes of statements. -/
def Stmt.nodes : List Stmt → List Node
  | [] => []
  | s :: rest => s.node :: Stmt.nodes rest

end

/-! ### Nesting -/

/-- How many objects and arrays may be open at a time. -/
def Json.maxDepth : Nat := 10000

mutual

/-- How many objects and arrays are open at a time in the text of a value. -/
def Json.depth : Json → Nat
  | .null | .number _ | .string _ => 0
  | .array items => Json.depthItems items + 1
  | .object fields => Json.depthFields fields + 1

def Json.depthItems : List Json → Nat
  | [] => 0
  | item :: items => max item.depth (Json.depthItems items)

def Json.depthFields : List (Text × Json) → Nat
  | [] => 0
  | (_, value) :: fields => max value.depth (Json.depthFields fields)

end

/-- A tree is nested too deeply. -/
structure DepthError where
  /-- The types of the nodes whose text could not be had, from the outside in. -/
  types : List String
  deriving DecidableEq, Repr

/-- The error in words. -/
def DepthError.text (e : DepthError) : Text :=
  e.types.flatMap (fun type =>
    bytes "json: error calling MarshalJSON for type *parser." ++ bytes type ++ bytes ": ") ++
  bytes "exceeded max depth"

/-- The value of a node of the type in a text where `level` objects and arrays are open around it. -/
def Json.within (level : Nat) (type : String) : Except DepthError Json → Except DepthError Json
  | .error e => .error ⟨type :: e.types⟩
  | .ok j => if level + j.depth ≤ maxDepth then .ok j else .error ⟨[type]⟩

/-! ### The JSON of nodes -/

/-- An object with a type tag in front. -/
def Json.tagged (tag : String) (fields : List (String × Json)) : Json :=
  .object ((bytes "type", .string (bytes tag)) :: fields.map fun f => (bytes f.1, f.2))

/-- A list as JSON: `null` when it is missing. -/
def Json.slice : Option (List Json) → Json
  | none => .null
  | some items => .array items

/-- The type of an expression, as errors name it. -/
def Expr.type : Expr → String
  | .literal .. => "Literal"
  | .identifier .. => "Identifier"
  | .binary .. => "BinaryOp"

/-- The type of a node, as errors name it. -/
def Node.type : Node → String
  | .declaration .. => "Declaration"
  | .assignment .. => "Assignment"
  | .output .. => "Output"
  | .loop .. => "While"

/-- An expression as JSON. -/
def Expr.encode : Expr → Except DepthError Json
  | .literal _ value => .ok (.tagged "literal" [("value", .number value.toInt)])
  | .identifier _ name => .ok (.tagged "identifier" [("name", .string name)])
  | .binary _ operator left right => do
    let l ← Json.within 1 left.type left.encode
    let r ← Json.within 1 right.type right.encode
    return .tagged "binary_op" [("operator", .string operator), ("left", l), ("right", r)]

mutual

/-- A node as JSON. The statements of a loop are in an array of its object. -/
def Node.encode : Node → Except DepthError Json
  | .declaration _ dataType names =>
    .ok (.tagged "declaration"
      [("data_type", .string dataType), ("identifiers", .slice (names.map (·.map .string)))])
  | .assignment _ target value => do
    let v ← Json.within 1 value.type value.encode
    return .tagged "assignment" [("left", .string target), ("right", v)]
  | .output _ value => do
    let v ← Json.within 1 value.type value.encode
    return .tagged "output" [("value", v)]
  | .loop _ condition body => do
    let c ← Json.within 1 condition.type condition.encode
    let b ← Node.encodeSlice 2 body
    return .tagged "while" [("condition", c), ("body", b)]

/-- A list of nodes as JSON, its own array being the last of `level`. -/
def Node.encodeSlice (level : Nat) : Option (List Node) → Except DepthError Json
  | none => .ok (.slice none)
  | some nodes => do return .slice (some (← Node.encodeList level nodes))

/-- Nodes as JSON, one by one. -/
def Node.encodeList (level : Nat) : List Node → Except DepthError (List Json)
  | [] => .ok []
  | n :: rest => do
    let j ← Json.within level n.type n.encode
    return j :: (← Node.encodeList level rest)

end

/-! ### Texts -/

/-- Nodes as JSON text on one line. -/
def dumpNodes (nodes : Option (List Node)) : Except DepthError Text := do
  return (← Node.encodeSlice 1 nodes).compact

/-- A program as JSON text on one line; no text if it is nested too deeply. -/
def dump (stmts : List Stmt) : Text := (dumpNodes (listed (Stmt.nodes stmts))).toOption.getD []

/-- A program as JSON text over many lines, as the command line prints it. -/
def dumpIndented (stmts : List Stmt) : Except DepthError Text := do
  return Text.line ((← Node.encodeSlice 1 (some (Stmt.nodes stmts))).indented 0)

/-- A token as JSON text: its kind and its text. -/
def Token.json (t : Token) : Text :=
  (Json.object [(bytes "kind", .string t.kind.name), (bytes "lexeme", .string t.lexeme)]).compact

end RatLang
