import RatLang.Proofs.Json.Reading
import RatLang.Proofs.Outcome
import RatLang.Statement.Dump

/-!
# Reading dumped statements back

The JSON text of statements leaves out their positions and nothing else. The text is that of one JSON value only, whose
objects are the nodes with their tags in front, and the tags tell which node to build from the fields; a list that is
missing is told from an empty one. There is a text exactly if the value is not nested too deeply
(`dumpNodes_eq_ok_iff`). Main statement: `dump_loses_only_positions`.
-/
namespace RatLang

/-! ### Nodes without positions -/

/-- The expression with all positions unset. -/
def Expr.unplaced : Expr → Expr
  | .literal _ value => .literal default value
  | .identifier _ name => .identifier default name
  | .binary _ operator left right => .binary default operator left.unplaced right.unplaced

mutual

/-- The node with all positions unset. -/
def Node.unplaced : Node → Node
  | .declaration _ dataType names => .declaration default dataType names
  | .assignment _ target value => .assignment default target value.unplaced
  | .output _ value => .output default value.unplaced
  | .loop _ condition none => .loop default condition.unplaced none
  | .loop _ condition (some body) => .loop default condition.unplaced (some (Node.unplacedList body))

def Node.unplacedList : List Node → List Node
  | [] => []
  | n :: rest => n.unplaced :: Node.unplacedList rest

end

/-- The names and operators in an expression. -/
def Expr.texts : Expr → List Text
  | .literal _ _ => []
  | .identifier _ name => [name]
  | .binary _ operator left right => operator :: (left.texts ++ right.texts)

mutual

/-- The names, types and operators in a node. -/
def Node.texts : Node → List Text
  | .declaration _ dataType names => dataType :: names.getD []
  | .assignment _ target value => target :: value.texts
  | .output _ value => value.texts
  | .loop _ condition none => condition.texts
  | .loop _ condition (some body) => condition.texts ++ Node.listTexts body

def Node.listTexts : List Node → List Text
  | [] => []
  | n :: rest => n.texts ++ Node.listTexts rest

end

/-! ### The value of a node -/

/-- The value that is written for an expression. -/
def Expr.json : Expr → Json
  | .literal _ value => .tagged "literal" [("value", .number value.toInt)]
  | .identifier _ name => .tagged "identifier" [("name", .string name)]
  | .binary _ operator left right =>
    .tagged "binary_op" [("operator", .string operator), ("left", left.json), ("right", right.json)]

mutual

/-- The value that is written for a node. -/
def Node.json : Node → Json
  | .declaration _ dataType names =>
    .tagged "declaration" [("data_type", .string dataType), ("identifiers", .slice (names.map (·.map .string)))]
  | .assignment _ target value => .tagged "assignment" [("left", .string target), ("right", value.json)]
  | .output _ value => .tagged "output" [("value", value.json)]
  | .loop _ condition none => .tagged "while" [("condition", condition.json), ("body", .slice none)]
  | .loop _ condition (some body) =>
    .tagged "while" [("condition", condition.json), ("body", .slice (some (Node.jsonList body)))]

def Node.jsonList : List Node → List Json
  | [] => []
  | n :: rest => n.json :: Node.jsonList rest

end

/-- The value that is written for a list of nodes. -/
def Json.ofNodes (nodes : Option (List Node)) : Json := .slice (nodes.map Node.jsonList)

/-! ### What is encoded -/

namespace Json

theorem within_eq_ok_iff {level : Nat} {type : String} {r : Except DepthError Json} {j : Json} :
    within level type r = .ok j ↔ r = .ok j ∧ level + j.depth ≤ maxDepth := by
  cases r with
  | error e => simp [within]
  | ok j' =>
    rw [within]
    split
    · next hdepth =>
      simp only [Except.ok.injEq]
      exact ⟨fun h => ⟨h, h ▸ hdepth⟩, And.left⟩
    · next hdepth =>
      simp only [reduceCtorEq, Except.ok.injEq, false_iff]
      exact fun h => hdepth (h.1 ▸ h.2)

/-- A node that has a value if it is not too deep has it within a text that is not too deep. -/
theorem within_eq_ok_iff_of_encode {level : Nat} {type : String} {r : Except DepthError Json} {value j : Json}
    (h : ∀ {j}, r = .ok j ↔ value.depth ≤ maxDepth ∧ j = value) :
    within level type r = .ok j ↔ level + value.depth ≤ maxDepth ∧ j = value := by
  rw [within_eq_ok_iff, h]
  constructor
  · rintro ⟨⟨-, rfl⟩, hdepth⟩
    exact ⟨hdepth, rfl⟩
  · rintro ⟨hdepth, rfl⟩
    exact ⟨⟨Nat.le_trans (Nat.le_add_left ..) hdepth, rfl⟩, hdepth⟩

theorem depthItems_strings (texts : List Text) : depthItems (texts.map .string) = 0 := by
  induction texts with
  | nil => rfl
  | cons t rest ih => simp [depthItems, depth, ih]

theorem depth_tagged (tag : String) (fields : List (String × Json)) :
    (tagged tag fields).depth = depthFields (fields.map fun f => (bytes f.1, f.2)) + 1 := by
  simp [tagged, depth, depthFields]

end Json

/-- An expression has a value exactly if it is not nested too deeply. -/
theorem Expr.encode_eq_ok_iff {e : Expr} :
    ∀ {j : Json}, e.encode = .ok j ↔ e.json.depth ≤ Json.maxDepth ∧ j = e.json := by
  induction e with
  | literal | identifier => simp [encode, json, Json.depth_tagged, Json.depthFields, Json.depth, Json.maxDepth, eq_comm]
  | binary pos operator left right ihleft ihright =>
    intro j
    rw [encode, bind_eq_ok_iff_of_value (Json.within_eq_ok_iff_of_encode ihleft),
      bind_eq_ok_iff_of_value (Json.within_eq_ok_iff_of_encode ihright)]
    simp only [json, Json.depth_tagged, Json.depthFields, List.map_cons, List.map_nil, Json.depth]
    exact and_assoc.symm.trans (and_congr (by omega) pure_eq_ok_iff)

theorem Expr.within_eq_ok_iff {e : Expr} {level : Nat} {j : Json} :
    Json.within level e.type e.encode = .ok j ↔ level + e.json.depth ≤ Json.maxDepth ∧ j = e.json :=
  Json.within_eq_ok_iff_of_encode encode_eq_ok_iff

mutual

/-- A node has a value exactly if it is not nested too deeply. -/
theorem Node.encode_eq_ok_iff : ∀ {n : Node} {j : Json}, n.encode = .ok j ↔ n.json.depth ≤ Json.maxDepth ∧ j = n.json
  | .declaration _ _ none, j => by
    simp [Node.encode, Node.json, Json.slice, Json.depth_tagged, Json.depthFields, Json.depth, Json.maxDepth, eq_comm]
  | .declaration _ _ (some names), j => by
    simp [Node.encode, Node.json, Json.slice, Json.depth_tagged, Json.depthFields, Json.depth, Json.maxDepth,
      Json.depthItems_strings, eq_comm]
  | .assignment _ _ value, j | .output _ value, j => by
    rw [Node.encode, bind_eq_ok_iff_of_value Expr.within_eq_ok_iff]
    simp only [Node.json, Json.depth_tagged, Json.depthFields, List.map_cons, List.map_nil, Json.depth]
    exact and_congr (by omega) pure_eq_ok_iff
  | .loop _ condition none, j | .loop _ condition (some body), j => by
    rw [Node.encode, bind_eq_ok_iff_of_value Expr.within_eq_ok_iff,
      bind_eq_ok_iff_of_value (Node.encodeSlice_eq_ok_iff (by decide : 2 ≤ Json.maxDepth))]
    simp only [Node.json, Json.ofNodes, Option.map_none, Option.map_some, Json.depth_tagged, Json.depthFields,
      List.map_cons, List.map_nil]
    exact and_assoc.symm.trans (and_congr (by omega) pure_eq_ok_iff)

/-- So does a list of nodes, whose own array is among those around its nodes. -/
theorem Node.encodeSlice_eq_ok_iff {level : Nat} (hlevel : level ≤ Json.maxDepth) :
    ∀ {nodes : Option (List Node)} {j : Json}, Node.encodeSlice level nodes = .ok j ↔
      level + (Json.ofNodes nodes).depth ≤ Json.maxDepth + 1 ∧ j = Json.ofNodes nodes
  | none, j => by
    simp [Node.encodeSlice, Json.ofNodes, Json.slice, Json.depth, Nat.le_succ_of_le hlevel, eq_comm]
  | some nodes, j => by
    rw [Node.encodeSlice, bind_eq_ok_iff_of_value (Node.encodeList_eq_ok_iff hlevel), Json.ofNodes, Option.map_some,
      Json.slice, Json.depth]
    exact and_congr (by omega) pure_eq_ok_iff

theorem Node.encodeList_eq_ok_iff {level : Nat} (hlevel : level ≤ Json.maxDepth) :
    ∀ {nodes : List Node} {items : List Json}, Node.encodeList level nodes = .ok items ↔
      level + Json.depthItems (Node.jsonList nodes) ≤ Json.maxDepth ∧ items = Node.jsonList nodes
  | [], items => by simp [Node.encodeList, Node.jsonList, Json.depthItems, hlevel, eq_comm]
  | n :: rest, items => by
    rw [Node.encodeList, bind_eq_ok_iff_of_value (Json.within_eq_ok_iff_of_encode Node.encode_eq_ok_iff),
      bind_eq_ok_iff_of_value (Node.encodeList_eq_ok_iff hlevel), Node.jsonList, Json.depthItems]
    exact and_assoc.symm.trans (and_congr (by omega) pure_eq_ok_iff)

end

/-- Nodes have a text exactly if it is not nested too deeply. -/
theorem dumpNodes_eq_ok_iff {nodes : Option (List Node)} {text : Text} :
    dumpNodes nodes = .ok text ↔
      (Json.ofNodes nodes).depth ≤ Json.maxDepth ∧ text = (Json.ofNodes nodes).compact := by
  rw [dumpNodes, bind_eq_ok_iff_of_value (Node.encodeSlice_eq_ok_iff (by decide : 1 ≤ Json.maxDepth))]
  exact and_congr (by omega) pure_eq_ok_iff

/-! ### Tags -/

/-- The tags of nodes, each with the names of the fields behind it. -/
def nodeKinds : List (Text × List Text) :=
  [(bytes "declaration", [bytes "data_type", bytes "identifiers"]),
    (bytes "assignment", [bytes "left", bytes "right"]),
    (bytes "output", [bytes "value"]),
    (bytes "while", [bytes "condition", bytes "body"]),
    (bytes "literal", [bytes "value"]),
    (bytes "identifier", [bytes "name"]),
    (bytes "binary_op", [bytes "operator", bytes "left", bytes "right"])]

namespace Json

/-- An object begins with the tag of a node, and the node's fields follow. -/
def isNode : Json → Bool
  | .object ((key, .string tag) :: fields) => key = bytes "type" && (tag, fields.map Prod.fst) ∈ nodeKinds
  | .object _ => false
  | _ => true

theorem nodeKinds_utf8 : (bytes "type").isUtf8 ∧ ∀ k ∈ nodeKinds, k.1.isUtf8 ∧ ∀ t ∈ k.2, t.isUtf8 := by
  decide +kernel

/-- The value can stand in a dump: its texts are UTF-8, and an object is a node. -/
def isDumpable (j : Json) : Bool := j.holdsUtf8 && j.isNode

theorem isDumpable_iff {j : Json} : j.isDumpable ↔ j.holdsUtf8 ∧ j.isNode := by simp [isDumpable]

theorem everywhere_string {t : Text} (h : t.isUtf8) : (Json.string t).everywhere isDumpable := by
  simp [everywhere, isDumpable, holdsUtf8, isNode, h]

theorem everywhere_slice {items : Option (List Json)} (h : ∀ item ∈ items.getD [], item.everywhere isDumpable) :
    (Json.slice items).everywhere isDumpable := by
  cases items with
  | none => rfl
  | some items => exact everywhere_array.2 ⟨rfl, h⟩

theorem everywhere_tagged {tag : String} {fields : List (String × Json)}
    (hkind : (bytes tag, fields.map fun f => bytes f.1) ∈ nodeKinds)
    (hfields : ∀ f ∈ fields, f.2.everywhere isDumpable) : (tagged tag fields).everywhere isDumpable := by
  obtain ⟨hkey, hkinds⟩ := nodeKinds_utf8
  obtain ⟨htag, hnames⟩ := hkinds _ hkind
  refine everywhere_object.2 ⟨?_, ?_⟩
  · have hkeys : ∀ f ∈ fields, (bytes f.1).isUtf8 := fun f hf => hnames _ (List.mem_map_of_mem hf)
    simpa [isDumpable, holdsUtf8, isNode, hkey, Function.comp_def, hkind] using hkeys
  · refine List.forall_mem_cons.2 ⟨everywhere_string htag, ?_⟩
    exact List.forall_mem_map.2 hfields

end Json

theorem Expr.everywhere_json {e : Expr} (h : ∀ t ∈ e.texts, t.isUtf8) : e.json.everywhere Json.isDumpable := by
  induction e with
  | literal pos value =>
    refine Json.everywhere_tagged (by simp [nodeKinds]) ?_
    simp [Json.everywhere, Json.isDumpable, Json.holdsUtf8, Json.isNode]
  | identifier pos name =>
    refine Json.everywhere_tagged (by simp [nodeKinds]) ?_
    simpa using Json.everywhere_string (h name (List.mem_cons_self ..))
  | binary pos operator left right ihleft ihright =>
    simp only [texts, List.forall_mem_cons, List.forall_mem_append] at h
    refine Json.everywhere_tagged (by simp [nodeKinds]) ?_
    simp [Json.everywhere_string h.1, ihleft h.2.1, ihright h.2.2]

theorem Json.everywhere_names {names : Option (List Text)} (h : ∀ name ∈ names.getD [], name.isUtf8) :
    (Json.slice (names.map (·.map .string))).everywhere isDumpable := by
  refine everywhere_slice fun item hitem => ?_
  cases names with
  | none => cases hitem
  | some names =>
    obtain ⟨name, hname, rfl⟩ := List.mem_map.1 hitem
    exact everywhere_string (h name hname)

mutual

theorem Node.everywhere_json : ∀ {n : Node}, (∀ t ∈ n.texts, t.isUtf8) → n.json.everywhere Json.isDumpable
  | .declaration _ dataType names, h => by
    obtain ⟨htype, hnames⟩ := List.forall_mem_cons.1 h
    refine Json.everywhere_tagged (by simp [nodeKinds]) ?_
    simp [Json.everywhere_string htype, Json.everywhere_names hnames]
  | .assignment _ target value, h => by
    obtain ⟨htarget, hvalue⟩ := List.forall_mem_cons.1 h
    refine Json.everywhere_tagged (by simp [nodeKinds]) ?_
    simp [Json.everywhere_string htarget, Expr.everywhere_json hvalue]
  | .output _ value, h => by
    refine Json.everywhere_tagged (by simp [nodeKinds]) ?_
    simpa using Expr.everywhere_json h
  | .loop _ condition none, h => by
    refine Json.everywhere_tagged (by simp [nodeKinds]) ?_
    have hbody : (Json.slice none).everywhere Json.isDumpable := rfl
    simp [Expr.everywhere_json h, hbody]
  | .loop _ condition (some body), h => by
    obtain ⟨hcondition, hbody⟩ := List.forall_mem_append.1 h
    have hitems : (Json.slice (some (Node.jsonList body))).everywhere Json.isDumpable :=
      Json.everywhere_slice (Node.everywhere_jsonList hbody)
    refine Json.everywhere_tagged (by simp [nodeKinds]) ?_
    simp [Expr.everywhere_json hcondition, hitems]

theorem Node.everywhere_jsonList : ∀ {nodes : List Node}, (∀ t ∈ Node.listTexts nodes, t.isUtf8) →
    ∀ j ∈ Node.jsonList nodes, j.everywhere Json.isDumpable
  | [], _ => fun j hj => absurd hj List.not_mem_nil
  | n :: rest, h => by
    obtain ⟨hn, hrest⟩ := List.forall_mem_append.1 h
    exact List.forall_mem_cons.2 ⟨Node.everywhere_json hn, Node.everywhere_jsonList hrest⟩

end

/-! ### Reading nodes -/

/-- The expression that a node stands for, its positions unset. -/
def Expr.ofJson? : Json → Option Expr
  | .object [(_, .string tag), (_, .number n)] =>
    if tag = bytes "literal" ∧ (Int64.ofInt n).toInt = n then some (.literal default (Int64.ofInt n)) else none
  | .object [(_, .string tag), (_, .string name)] =>
    if tag = bytes "identifier" then some (.identifier default name) else none
  | .object [(_, .string tag), (_, .string operator), (_, left), (_, right)] =>
    if tag = bytes "binary_op" then do some (.binary default operator (← Expr.ofJson? left) (← Expr.ofJson? right))
    else none
  | _ => none

/-- The string that a value is. -/
def Json.string? : Json → Option Text
  | .string t => some t
  | _ => none

/-- The list of strings that a value is. -/
def Json.strings? : Json → Option (Option (List Text))
  | .null => some none
  | .array items => (items.mapM Json.string?).map some
  | _ => none

mutual

/-- The node that a value stands for, its positions unset. -/
def Node.ofJson? : Json → Option Node
  | .object [(_, .string tag), (_, value)] =>
    if tag = bytes "output" then do some (.output default (← Expr.ofJson? value)) else none
  | .object [(_, .string tag), (_, left), (_, right)] =>
    if tag = bytes "declaration" then do some (.declaration default (← left.string?) (← right.strings?))
    else if tag = bytes "assignment" then do some (.assignment default (← left.string?) (← Expr.ofJson? right))
    else if tag = bytes "while" then
      match right with
      | .null => do some (.loop default (← Expr.ofJson? left) none)
      | .array body => do some (.loop default (← Expr.ofJson? left) (some (← Node.listOfJson? body)))
      | _ => none
    else none
  | _ => none

def Node.listOfJson? : List Json → Option (List Node)
  | [] => some []
  | item :: items => do some ((← Node.ofJson? item) :: (← Node.listOfJson? items))

end

theorem Expr.ofJson?_json (e : Expr) : Expr.ofJson? e.json = some e.unplaced := by
  induction e with
  | literal pos value => simp [json, Json.tagged, ofJson?, unplaced]
  | identifier pos name => simp [json, Json.tagged, ofJson?, unplaced]
  | binary pos operator left right ihleft ihright => simp [json, Json.tagged, ofJson?, unplaced, ihleft, ihright]

theorem Json.strings?_slice (names : Option (List Text)) :
    (Json.slice (names.map (·.map .string))).strings? = some names := by
  cases names with
  | none => rfl
  | some names =>
    have hnames : (names.map Json.string).mapM Json.string? = some names := mapM_map_eq_some fun _ _ => rfl
    simp [slice, strings?, hnames]

theorem while_ne : bytes "while" ≠ bytes "declaration" ∧ bytes "while" ≠ bytes "assignment" := by decide

mutual

theorem Node.ofJson?_json : ∀ n : Node, Node.ofJson? n.json = some n.unplaced
  | .declaration _ dataType names => by
    simp [Node.json, Json.tagged, Node.ofJson?, Node.unplaced, Json.string?, Json.strings?_slice]
  | .assignment _ target value => by
    have htag : bytes "assignment" ≠ bytes "declaration" := by decide
    simp [Node.json, Json.tagged, Node.ofJson?, Node.unplaced, Json.string?, htag, value.ofJson?_json]
  | .output _ value => by simp [Node.json, Json.tagged, Node.ofJson?, Node.unplaced, value.ofJson?_json]
  | .loop _ condition none => by
    simp [Node.json, Json.tagged, Json.slice, Node.ofJson?, Node.unplaced, while_ne, condition.ofJson?_json]
  | .loop _ condition (some body) => by
    simp [Node.json, Json.tagged, Json.slice, Node.ofJson?, Node.unplaced, while_ne, condition.ofJson?_json,
      Node.listOfJson?_jsonList body]

theorem Node.listOfJson?_jsonList : ∀ nodes : List Node,
    Node.listOfJson? (Node.jsonList nodes) = some (Node.unplacedList nodes)
  | [] => rfl
  | n :: rest => by
    simp [Node.jsonList, Node.listOfJson?, Node.unplacedList, Node.ofJson?_json n, Node.listOfJson?_jsonList rest]

end

/-- The list of nodes that a value stands for, their positions unset. -/
def Node.sliceOfJson? : Json → Option (Option (List Node))
  | .null => some none
  | .array items => (Node.listOfJson? items).map some
  | _ => none

theorem Node.sliceOfJson?_ofNodes (nodes : Option (List Node)) :
    Node.sliceOfJson? (Json.ofNodes nodes) = some (nodes.map Node.unplacedList) := by
  cases nodes with
  | none => rfl
  | some nodes => simp [Json.ofNodes, Json.slice, sliceOfJson?, listOfJson?_jsonList]

/-- The nodes of a dump, their positions unset. -/
def readDump? (t : Text) : Option (Option (List Node)) := do
  let j ← Json.read? t
  if j.everywhere Json.isNode then Node.sliceOfJson? j else none

/-! ### Positions do not show -/

theorem Expr.json_unplaced (e : Expr) : e.unplaced.json = e.json := by
  induction e with
  | literal | identifier => rfl
  | binary pos operator left right ihleft ihright => simp only [unplaced, json, ihleft, ihright]

mutual

theorem Node.json_unplaced : ∀ n : Node, n.unplaced.json = n.json
  | .declaration .. => rfl
  | .assignment _ _ value | .output _ value | .loop _ value none => by
    simp only [Node.unplaced, Node.json, value.json_unplaced]
  | .loop _ condition (some body) => by
    simp only [Node.unplaced, Node.json, condition.json_unplaced, Node.jsonList_unplacedList body]

theorem Node.jsonList_unplacedList : ∀ nodes : List Node, Node.jsonList (Node.unplacedList nodes) = Node.jsonList nodes
  | [] => rfl
  | n :: rest => by
    simp only [Node.unplacedList, Node.jsonList, Node.json_unplaced n, Node.jsonList_unplacedList rest]

end

/-- What is the same up to positions has the same value. -/
theorem Json.ofNodes_congr {nodes others : Option (List Node)}
    (h : others.map Node.unplacedList = nodes.map Node.unplacedList) : ofNodes others = ofNodes nodes := by
  have hjson : ∀ l : Option (List Node), (l.map Node.unplacedList).map Node.jsonList = l.map Node.jsonList := by
    intro l
    rw [Option.map_map]
    exact congrArg (Option.map · l) (funext Node.jsonList_unplacedList)
  rw [ofNodes, ← hjson, h, hjson, ofNodes]

/-! ### The text of a program -/

theorem Json.everywhere_ofNodes {nodes : Option (List Node)} (h : ∀ t ∈ Node.listTexts (nodes.getD []), t.isUtf8) :
    (ofNodes nodes).everywhere holdsUtf8 ∧ (ofNodes nodes).everywhere isNode := by
  have hdumpable : (ofNodes nodes).everywhere isDumpable := by
    cases nodes with
    | none => rfl
    | some nodes => exact everywhere_slice (Node.everywhere_jsonList h)
  constructor
  · exact everywhere_mono (fun j hj => (isDumpable_iff.1 hj).1) hdumpable
  · exact everywhere_mono (fun j hj => (isDumpable_iff.1 hj).2) hdumpable

theorem readDump?_compact {nodes : Option (List Node)} (h : ∀ t ∈ Node.listTexts (nodes.getD []), t.isUtf8) :
    readDump? (Json.ofNodes nodes).compact = some (nodes.map Node.unplacedList) := by
  obtain ⟨hutf8, hnode⟩ := Json.everywhere_ofNodes h
  rw [readDump?, Json.read?_of_spelled (Json.spelled_compact hutf8)]
  simp only [Option.bind_eq_bind, Option.bind_some, hnode, if_true, Node.sliceOfJson?_ofNodes]

/-- **A dump loses nothing but positions.** Let the names, types and operators in a list of statements be UTF-8, where
the list and the lists in it may be missing. The list has a text exactly if no more than 10000 objects and arrays are
nested in it. The text is well-formed JSON of exactly one value, in which every object begins with the tag of a node and
goes on with the fields of that node; the list is read back from the text up to positions; and another such list has
the same text exactly if it is the same up to positions. -/
theorem dump_loses_only_positions {nodes : Option (List Node)} (h : ∀ t ∈ Node.listTexts (nodes.getD []), t.isUtf8) :
    ((∃ text, dumpNodes nodes = .ok text) ↔ (Json.ofNodes nodes).depth ≤ 10000) ∧
    ∀ text, dumpNodes nodes = .ok text →
      (∀ j, Json.Spelled j text ↔ j = Json.ofNodes nodes) ∧
      (Json.ofNodes nodes).everywhere Json.isNode ∧
      readDump? text = some (nodes.map Node.unplacedList) ∧
      ∀ others, (∀ t ∈ Node.listTexts (others.getD []), t.isUtf8) →
        (dumpNodes others = .ok text ↔ others.map Node.unplacedList = nodes.map Node.unplacedList) := by
  refine ⟨⟨fun ⟨text, htext⟩ => (dumpNodes_eq_ok_iff.1 htext).1, fun hdepth => ?_⟩, fun text htext => ?_⟩
  · exact ⟨_, dumpNodes_eq_ok_iff.2 ⟨hdepth, rfl⟩⟩
  obtain ⟨hdepth, rfl⟩ := dumpNodes_eq_ok_iff.1 htext
  obtain ⟨hutf8, hnode⟩ := Json.everywhere_ofNodes h
  have hspelled : Json.Spelled (Json.ofNodes nodes) (Json.ofNodes nodes).compact := Json.spelled_compact hutf8
  have hunique : ∀ j, Json.Spelled j (Json.ofNodes nodes).compact ↔ j = Json.ofNodes nodes := by
    intro j
    constructor
    · intro hj
      exact hj.unique hspelled
    · rintro rfl
      exact hspelled
  refine ⟨hunique, hnode, readDump?_compact h, fun others hothers => ?_⟩
  rw [dumpNodes_eq_ok_iff]
  constructor
  · rintro ⟨-, hcompact⟩
    have hread := readDump?_compact hothers
    rw [← hcompact, readDump?_compact h] at hread
    exact (Option.some.inj hread).symm
  · intro hsame
    have hvalue := Json.ofNodes_congr hsame
    rw [hvalue]
    exact ⟨hdepth, rfl⟩

/-- Nested loops, lists that are empty or missing, and texts with every kind of escape. -/
def awkward : Option (List Node) :=
  some [.declaration (.start (bytes "a.rat")) (bytes "in\"t\\e\ng<er>")
      (some [bytes "n\x7f", bytes "\x00 é", []]),
    .declaration default (bytes "integer") none,
    .loop default
      (.binary default (bytes "&&") (.literal default (-9223372036854775808)) (.identifier default (bytes "]\x7d,")))
      (some [.loop default (.literal default 0) none, .loop default (.literal default 0) (some []),
        .assignment default (bytes "type") (.identifier default (bytes "null")),
        .output default (.literal default 9223372036854775807)])]

theorem awkward_read_back :
    (∀ t ∈ Node.listTexts (awkward.getD []), t.isUtf8) ∧
      ∃ text, dumpNodes awkward = .ok text ∧ Json.Spelled (Json.ofNodes awkward) text ∧
        readDump? text = some (awkward.map Node.unplacedList) := by
  have hutf8 : ∀ t ∈ Node.listTexts (awkward.getD []), t.isUtf8 := by decide +kernel
  have hdepth : (Json.ofNodes awkward).depth ≤ 10000 := by decide +kernel
  obtain ⟨hexists, hall⟩ := dump_loses_only_positions hutf8
  obtain ⟨text, htext⟩ := hexists.2 hdepth
  obtain ⟨hspelled, -, hread, -⟩ := hall text htext
  exact ⟨hutf8, text, htext, (hspelled _).2 rfl, hread⟩

/-- A loop in as many others. -/
def loops : Nat → Node
  | 0 => .loop default (.literal default 1) none
  | n + 1 => .loop default (.literal default 1) (some [loops n])

theorem depth_loops (n : Nat) : (loops n).json.depth = 2 * n + 2 := by
  induction n with
  | zero => rfl
  | succ n ih =>
    simp only [loops, Node.json, Node.jsonList, Expr.json, Json.slice, Json.depth_tagged, List.map_cons, List.map_nil,
      Json.depthFields, Json.depthItems, Json.depth, ih]
    omega

theorem depth_ofNodes_loops (n : Nat) : (Json.ofNodes (some [loops n])).depth = 2 * n + 3 := by
  simp [Json.ofNodes, Node.jsonList, Json.slice, Json.depth, Json.depthItems, depth_loops]

/-- **No dump**: a loop in 5000 others is nested too deeply. -/
theorem deep_loops_have_no_dump :
    (∀ t ∈ Node.listTexts [loops 5000], t.isUtf8) ∧ ¬∃ text, dumpNodes (some [loops 5000]) = .ok text := by
  have htexts : ∀ n, (loops n).texts = [] := by
    intro n
    induction n with
    | zero => rfl
    | succ n ih => simp [loops, Node.texts, Node.listTexts, Expr.texts, ih]
  refine ⟨by simp [Node.listTexts, htexts], ?_⟩
  rintro ⟨text, htext⟩
  have hdepth := (dumpNodes_eq_ok_iff.1 htext).1
  rw [depth_ofNodes_loops, Json.maxDepth] at hdepth
  omega

end RatLang
