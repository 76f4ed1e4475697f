import RatLang.Proofs.Program.Emission
import RatLang.Proofs.Statement.Acceptance
import RatLang.Translate

/-!
# Sources under another name

The name of a source's file shows in positions and nowhere else. A source that is parsed under one name is parsed
under every other into the same statements at positions of that file, and these compile to the same program
(`Source.exists_parse_inFile`).
-/
namespace RatLang

/-! ### Moving positions -/

/-- The same place of another file. -/
def Position.inFile (file : Text) (p : Position) : Position := { p with file }

/-- The same token of another file. -/
def Token.inFile (file : Text) (t : Token) : Token := { t with pos := t.pos.inFile file }

/-- The same span of another file. -/
def Span.inFile (file : Text) (s : Span) : Span := { s with pos := s.pos.inFile file }

/-- The same expression of another file. -/
def Expr.inFile (file : Text) : Expr → Expr
  | .literal pos value => .literal (pos.inFile file) value
  | .identifier pos name => .identifier (pos.inFile file) name
  | .binary pos operator left right => .binary (pos.inFile file) operator (left.inFile file) (right.inFile file)

mutual

/-- The same statement of another file. -/
def Stmt.inFile (file : Text) : Stmt → Stmt
  | .declaration pos dataType names => .declaration (pos.inFile file) dataType names
  | .assignment pos target value => .assignment (pos.inFile file) target (value.inFile file)
  | .output pos value => .output (pos.inFile file) (value.inFile file)
  | .loop pos condition body => .loop (pos.inFile file) (condition.inFile file) (Stmt.listInFile file body)

/-- The same statements of another file. -/
def Stmt.listInFile (file : Text) : List Stmt → List Stmt
  | [] => []
  | s :: rest => s.inFile file :: Stmt.listInFile file rest

end

/-! ### Scanning -/

theorem spans_inFile (file : Text) (pos : Position) (before : Option UInt8) (src : Text) :
    spans (pos.inFile file) before src = (spans pos before src).map (Span.inFile file) := by
  fun_induction spans pos before src with
  | case1 => rw [spans, List.map_nil]
  | case2 pos before b rest found text ih => rw [spans, List.map_cons, ← ih]; rfl

namespace Source

variable (file file' src : Text)

theorem spans_eq_map : spans file' src = (spans file src).map (Span.inFile file') :=
  spans_inFile file' (.start file) none src

theorem tokens_eq_map : tokens file' src = (tokens file src).map (Token.inFile file') := by
  rw [tokens, tokens, spans_eq_map file, List.filterMap_map, List.map_filterMap]
  congr 1
  funext s
  simp only [Function.comp_apply, Span.token?, Span.inFile, Option.map_map]
  rfl

theorem strays_eq_map :
    strays file' src = (strays file src).map fun s => { s with pos := s.pos.inFile file' } := by
  rw [strays, strays, spans_eq_map file, List.filterMap_map, List.map_filterMap]
  congr 1
  funext s
  have hmoved : (s.inFile file').stray? = if s.rule = .stray then some ⟨s.pos.inFile file', s.text⟩ else none := rfl
  rw [Function.comp_apply, hmoved, Span.stray?]
  by_cases hrule : s.rule = .stray
  · rw [if_pos hrule, if_pos hrule, Option.map_some]
  · rw [if_neg hrule, if_neg hrule, Option.map_none]

variable {file file' src}

theorem tokenize_inFile {strict : Bool} {ts : List Token} (h : tokenize strict file src = .ok ts) :
    tokenize strict file' src = .ok (ts.map (Token.inFile file')) := by
  rw [tokenize] at h ⊢
  rw [strays_eq_map file, tokens_eq_map file]
  cases strict with
  | false => exact congrArg _ (congrArg _ (Except.ok.inj h))
  | true =>
    rw [if_pos rfl] at h ⊢
    cases hstrays : strays file src with
    | nil =>
      rw [hstrays] at h
      exact congrArg _ (congrArg _ (Except.ok.inj h))
    | cons s rest =>
      rw [hstrays] at h
      cases h

end Source

/-! ### Parsing -/

namespace Derivation

variable {reads : Numeral.Reading} {kind : Kind} {lexeme : Text} (file : Text)

/-- The same token of another file. -/
def Lexical.inFile (t : Lexical kind) : Lexical kind := ⟨t.token.inFile file, t.kind_eq⟩

/-- The same token of another file. -/
def Terminal.inFile (t : Terminal kind lexeme) : Terminal kind lexeme :=
  ⟨t.token.inFile file, t.kind_eq, t.lexeme_eq⟩

theorem Operand.exists_inFile (o : Operand reads) :
    ∃ o' : Operand reads, o'.token = o.token.inFile file ∧ o'.tree = o.tree.inFile file := by
  cases o with
  | integer literal value read => exact ⟨.integer (literal.inFile file) value read, rfl, rfl⟩
  | identifier name => exact ⟨.identifier (name.inFile file), rfl, rfl⟩

theorem Expression.exists_inFile (d : Expression reads) :
    ∃ d' : Expression reads, d'.yield = d.yield.map (Token.inFile file) ∧ d'.tree = d.tree.inFile file := by
  induction d with
  | leaf o =>
    obtain ⟨o', htoken, htree⟩ := o.exists_inFile file
    exact ⟨.leaf o', congrArg ([·]) htoken, htree⟩
  | chain o op rest ih =>
    obtain ⟨o', htoken, htree⟩ := o.exists_inFile file
    obtain ⟨d', hyield, htree'⟩ := ih
    refine ⟨.chain o' (op.inFile file) d', ?_, ?_⟩
    · rw [yield, htoken, hyield]
      rfl
    · rw [tree, htree, htree']
      rfl

theorem Names.exists_inFile (d : Names) :
    ∃ d' : Names, d'.yield = d.yield.map (Token.inFile file) ∧ d'.texts = d.texts := by
  induction d with
  | last name => exact ⟨.last (name.inFile file), rfl, rfl⟩
  | more name comma rest ih =>
    obtain ⟨d', hyield, htexts⟩ := ih
    refine ⟨.more (name.inFile file) (comma.inFile file) d', ?_, ?_⟩
    · rw [yield, hyield]
      rfl
    · rw [texts, htexts]
      rfl

mutual

theorem Statement.exists_inFile : ∀ d : Statement reads,
    ∃ d' : Statement reads, d'.yield = d.yield.map (Token.inFile file) ∧ d'.tree = d.tree.inFile file
  | .declaration keyword names semicolon => by
    obtain ⟨names', hyield, htexts⟩ := names.exists_inFile file
    refine ⟨.declaration (keyword.inFile file) names' (semicolon.inFile file), ?_, ?_⟩
    · rw [Statement.yield, hyield, Statement.yield, List.map_cons, List.map_append]
      rfl
    · rw [Statement.tree, htexts]
      rfl
  | .assignment target sign value semicolon => by
    obtain ⟨value', hyield, htree⟩ := value.exists_inFile file
    refine ⟨.assignment (target.inFile file) (sign.inFile file) value' (semicolon.inFile file), ?_, ?_⟩
    · rw [Statement.yield, hyield, Statement.yield, List.map_cons, List.map_cons, List.map_append]
      rfl
    · rw [Statement.tree, htree]
      rfl
  | .loop keyword left condition right opening body closing => by
    obtain ⟨condition', hyield, htree⟩ := condition.exists_inFile file
    obtain ⟨body', hyields, htrees⟩ := Statements.exists_inFile body
    refine ⟨.loop (keyword.inFile file) (left.inFile file) condition' (right.inFile file) (opening.inFile file) body'
      (closing.inFile file), ?_, ?_⟩
    · rw [Statement.yield, hyield, hyields, Statement.yield]
      simp only [List.map_cons, List.map_append, List.map_nil]
      rfl
    · rw [Statement.tree, htree, htrees, Statement.tree, Stmt.inFile]
      rfl
  | .output keyword left value right semicolon => by
    obtain ⟨value', hyield, htree⟩ := value.exists_inFile file
    refine ⟨.output (keyword.inFile file) (left.inFile file) value' (right.inFile file) (semicolon.inFile file), ?_, ?_⟩
    · rw [Statement.yield, hyield, Statement.yield, List.map_cons, List.map_cons, List.map_append]
      rfl
    · rw [Statement.tree, htree]
      rfl

theorem Statements.exists_inFile : ∀ d : Statements reads,
    ∃ d' : Statements reads, d'.yield = d.yield.map (Token.inFile file) ∧ d'.trees = Stmt.listInFile file d.trees
  | .none => ⟨.none, rfl, rfl⟩
  | .more first rest => by
    obtain ⟨first', hyield, htree⟩ := Statement.exists_inFile first
    obtain ⟨rest', hyields, htrees⟩ := Statements.exists_inFile rest
    refine ⟨.more first' rest', ?_, ?_⟩
    · rw [Statements.yield, hyield, hyields, Statements.yield, List.map_append]
    · rw [Statements.trees, htree, htrees, Statements.trees, Stmt.listInFile]

end

end Derivation

theorem parse_inFile {ts : List Token} {stmts : List Stmt} (h : parse ts = .ok stmts) (file : Text) :
    parse (ts.map (Token.inFile file)) = .ok (Stmt.listInFile file stmts) := by
  rw [parse_eq_ok_iff] at h ⊢
  obtain ⟨d, rfl, rfl⟩ := h
  exact d.exists_inFile file

/-! ### Compiling -/

section

variable (file : Text)

theorem SymbolTable.fault?_eq_none_iff {opts : Options} {t : SymbolTable} {name : Text} {pos : Position} :
    t.fault? opts name pos = none ↔ (opts.strict → (t.lookup name).isSome) := by
  rw [fault?]
  cases opts.strict <;> cases t.lookup name <;> simp

theorem Expr.fault?_inFile_eq_none (opts : Options) (t : SymbolTable) (e : Expr) :
    (e.inFile file).fault? opts t = none ↔ e.fault? opts t = none := by
  induction e with
  | literal => rfl
  | identifier pos name => rw [inFile, fault?, fault?, SymbolTable.fault?_eq_none_iff, SymbolTable.fault?_eq_none_iff]
  | binary pos operator left right ihl ihr =>
    simp only [inFile, fault?]
    cases opts.arithmetic with
    | false => rfl
    | true => cases Opcode.ofOperator? operator <;> simp [ihl, ihr]

theorem Expr.emitted_inFile (arithmetic : Bool) (t : SymbolTable) (e : Expr) (n : Nat) :
    (e.inFile file).emitted arithmetic t n = e.emitted arithmetic t n := by
  induction e generalizing n with
  | literal => rfl
  | identifier => rfl
  | binary pos operator left right ihl ihr => simp only [inFile, emitted, ihl, ihr]

theorem Stmt.declaredList_inFile (stmts : List Stmt) : ∀ t : SymbolTable,
    declaredList t (listInFile file stmts) = declaredList t stmts := by
  induction stmts using Stmt.list_induction with
  | nil => exact fun _ => rfl
  | declaration pos dataType names rest ih => exact fun t => ih _
  | assignment pos target value rest ih => exact fun t => ih _
  | output pos value rest ih => exact fun t => ih _
  | loop pos condition body rest ihbody ih =>
    intro t
    simp only [listInFile, inFile, declaredList, declared, ihbody, ih]

theorem Stmt.faultList?_inFile_eq_none (opts : Options) (stmts : List Stmt) : ∀ t : SymbolTable,
    faultList? opts t (listInFile file stmts) = none ↔ faultList? opts t stmts = none := by
  induction stmts using Stmt.list_induction with
  | nil => exact fun _ => Iff.rfl
  | declaration pos dataType names rest ih =>
    intro t
    simp [listInFile, inFile, faultList?, fault?, declared, ih]
  | assignment pos target value rest ih =>
    intro t
    simp [listInFile, inFile, faultList?, fault?, declared, ih, Expr.fault?_inFile_eq_none,
      SymbolTable.fault?_eq_none_iff]
  | output pos value rest ih =>
    intro t
    simp [listInFile, inFile, faultList?, fault?, declared, ih, Expr.fault?_inFile_eq_none]
  | loop pos condition body rest ihbody ih =>
    intro t
    simp [listInFile, inFile, faultList?, fault?, declared, ih, ihbody, Expr.fault?_inFile_eq_none,
      Stmt.declaredList_inFile]

theorem Stmt.emittedList_inFile (arithmetic : Bool) (stmts : List Stmt) : ∀ (t : SymbolTable) (n : Nat),
    emittedList arithmetic t n (listInFile file stmts) = emittedList arithmetic t n stmts := by
  induction stmts using Stmt.list_induction with
  | nil => exact fun _ _ => rfl
  | declaration pos dataType names rest ih =>
    intro t n
    simp only [listInFile, inFile, emittedList, emitted, declared, ih]
  | assignment pos target value rest ih =>
    intro t n
    simp only [listInFile, inFile, emittedList, emitted, declared, ih, Expr.emitted_inFile]
  | output pos value rest ih =>
    intro t n
    simp only [listInFile, inFile, emittedList, emitted, declared, ih, Expr.emitted_inFile]
  | loop pos condition body rest ihbody ih =>
    intro t n
    simp only [listInFile, inFile, emittedList, emitted, declared, ih, ihbody, Expr.emitted_inFile,
      Stmt.declaredList_inFile]

theorem compile_inFile {opts : Options} {stmts : List Stmt} {p : Program} :
    compile opts (Stmt.listInFile file stmts) = .ok p ↔ compile opts stmts = .ok p := by
  rw [compile_eq_ok_iff, compile_eq_ok_iff, Stmt.faultList?_inFile_eq_none, Stmt.declaredList_inFile,
    Stmt.emittedList_inFile]

end

theorem Source.parse_eq_ok_iff_exists_tokens {strict : Bool} {file src : Text} {stmts : List Stmt} :
    Source.parse strict file src = .ok stmts ↔
      ∃ ts, tokenize strict file src = .ok ts ∧ RatLang.parse ts = .ok stmts := by
  rw [Source.parse]
  cases tokenize strict file src with
  | error s => simp
  | ok ts => cases h : RatLang.parse ts <;> simp [h]

/-- A source has one program, whatever its file is called. -/
theorem Source.exists_parse_inFile {strict : Bool} {file src : Text} {stmts : List Stmt}
    (h : Source.parse strict file src = .ok stmts) (file' : Text) :
    ∃ stmts', Source.parse strict file' src = .ok stmts' ∧
      ∀ {opts : Options} {p : Program}, compile opts stmts' = .ok p ↔ compile opts stmts = .ok p := by
  obtain ⟨ts, htokens, hparse⟩ := Source.parse_eq_ok_iff_exists_tokens.1 h
  refine ⟨Stmt.listInFile file' stmts, ?_, compile_inFile file'⟩
  exact Source.parse_eq_ok_iff_exists_tokens.2 ⟨_, tokenize_inFile htokens, parse_inFile hparse file'⟩

end RatLang
