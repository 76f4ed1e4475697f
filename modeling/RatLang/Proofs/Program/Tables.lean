import RatLang.Proofs.Build.Artifact
import RatLang.Proofs.Statement.Findings
import RatLang.Proofs.Token.Tiling

/-!
# Reading tables back

A table is a heading and one line per entry with tabs between the fields, and nothing is quoted. So a table can be
taken apart again if no field holds a tab or a newline (`tableRows?_table`). The fields of a translated program are
numbers, names of operations, and names and types that were tokens of the source, and none of these holds white space.
Main statement: `tables_determine_program`.
-/
namespace RatLang

/-! ### Rows -/

/-- The lines of a table under its heading, in fields. -/
def tableRows? (heading t : Text) : Option (List (List Text)) :=
  match t.splitOn 0x0a with
  | first :: lines =>
    if first = heading ∧ lines.getLast? = some [] then some (lines.dropLast.map (Text.splitOn 0x09)) else none
  | [] => none

/-- The fields can stand in a row: there is one, and none holds a tab or a newline. -/
def IsRow (fields : List Text) : Prop := fields ≠ [] ∧ ∀ field ∈ fields, 0x09 ∉ field ∧ 0x0a ∉ field

theorem tableRows?_table {heading : Text} (hheading : 0x0a ∉ heading) {rows : List (List Text)}
    (hrows : ∀ fields ∈ rows, IsRow fields) :
    tableRows? heading (Text.line heading ++ rows.flatMap tableRow) = some rows := by
  have hlines : rows.flatMap tableRow = (rows.map (Text.join [0x09])).flatMap Text.line := by
    rw [List.flatMap_map]
    rfl
  have hplain : ∀ l ∈ rows.map (Text.join [0x09]), 0x0a ∉ l := by
    intro l hl
    obtain ⟨fields, hfields, rfl⟩ := List.mem_map.1 hl
    exact Text.notMem_join _ (by decide) fun field hfield => ((hrows fields hfields).2 field hfield).2
  have hsplit : Text.splitOn 0x0a (Text.line heading ++ rows.flatMap tableRow) =
      heading :: (rows.map (Text.join [0x09]) ++ [[]]) := by
    rw [Text.line, List.append_assoc, List.singleton_append, Text.splitOn_append_sep,
      Text.splitOn_of_notMem _ hheading, hlines, Text.splitOn_lines hplain, List.singleton_append]
  have hfields : (rows.map (Text.join [0x09])).map (Text.splitOn 0x09) = rows := by
    rw [List.map_map]
    refine (List.map_congr_left fun fields hmem => ?_).trans (List.map_id rows)
    exact Text.splitOn_join _ (hrows fields hmem).1 fun field hfield => ((hrows fields hmem).2 field hfield).1
  simp only [tableRows?, hsplit, List.getLast?_concat, List.dropLast_concat, and_self, if_true, hfields]

theorem not_blank_decimal (i : Int) : 0x09 ∉ decimal i ∧ 0x0a ∉ decimal i :=
  ⟨Numeral.notMem_decimal (by decide) (by decide) i, Numeral.notMem_decimal (by decide) (by decide) i⟩

theorem not_blank_of_isPlain {t : Text} (h : t.all Rule.isPlain) : 0x09 ∉ t ∧ 0x0a ∉ t := by
  rw [List.all_eq_true] at h
  exact ⟨fun hmem => absurd (h _ hmem) (by decide), fun hmem => absurd (h _ hmem) (by decide)⟩

/-! ### Symbols -/

namespace Symbol

/-- The fields of a symbol. -/
def row (s : Symbol) : List Text := [s.name, decimal s.address.toInt, s.type]

/-- The symbol with the given fields. -/
def ofRow? : List Text → Option Symbol
  | [name, address, type] => (Numeral.readDecimal address).toOption.map fun a => ⟨name, a, type⟩
  | _ => none

/-- Neither the name nor the type holds white space. -/
structure Plain (s : Symbol) : Prop where
  name : s.name.all Rule.isPlain
  type : s.type.all Rule.isPlain

theorem ofRow?_row (s : Symbol) : ofRow? s.row = some s := by
  have hread : Numeral.readDecimal (decimal s.address.toInt) = .ok s.address :=
    Numeral.readDecimal_eq_ok_iff.2 (Numeral.denotes_decimal _)
  simp [ofRow?, row, hread, Except.toOption]

theorem Plain.isRow {s : Symbol} (h : s.Plain) : IsRow s.row := by
  refine ⟨by simp [row], ?_⟩
  simp only [row, List.forall_mem_cons]
  exact ⟨not_blank_of_isPlain h.name, not_blank_decimal _, not_blank_of_isPlain h.type, by simp⟩

end Symbol

/-- The symbols of a table. -/
def readSymbols? (t : Text) : Option (List Symbol) :=
  (tableRows? (bytes "Symbol Table") t).bind (List.mapM Symbol.ofRow?)

theorem readSymbols?_symbolTable {symbols : List Symbol} (h : ∀ s ∈ symbols, s.Plain) :
    readSymbols? (symbolTable symbols) = some symbols := by
  have htable : symbolTable symbols =
      Text.line (bytes "Symbol Table") ++ (symbols.map Symbol.row).flatMap tableRow := by
    rw [List.flatMap_map]
    rfl
  have hrows : ∀ fields ∈ symbols.map Symbol.row, IsRow fields := by
    intro fields hfields
    obtain ⟨s, hs, rfl⟩ := List.mem_map.1 hfields
    exact (h s hs).isRow
  rw [readSymbols?, htable, tableRows?_table (by decide) hrows, Option.bind_some]
  exact mapM_map_eq_some fun s _ => s.ofRow?_row

/-! ### Instructions -/

theorem Opcode.ofName_name : ∀ op ∈ known, ofName op.name = op := by decide

theorem Opcode.isPlain_name : ∀ op ∈ known, op.name.all Rule.isPlain := by decide

namespace Instruction

/-- The fields of an instruction. -/
def row (i : Instruction) : List Text := [decimal i.index, i.op.name, i.operandText]

/-- The operand that a field holds: none if it is empty. -/
def readOperand? (t : Text) : Option (Option Int) := if t = [] then some none else (Numeral.integer? t).map some

/-- The instruction with the given fields. -/
def ofRow? : List Text → Option Instruction
  | [index, op, operand] =>
    (Numeral.integer? index).bind fun i => (readOperand? operand).map fun o => ⟨i, Opcode.ofName op, o⟩
  | _ => none

/-- No number is written as nothing, so an absent operand is told from every integer. -/
theorem readOperand?_operandText (i : Instruction) : readOperand? i.operandText = some i.operand := by
  unfold readOperand? operandText
  cases i.operand with
  | none => rfl
  | some n =>
    have hne : decimal n ≠ [] := by
      intro hnil
      have hread := Numeral.integer?_decimal n
      rw [hnil] at hread
      cases hread
    simp only [hne, if_false, Numeral.integer?_decimal, Option.map_some]

theorem ofRow?_row {i : Instruction} (h : i.op ∈ Opcode.known) : ofRow? i.row = some i := by
  simp only [ofRow?, row, Numeral.integer?_decimal, Option.bind_some, readOperand?_operandText, Option.map_some,
    Opcode.ofName_name i.op h]

theorem isRow_row {i : Instruction} (h : i.op ∈ Opcode.known) : IsRow i.row := by
  have hoperand : 0x09 ∉ i.operandText ∧ 0x0a ∉ i.operandText := by
    unfold operandText
    cases i.operand with
    | none => simp
    | some n => exact not_blank_decimal n
  refine ⟨by simp [row], ?_⟩
  simp only [row, List.forall_mem_cons]
  exact ⟨not_blank_decimal _, not_blank_of_isPlain (Opcode.isPlain_name i.op h), hoperand, by simp⟩

end Instruction

/-- The instructions of a table. -/
def readCode? (t : Text) : Option Code :=
  (tableRows? (bytes "Instruction Table") t).bind (List.mapM Instruction.ofRow?)

theorem readCode?_instructionTable {code : Code} (h : ∀ i ∈ code, i.op ∈ Opcode.known) :
    readCode? (instructionTable code) = some code := by
  have htable : instructionTable code =
      Text.line (bytes "Instruction Table") ++ (code.map Instruction.row).flatMap tableRow := by
    rw [List.flatMap_map]
    rfl
  have hrows : ∀ fields ∈ code.map Instruction.row, IsRow fields := by
    intro fields hfields
    obtain ⟨i, hi, rfl⟩ := List.mem_map.1 hfields
    exact Instruction.isRow_row (h i hi)
  rw [readCode?, htable, tableRows?_table (by decide) hrows, Option.bind_some]
  exact mapM_map_eq_some fun i hi => Instruction.ofRow?_row (h i hi)

/-! ### What generation emits -/

theorem Opcode.mem_known_of_ofOperator? {t : Text} {op : Opcode} (h : ofOperator? t = some op) : op ∈ known := by
  have hknown : ∀ op ∈ operators, op ∈ known := by decide
  exact hknown op (mem_operators h)

theorem Expr.known_emitted (arithmetic : Bool) (t : SymbolTable) (e : Expr) :
    ∀ n, ∀ i ∈ e.emitted arithmetic t n, i.op ∈ Opcode.known := by
  induction e with
  | literal pos value =>
    intro n i hi
    rw [List.mem_singleton.1 hi]
    simp [Opcode.known]
  | identifier pos name =>
    intro n i hi
    rw [List.mem_singleton.1 hi]
    simp [Opcode.known]
  | binary pos operator left right ihl ihr =>
    intro n i hi
    unfold emitted at hi
    split at hi
    · rename_i op hop
      simp only [List.mem_append, List.mem_singleton] at hi
      rcases hi with hi | hi | rfl
      · exact ihl _ i hi
      · exact ihr _ i hi
      · exact Opcode.mem_known_of_ofOperator? hop
    · cases hi

theorem Stmt.known_emittedList (arithmetic : Bool) (stmts : List Stmt) :
    ∀ (t : SymbolTable) (n : Nat), ∀ i ∈ emittedList arithmetic t n stmts, i.op ∈ Opcode.known := by
  induction stmts using Stmt.list_induction with
  | nil =>
    intro t n i hi
    cases hi
  | declaration pos dataType names rest ih =>
    intro t n i hi
    rw [emittedList_declaration] at hi
    exact ih _ _ i hi
  | assignment pos target value rest ih =>
    intro t n i hi
    rw [emittedList_assignment] at hi
    rcases List.mem_append.1 hi with hi | hi
    · exact value.known_emitted _ _ _ i hi
    · rcases List.mem_cons.1 hi with rfl | hi
      · simp [Opcode.known]
      · exact ih _ _ i hi
  | output pos value rest ih =>
    intro t n i hi
    rw [emittedList_output] at hi
    rcases List.mem_append.1 hi with hi | hi
    · exact value.known_emitted _ _ _ i hi
    · rcases List.mem_cons.1 hi with rfl | hi
      · simp [Opcode.known]
      · exact ih _ _ i hi
  | loop pos condition body rest ihbody ih =>
    intro t n i hi
    rw [emittedList_loop] at hi
    simp only [List.mem_append, List.mem_cons] at hi
    rcases hi with hi | rfl | hi | rfl | hi
    · exact condition.known_emitted _ _ _ i hi
    · simp [Opcode.known]
    · exact ihbody _ _ i hi
    · simp [Opcode.known]
    · exact ih _ _ i hi

/-- The name and the type of a symbol come from a declaration. -/
theorem exists_declaring {base : Int64} {walk : List Visit} {s : Symbol} (h : s ∈ (tableAfter base walk).entries) :
    ∃ d ∈ declarings walk, s.name = d.name ∧ s.type = d.type := by
  refine tableAfter_induction (P := fun ds t => ∀ s ∈ t.entries, ∃ d ∈ ds, s.name = d.name ∧ s.type = d.type) []
    (fun s hs => nomatch hs) ?_ walk s h
  intro ds t d ih s hs
  have hold : s ∈ t.entries → ∃ e ∈ ds ++ [d], s.name = e.name ∧ s.type = e.type := by
    intro hs
    obtain ⟨e, he, hsame⟩ := ih s hs
    exact ⟨e, List.mem_append_left _ he, hsame⟩
  rcases t.declare_cases d.name d.type with hdeclare | ⟨-, hdeclare⟩
  · rw [hdeclare] at hs
    exact hold hs
  · rw [hdeclare] at hs
    rcases List.mem_append.1 hs with hs | hs
    · exact hold hs
    · rw [List.mem_singleton.1 hs]
      exact ⟨d, List.mem_append_right _ (List.mem_singleton_self d), rfl, rfl⟩

/-! ### What a source declares -/

/-- The name and the type are texts of tokens. -/
def Declaring.Among (d : Declaring) (ts : List Token) : Prop :=
  (∃ t ∈ ts, t.lexeme = d.name) ∧ ∃ t ∈ ts, t.lexeme = d.type

theorem Declaring.Among.mono {d : Declaring} {ts us : List Token} (h : d.Among ts) (hsub : ts ⊆ us) : d.Among us := by
  obtain ⟨⟨t, ht, hname⟩, u, hu, htype⟩ := h
  exact ⟨⟨t, hsub ht, hname⟩, u, hsub hu, htype⟩

namespace Derivation

variable {reads : Numeral.Reading} (arithmetic : Bool)

theorem Names.exists_token {name : Text} (d : Names) (h : name ∈ d.texts) : ∃ t ∈ d.yield, t.lexeme = name := by
  induction d with
  | last token =>
    rw [texts, List.mem_singleton] at h
    exact ⟨token.token, List.mem_singleton_self _, h.symm⟩
  | more token comma rest ih =>
    rw [texts, List.mem_cons] at h
    rcases h with rfl | h
    · exact ⟨token.token, List.mem_cons_self .., rfl⟩
    · obtain ⟨t, ht, hlexeme⟩ := ih h
      exact ⟨t, List.mem_cons_of_mem _ (List.mem_cons_of_mem _ ht), hlexeme⟩

mutual

theorem Statement.among_yield : ∀ (d : Statement reads), ∀ v ∈ declarings (d.tree.walk arithmetic), v.Among d.yield
  | .declaration keyword names semicolon => by
    intro v hv
    rw [Statement.tree, Stmt.walk, declarings_map] at hv
    obtain ⟨name, hname, rfl⟩ := List.mem_map.1 hv
    obtain ⟨t, ht, hlexeme⟩ := names.exists_token hname
    rw [Statement.yield]
    exact ⟨⟨t, by simp [ht], hlexeme⟩, keyword.token, by simp, rfl⟩
  | .assignment target sign value semicolon => by
    intro v hv
    simp [Statement.tree, Stmt.walk] at hv
  | .loop keyword left condition right opening body closing => by
    intro v hv
    have hinside : v ∈ declarings (Stmt.walkList arithmetic body.trees) := by
      simpa [Statement.tree, Stmt.walk] using hv
    refine (Statements.among_yield body v hinside).mono fun t ht => ?_
    simp [Statement.yield, ht]
  | .output keyword left value right semicolon => by
    intro v hv
    simp [Statement.tree, Stmt.walk] at hv

theorem Statements.among_yield :
    ∀ (d : Statements reads), ∀ v ∈ declarings (Stmt.walkList arithmetic d.trees), v.Among d.yield
  | .none => by
    intro v hv
    cases hv
  | .more first rest => by
    intro v hv
    rw [Statements.trees, Stmt.walkList, declarings_append] at hv
    rw [Statements.yield]
    rcases List.mem_append.1 hv with hv | hv
    · exact (Statement.among_yield first v hv).mono (List.subset_append_left ..)
    · exact (Statements.among_yield rest v hv).mono (List.subset_append_right ..)

end

end Derivation

namespace Source

variable {opts : Options} {file src : Text} {p : Program}

theorem isPlain_of_mem_tokens {t : Token} (h : t ∈ tokens file src) : t.lexeme.all Rule.isPlain := by
  obtain ⟨s, hs, ht⟩ := List.mem_filterMap.1 h
  obtain ⟨kind, hkind, rfl⟩ := Option.map_eq_some_iff.1 ht
  exact Rule.isPlain_of_spells (by simp [hkind]) (spells_of_mem_spans hs)

theorem eq_tokens_of_tokenize {strict : Bool} {ts : List Token} (h : tokenize strict file src = .ok ts) :
    ts = tokens file src := by
  unfold tokenize at h
  split at h
  · cases h
  · exact (Except.ok.inj h).symm

/-- No white space gets into a symbol. -/
theorem plain_of_translate (h : translate opts file src = .ok p) : ∀ s ∈ p.symbols, s.Plain := by
  obtain ⟨stmts, hparse, hcompile⟩ := translate_eq_ok_iff.1 h
  obtain ⟨ts, htokens, hts⟩ := parse_eq_ok_iff_exists_tokens.1 hparse
  obtain ⟨d, hyield, rfl⟩ := RatLang.parse_eq_ok_iff.1 hts
  obtain rfl := eq_tokens_of_tokenize htokens
  intro s hs
  rw [symbols_eq hcompile] at hs
  obtain ⟨v, hv, hname, htype⟩ := exists_declaring hs
  obtain ⟨⟨t, ht, htname⟩, u, hu, hutype⟩ := d.among_yield _ v hv
  rw [hyield] at ht hu
  constructor
  · rw [hname, ← htname]
    exact isPlain_of_mem_tokens ht
  · rw [htype, ← hutype]
    exact isPlain_of_mem_tokens hu

theorem known_of_translate (h : translate opts file src = .ok p) : ∀ i ∈ p.code, i.op ∈ Opcode.known := by
  obtain ⟨stmts, -, hcompile⟩ := translate_eq_ok_iff.1 h
  rw [(compile_eq_ok_iff.1 hcompile).2.2]
  exact Stmt.known_emittedList _ stmts _ _

end Source

/-- **The tables determine the program.** Whatever source was translated, its symbols and its instructions can be read
back from the tables that are written of them. -/
theorem tables_determine_program {opts : Options} {file src : Text} {p : Program}
    (h : Source.translate opts file src = .ok p) :
    readSymbols? (symbolTable p.symbols) = some p.symbols ∧ readCode? (instructionTable p.code) = some p.code :=
  ⟨readSymbols?_symbolTable (Source.plain_of_translate h), readCode?_instructionTable (Source.known_of_translate h)⟩

/-- Two symbols on both sides of the end of the addresses, and an unknown name that a skipped digit makes of a reserved
word. -/
def wrapped : Text := bytes "integer n, m_2; 1while = 07;\nput(m_2);"

/-- What `wrapped` is translated to from the last address on. -/
def wrappedProgram : Program where
  symbols := [⟨bytes "n", 9223372036854775807, bytes "integer"⟩, ⟨bytes "m_2", -9223372036854775808, bytes "integer"⟩]
  code := [⟨1, .pushi, some 7⟩, ⟨2, .popm, none⟩, ⟨3, .pushm, some (-9223372036854775808)⟩, ⟨4, .stdout, none⟩]

theorem wrapped_tables :
    Source.translate { base := 9223372036854775807 } [] wrapped = .ok wrappedProgram ∧
      readSymbols? (symbolTable wrappedProgram.symbols) = some wrappedProgram.symbols ∧
      readCode? (instructionTable wrappedProgram.code) = some wrappedProgram.code := by
  have htranslate : Source.translate { base := 9223372036854775807 } [] wrapped = .ok wrappedProgram :=
    (Source.program?_eq_some_iff []).1 (by decide +kernel)
  exact ⟨htranslate, tables_determine_program htranslate⟩

end RatLang
