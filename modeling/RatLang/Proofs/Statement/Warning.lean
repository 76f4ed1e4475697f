import RatLang.Proofs.Program.Symbols
import RatLang.Statement.Warning

/-!
# Warnings and translation

The analysis walks a program with a scope of its own, the code generator with a symbol table; both know
the same names at every statement (`Agrees`). A program is translatable when every name is declared before
it is used and no operator expression is left out. Main statement: that is exactly what the analysis finds
out, redeclarations apart (`harmless_analyze_iff`).
-/
namespace RatLang

/-! ## What can be translated -/

/-- Every name is in the table, and operators are translated if there are any. -/
def Expr.Translatable (arithmetic : Bool) (t : SymbolTable) : Expr → Prop
  | .literal .. => True
  | .identifier _ name => (t.lookup name).isSome
  | .binary _ _ left right =>
    arithmetic = true ∧ left.Translatable arithmetic t ∧ right.Translatable arithmetic t

mutual

/-- The values of a statement can be translated, and its target is in the table. -/
def Stmt.Translatable (arithmetic : Bool) (t : SymbolTable) : Stmt → Prop
  | .declaration .. => True
  | .assignment _ target value => value.Translatable arithmetic t ∧ (t.lookup target).isSome
  | .output _ value => value.Translatable arithmetic t
  | .loop _ condition body =>
    condition.Translatable arithmetic t ∧ Stmt.TranslatableList arithmetic t body

/-- All statements can be translated, each with what was declared before it. -/
def Stmt.TranslatableList (arithmetic : Bool) (t : SymbolTable) : List Stmt → Prop
  | [] => True
  | s :: rest => s.Translatable arithmetic t ∧ Stmt.TranslatableList arithmetic (s.declared t) rest

end

/-! ## Scope and symbol table -/

/-- The scope and the table know the same names. -/
def Agrees (s : Scope) (t : SymbolTable) : Prop := ∀ name, (s.lookup name).isSome = (t.lookup name).isSome

theorem Scope.lookup_declare (s : Scope) (name other : Text) (pos : Position) :
    ((s.declare name pos).lookup other).isSome = ((s.lookup other).isSome || decide (name = other)) := by
  unfold Scope.declare
  by_cases hname : name = other
  · subst hname
    cases hs : s.lookup name with
    | some first => simp [hs]
    | none => simp [Scope.lookup]
  · cases hs : s.lookup name with
    | some first => simp [hname]
    | none => simp [Scope.lookup, List.find?_append, hname]

theorem SymbolTable.lookup_declare (t : SymbolTable) (name other type : Text) :
    ((t.declare name type).lookup other).isSome = ((t.lookup other).isSome || decide (name = other)) := by
  unfold SymbolTable.declare
  by_cases hname : name = other
  · subst hname
    cases ht : t.lookup name with
    | some e => simp [ht]
    | none => simp [SymbolTable.lookup]
  · cases ht : t.lookup name with
    | some e => simp [hname]
    | none => simp [SymbolTable.lookup, List.find?_append, hname]

theorem Agrees.declareAll (pos : Position) (type : Text) (names : List Text) :
    ∀ {s : Scope} {t : SymbolTable}, Agrees s t →
      Agrees (s.declareAll pos names).1 (t.declareAll names type) := by
  induction names with
  | nil => intro s t h; exact h
  | cons name names ih =>
    intro s t h
    have hnext : Agrees (s.declare name pos) (t.declare name type) := by
      intro other
      rw [Scope.lookup_declare, SymbolTable.lookup_declare, h other]
    have hlast := ih hnext
    unfold Scope.declareAll
    cases s.lookup name with
    | some first => exact hlast
    | none => exact hlast

/-! ## What is found out -/

/-- The warning is about a redeclaration, which translation takes in its stride. -/
def Warning.Harmless (w : Warning) : Prop := w.kind ≠ .undeclared ∧ w.kind ≠ .untranslated

theorem Scope.harmless_declareAll (pos : Position) (names : List Text) :
    ∀ (s : Scope), ∀ w ∈ (s.declareAll pos names).2, w.Harmless := by
  induction names with
  | nil => intro s w hw; cases hw
  | cons name names ih =>
    intro s w hw
    unfold Scope.declareAll at hw
    cases hs : s.lookup name with
    | none =>
      rw [hs] at hw
      exact ih _ w hw
    | some first =>
      rw [hs] at hw
      rcases List.mem_cons.1 hw with rfl | hw
      · exact ⟨nofun, nofun⟩
      · exact ih _ w hw

theorem Scope.harmless_use_iff {s : Scope} {t : SymbolTable} (h : Agrees s t) (name : Text) (pos : Position) :
    (∀ w ∈ s.use name pos, w.Harmless) ↔ (t.lookup name).isSome := by
  unfold Scope.use
  rw [h name]
  cases (t.lookup name).isSome with
  | true => simp
  | false => simp [Warning.Harmless, Warning.kind]

theorem Expr.harmless_warnings_iff {arithmetic : Bool} {s : Scope} {t : SymbolTable} (h : Agrees s t) (e : Expr) :
    (∀ w ∈ e.warnings arithmetic s, w.Harmless) ↔ e.Translatable arithmetic t := by
  induction e with
  | literal pos value => simp [Expr.warnings, Expr.Translatable]
  | identifier pos name => exact Scope.harmless_use_iff h name pos
  | binary pos operator left right ihl ihr =>
    cases arithmetic with
    | true => simp only [Expr.warnings, if_true, List.forall_mem_append, ihl, ihr, Expr.Translatable, true_and]
    | false => simp [Expr.warnings, Expr.Translatable, Warning.Harmless, Warning.kind]

/-- The two walks, statement by statement: they find the same and end with the same names. -/
theorem Stmt.harmless_warningsList_iff {arithmetic : Bool} (stmts : List Stmt) :
    ∀ {s : Scope} {t : SymbolTable}, Agrees s t →
      ((∀ w ∈ (Stmt.warningsList arithmetic s stmts).2, w.Harmless) ↔
        Stmt.TranslatableList arithmetic t stmts) ∧
      Agrees (Stmt.warningsList arithmetic s stmts).1 (Stmt.declaredList t stmts) := by
  induction stmts using Stmt.list_induction with
  | nil =>
    intro s t h
    simpa [Stmt.warningsList, Stmt.TranslatableList, Stmt.declaredList] using h
  | declaration pos dataType names rest ih =>
    intro s t h
    obtain ⟨hiff, hlast⟩ := ih (h.declareAll pos dataType names)
    refine ⟨?_, hlast⟩
    simp only [Stmt.warningsList, Stmt.warnings, Stmt.TranslatableList, Stmt.Translatable, Stmt.declared,
      List.forall_mem_append, hiff, true_and, and_iff_right_iff_imp]
    exact fun _ => s.harmless_declareAll pos names
  | assignment pos target value rest ih =>
    intro s t h
    obtain ⟨hiff, hlast⟩ := ih h
    refine ⟨?_, hlast⟩
    simp only [Stmt.warningsList, Stmt.warnings, Stmt.TranslatableList, Stmt.Translatable, Stmt.declared,
      List.forall_mem_append, hiff, value.harmless_warnings_iff h, Scope.harmless_use_iff h]
  | output pos value rest ih =>
    intro s t h
    obtain ⟨hiff, hlast⟩ := ih h
    refine ⟨?_, hlast⟩
    simp only [Stmt.warningsList, Stmt.warnings, Stmt.TranslatableList, Stmt.Translatable, Stmt.declared,
      List.forall_mem_append, hiff, value.harmless_warnings_iff h]
  | loop pos condition body rest ihbody ih =>
    intro s t h
    obtain ⟨hbody, hmiddle⟩ := ihbody h
    obtain ⟨hiff, hlast⟩ := ih hmiddle
    refine ⟨?_, hlast⟩
    simp only [Stmt.warningsList, Stmt.warnings, Stmt.TranslatableList, Stmt.Translatable, Stmt.declared,
      List.forall_mem_append, hbody, hiff, condition.harmless_warnings_iff h]

theorem harmless_analyze_iff (arithmetic : Bool) (base : Int64) (stmts : List Stmt) :
    (∀ w ∈ analyze arithmetic stmts, w.Harmless) ↔
      Stmt.TranslatableList arithmetic { base := base } stmts :=
  (Stmt.harmless_warningsList_iff stmts (fun _ => rfl)).1

end RatLang
