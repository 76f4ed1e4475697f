import RatLang.Proofs.Program.Placement
import RatLang.Proofs.Program.Symbols

/-!
# Statements in their place

Facts about compiled code are proved for statements whose code stands anywhere in a larger code, under
the table `T` that the whole program ends with. `Placed` says that statements stand so, and takes a list
apart statement by statement; a compiled program stands at index 1 (`placed_of_compile`).
-/
namespace RatLang

/-- The statements are free of faults with the symbols `t`, declare nothing that `T` does not have, and
their code stands at index `n`. -/
structure Placed (code : Code) (opts : Options) (arithmetic : Bool) (T t : SymbolTable) (n : Nat)
    (stmts : List Stmt) : Prop where
  sound : Stmt.faultList? opts t stmts = none
  within : (Stmt.declaredList t stmts).entries <+: T.entries
  held : code.Holds n (Stmt.emittedList arithmetic t n stmts)

/-- The index behind the code of statements. -/
def Stmt.stop (arithmetic : Bool) (t : SymbolTable) (n : Nat) (stmts : List Stmt) : Nat :=
  n + (Stmt.emittedList arithmetic t n stmts).length

namespace Placed

variable {code : Code} {opts : Options} {arithmetic : Bool} {T t : SymbolTable} {n : Nat} {pos : Position}
  {rest : List Stmt}

theorem prefix_table {stmts : List Stmt} (h : Placed code opts arithmetic T t n stmts) : t.entries <+: T.entries :=
  (Stmt.prefix_declaredList stmts t).trans h.within

theorem declaration {dataType : Text} {names : List Text}
    (h : Placed code opts arithmetic T t n (.declaration pos dataType names :: rest)) :
    Placed code opts arithmetic T (t.declareAll names dataType) n rest := by
  obtain ⟨hf, hT, hcode⟩ := h
  rw [Stmt.emittedList_declaration] at hcode
  refine ⟨?_, ?_, hcode⟩
  · simpa [Stmt.faultList?, Stmt.fault?, Stmt.declared] using hf
  · simpa [Stmt.declaredList, Stmt.declared] using hT

theorem assignment {target : Text} {value : Expr}
    (h : Placed code opts arithmetic T t n (.assignment pos target value :: rest)) :
    value.fault? opts t = none ∧ t.fault? opts target pos = none ∧ code.Holds n (value.emitted arithmetic t n) ∧
      code.at? (n + (value.emitted arithmetic t n).length : Nat) =
        some ⟨(n + (value.emitted arithmetic t n).length : Nat), .popm, t.address? target⟩ ∧
      Placed code opts arithmetic T t (n + (value.emitted arithmetic t n).length + 1) rest := by
  obtain ⟨hf, hT, hcode⟩ := h
  simp only [Stmt.emittedList_assignment, Code.holds_append, Code.holds_cons] at hcode
  simp [Stmt.faultList?, Stmt.fault?, Stmt.declared] at hf
  simp only [Stmt.declaredList, Stmt.declared] at hT
  exact ⟨hf.1.1, hf.1.2, hcode.1, hcode.2.1, hf.2, hT, hcode.2.2⟩

theorem output {value : Expr} (h : Placed code opts arithmetic T t n (.output pos value :: rest)) :
    value.fault? opts t = none ∧ code.Holds n (value.emitted arithmetic t n) ∧
      code.at? (n + (value.emitted arithmetic t n).length : Nat) =
        some ⟨(n + (value.emitted arithmetic t n).length : Nat), .stdout, none⟩ ∧
      Placed code opts arithmetic T t (n + (value.emitted arithmetic t n).length + 1) rest := by
  obtain ⟨hf, hT, hcode⟩ := h
  simp only [Stmt.emittedList_output, Code.holds_append, Code.holds_cons] at hcode
  simp [Stmt.faultList?, Stmt.fault?, Stmt.declared] at hf
  simp only [Stmt.declaredList, Stmt.declared] at hT
  exact ⟨hf.1, hcode.1, hcode.2.1, hf.2, hT, hcode.2.2⟩

theorem loop {condition : Expr} {body : List Stmt}
    (h : Placed code opts arithmetic T t n (.loop pos condition body :: rest)) :
    let test := condition.emitted arithmetic t n
    let back := Stmt.stop arithmetic t (n + test.length + 1) body
    condition.fault? opts t = none ∧ code.Holds n test ∧
      code.at? (n + test.length : Nat) = some ⟨(n + test.length : Nat), .jumpz, some (back + 1 : Nat)⟩ ∧
      Placed code opts arithmetic T t (n + test.length + 1) body ∧
      code.at? back = some ⟨back, .jump, some n⟩ ∧
      Placed code opts arithmetic T (Stmt.declaredList t body) (back + 1) rest := by
  obtain ⟨hf, hT, hcode⟩ := h
  simp only [Stmt.emittedList_loop, Code.holds_append, Code.holds_cons] at hcode
  simp [Stmt.faultList?, Stmt.fault?, Stmt.declared] at hf
  simp only [Stmt.declaredList, Stmt.declared] at hT
  obtain ⟨htest, hjumpz, hbody, hjump, hrest⟩ := hcode
  have hTbody := (Stmt.prefix_declaredList rest (Stmt.declaredList t body)).trans hT
  exact ⟨hf.1.1, htest, hjumpz, ⟨hf.1.2, hTbody, hbody⟩, hjump, hf.2, hT, hrest⟩

end Placed

section

variable (arithmetic : Bool) (t : SymbolTable) (n : Nat) (pos : Position) (rest : List Stmt)

theorem Stmt.stop_nil : Stmt.stop arithmetic t n [] = n := by simp [Stmt.stop, Stmt.emittedList]

theorem Stmt.stop_declaration (dataType : Text) (names : List Text) :
    Stmt.stop arithmetic t n (.declaration pos dataType names :: rest) =
      Stmt.stop arithmetic (t.declareAll names dataType) n rest := by
  simp [Stmt.stop, Stmt.emittedList_declaration]

theorem Stmt.stop_assignment (target : Text) (value : Expr) :
    Stmt.stop arithmetic t n (.assignment pos target value :: rest) =
      Stmt.stop arithmetic t (n + (value.emitted arithmetic t n).length + 1) rest := by
  simp [Stmt.stop, Stmt.emittedList_assignment]
  omega

theorem Stmt.stop_output (value : Expr) :
    Stmt.stop arithmetic t n (.output pos value :: rest) =
      Stmt.stop arithmetic t (n + (value.emitted arithmetic t n).length + 1) rest := by
  simp [Stmt.stop, Stmt.emittedList_output]
  omega

theorem Stmt.stop_loop (condition : Expr) (body : List Stmt) :
    Stmt.stop arithmetic t n (.loop pos condition body :: rest) =
      Stmt.stop arithmetic (Stmt.declaredList t body)
        (Stmt.stop arithmetic t (n + (condition.emitted arithmetic t n).length + 1) body + 1) rest := by
  simp [Stmt.stop, Stmt.emittedList_loop]
  omega

end

/-- The code of a compiled program stands at index 1, with the symbols of the program. -/
theorem placed_of_compile {opts : Options} {stmts : List Stmt} {p : Program} (h : compile opts stmts = .ok p) :
    ∃ T : SymbolTable, T.WellFormed ∧ p.symbols = T.entries ∧
      Placed p.code opts opts.arithmetic T { base := opts.base } 1 stmts ∧
      Stmt.stop opts.arithmetic { base := opts.base } 1 stmts = p.code.length + 1 := by
  obtain ⟨hf, hsymbols, hcode⟩ := compile_eq_ok_iff.1 h
  refine ⟨Stmt.declaredList { base := opts.base } stmts,
    Stmt.wellFormed_declaredList stmts (SymbolTable.wellFormed_empty _), hsymbols,
    ⟨hf, List.prefix_rfl, ?_⟩, ?_⟩
  · rw [← hcode]
    exact Code.holds_self p.code
  · rw [Stmt.stop, ← hcode]
    omega

end RatLang
