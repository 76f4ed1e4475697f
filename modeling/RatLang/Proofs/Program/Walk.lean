import RatLang.Proofs.Program.Machine
import RatLang.Proofs.Statement.Warning

/-!
# The order of translation

Translation walks a program from its first statement to its last and into the body of every loop. What it
visits on the way are declared names, values, operators and used names. A moment of the walk is a visit together
with those before it. Here the first fault of a program and the instructions that it emits for names are read off
the moments of its walk (`Stmt.faultList?_eq`, `Stmt.accesses_emittedList`).
-/
namespace RatLang

/-- The declaration of one name by the statement at a position. -/
structure Declaring where
  pos : Position
  name : Text
  type : Text
  deriving DecidableEq

/-- The use of a name at a position, with the operation that it is translated to. -/
structure Use where
  pos : Position
  name : Text
  op : Opcode
  deriving DecidableEq

/-- What translation visits. -/
inductive Visit where
  | declare (d : Declaring)
  /-- The value of an assignment or of an output, or the condition of a loop. -/
  | value (e : Expr)
  | operator (pos : Position) (operator : Text)
  | use (u : Use)

/-- The visits of an expression. Without arithmetic an operator hides its operands. -/
def Expr.walk (arithmetic : Bool) : Expr → List Visit
  | .literal .. => []
  | .identifier pos name => [.use ⟨pos, name, .pushm⟩]
  | .binary pos operator left right =>
    if arithmetic then .operator pos operator :: (left.walk arithmetic ++ right.walk arithmetic) else []

mutual

/-- The visits of a statement. The target of an assignment comes after its value. -/
def Stmt.walk (arithmetic : Bool) : Stmt → List Visit
  | .declaration pos dataType names => names.map fun name => .declare ⟨pos, name, dataType⟩
  | .assignment pos target value => .value value :: (value.walk arithmetic ++ [.use ⟨pos, target, .popm⟩])
  | .output _ value => .value value :: value.walk arithmetic
  | .loop _ condition body => .value condition :: (condition.walk arithmetic ++ Stmt.walkList arithmetic body)

/-- The visits of a list of statements. -/
def Stmt.walkList (arithmetic : Bool) : List Stmt → List Visit
  | [] => []
  | s :: rest => s.walk arithmetic ++ Stmt.walkList arithmetic rest

end

/-- A visit and those before it. -/
structure Moment where
  before : List Visit
  visit : Visit

/-- The moments of a walk that continues `before`. -/
def moments (before : List Visit) : List Visit → List Moment
  | [] => []
  | e :: rest => ⟨before, e⟩ :: moments (before ++ [e]) rest

theorem moments_append (before a b : List Visit) :
    moments before (a ++ b) = moments before a ++ moments (before ++ a) b := by
  induction a generalizing before with
  | nil => simp [moments]
  | cons e a ih => simp [moments, ih]

theorem exists_of_mem_moments {before walk : List Visit} {m : Moment} (h : m ∈ moments before walk) :
    ∃ rest, before ++ walk = m.before ++ m.visit :: rest := by
  induction walk generalizing before with
  | nil => cases h
  | cons v walk ih =>
    rcases List.mem_cons.1 h with rfl | h
    · exact ⟨walk, rfl⟩
    · obtain ⟨rest, hrest⟩ := ih h
      exact ⟨rest, by rw [← hrest, List.append_assoc, List.singleton_append]⟩

/-- What the moments of a walk yield, in order. -/
def gather {α : Type} (f : Moment → Option α) (before walk : List Visit) : List α := (moments before walk).filterMap f

section

variable {α : Type} (f : Moment → Option α) (before rest : List Visit)

@[simp]
theorem gather_nil : gather f before [] = [] := rfl

@[simp]
theorem gather_cons (v : Visit) :
    gather f before (v :: rest) = (f ⟨before, v⟩).toList ++ gather f (before ++ [v]) rest := by
  rw [gather, moments, List.filterMap_cons]
  cases f ⟨before, v⟩ with
  | none => rfl
  | some a => rfl

@[simp]
theorem gather_append (walk : List Visit) :
    gather f before (walk ++ rest) = gather f before walk ++ gather f (before ++ walk) rest := by
  rw [gather, moments_append, List.filterMap_append]
  rfl

end

theorem gather_visit {α : Type} (f : Visit → Option α) (before walk : List Visit) :
    gather (fun m => f m.visit) before walk = walk.filterMap f := by
  induction walk generalizing before with
  | nil => rfl
  | cons v walk ih =>
    rw [gather_cons, ih, List.filterMap_cons]
    cases f v with
    | none => rfl
    | some a => rfl

/-! ### The symbols -/

/-- The declarations among the visits. -/
def declarings (walk : List Visit) : List Declaring :=
  walk.filterMap fun
    | .declare d => some d
    | .value _ | .operator .. | .use _ => none

section

variable (walk : List Visit)

@[simp]
theorem declarings_nil : declarings [] = [] := rfl

@[simp]
theorem declarings_append (rest : List Visit) : declarings (walk ++ rest) = declarings walk ++ declarings rest :=
  List.filterMap_append

@[simp]
theorem declarings_declare (d : Declaring) : declarings (.declare d :: walk) = d :: declarings walk := rfl

@[simp]
theorem declarings_value (e : Expr) : declarings (.value e :: walk) = declarings walk := rfl

@[simp]
theorem declarings_operator (pos : Position) (operator : Text) :
    declarings (.operator pos operator :: walk) = declarings walk := rfl

@[simp]
theorem declarings_use (u : Use) : declarings (.use u :: walk) = declarings walk := rfl

end

@[simp]
theorem declarings_map (pos : Position) (type : Text) (names : List Text) :
    declarings (names.map fun name => .declare ⟨pos, name, type⟩) = names.map fun name => ⟨pos, name, type⟩ := by
  simp [declarings, List.filterMap_map]

/-- No expression declares a name. -/
@[simp]
theorem Expr.declarings_walk (arithmetic : Bool) (e : Expr) : declarings (e.walk arithmetic) = [] := by
  induction e with
  | literal | identifier => rfl
  | binary pos operator left right ihl ihr =>
    unfold Expr.walk
    split
    · simp [ihl, ihr]
    · rfl

/-- The table with the declarations of a walk. -/
def tableAfter (base : Int64) (walk : List Visit) : SymbolTable :=
  (declarings walk).foldl (fun t d => t.declare d.name d.type) { base }

theorem tableAfter_concat_declare (base : Int64) (walk : List Visit) (d : Declaring) :
    tableAfter base (walk ++ [.declare d]) = (tableAfter base walk).declare d.name d.type := by
  simp [tableAfter]

/-- The walk declares what generation does. -/
theorem Stmt.tableAfter_walkList (base : Int64) (arithmetic : Bool) (stmts : List Stmt) (before : List Visit) :
    tableAfter base (before ++ Stmt.walkList arithmetic stmts) = Stmt.declaredList (tableAfter base before) stmts := by
  induction stmts using Stmt.list_induction generalizing before with
  | nil => simp [Stmt.walkList, Stmt.declaredList]
  | declaration pos dataType names rest ih =>
    rw [Stmt.walkList, ← List.append_assoc, ih]
    simp [Stmt.walk, Stmt.declaredList, Stmt.declared, tableAfter, SymbolTable.declareAll, List.foldl_map]
  | assignment pos target value rest ih =>
    rw [Stmt.walkList, ← List.append_assoc, ih]
    simp [Stmt.walk, Stmt.declaredList, Stmt.declared, tableAfter]
  | output pos value rest ih =>
    rw [Stmt.walkList, ← List.append_assoc, ih]
    simp [Stmt.walk, Stmt.declaredList, Stmt.declared, tableAfter]
  | loop pos condition body rest ihbody ih =>
    rw [Stmt.walkList, ← List.append_assoc, ih, Stmt.walk, List.append_cons, ← List.append_assoc, ihbody]
    simp [Stmt.declaredList, Stmt.declared, tableAfter]

theorem Stmt.tableAfter_walk (base : Int64) (arithmetic : Bool) (s : Stmt) (before : List Visit) :
    tableAfter base (before ++ s.walk arithmetic) = s.declared (tableAfter base before) := by
  have h := Stmt.tableAfter_walkList base arithmetic [s] before
  simpa [Stmt.walkList, Stmt.declaredList] using h

/-- What holds of the declarations before a walk and their table, and is kept by one more declaration, holds after the
walk. -/
theorem tableAfter_induction {P : List Declaring → SymbolTable → Prop} {base : Int64} (before : List Visit)
    (hbefore : P (declarings before) (tableAfter base before))
    (hdeclare : ∀ ds t d, P ds t → P (ds ++ [d]) (t.declare d.name d.type)) (walk : List Visit) :
    P (declarings (before ++ walk)) (tableAfter base (before ++ walk)) := by
  rw [tableAfter, declarings_append, List.foldl_append, ← tableAfter]
  generalize declarings before = ds at hbefore ⊢
  generalize tableAfter base before = t at hbefore ⊢
  induction declarings walk generalizing ds t with
  | nil => rwa [List.append_nil]
  | cons d rest ih =>
    rw [List.append_cons]
    exact ih _ _ (hdeclare ds t d hbefore)

/-- Symbols stay where they are. -/
theorem prefix_tableAfter (base : Int64) (a b : List Visit) :
    (tableAfter base a).entries <+: (tableAfter base (a ++ b)).entries :=
  tableAfter_induction (P := fun _ t => (tableAfter base a).entries <+: t.entries) a List.prefix_rfl
    (fun _ t d h => h.trans (t.prefix_declare d.name d.type)) b

/-- The table knows the names that were declared. -/
theorem lookup_tableAfter (base : Int64) (walk : List Visit) (name : Text) :
    ((tableAfter base walk).lookup name).isSome = (declarings walk).any fun d => d.name = name := by
  refine tableAfter_induction (P := fun ds t => (t.lookup name).isSome = ds.any fun d => d.name = name) [] rfl ?_ walk
  intro ds t d h
  rw [SymbolTable.lookup_declare, h, List.any_append, List.any_cons, List.any_nil, Bool.or_false]

/-! ### The first fault -/

namespace Moment

/-- The fault of a moment: an operator without instruction, or in strict mode a name that was not declared. -/
def fault? (opts : Options) (m : Moment) : Option CompileError :=
  match m.visit with
  | .operator pos operator =>
    if (Opcode.ofOperator? operator).isNone then some (.unknownOperator operator pos) else none
  | .use u => (tableAfter opts.base m.before).fault? opts u.name u.pos
  | .declare _ | .value _ => none

theorem fault?_use {opts : Options} {t : SymbolTable} {before : List Visit} (h : tableAfter opts.base before = t)
    (u : Use) : fault? opts ⟨before, .use u⟩ = t.fault? opts u.name u.pos := by
  subst h
  rfl

end Moment

theorem Expr.fault?_eq {opts : Options} {t : SymbolTable} (e : Expr) (before : List Visit)
    (hbefore : tableAfter opts.base before = t) :
    e.fault? opts t = (gather (Moment.fault? opts) before (e.walk opts.arithmetic)).head? := by
  induction e generalizing before with
  | literal => rfl
  | identifier pos name => simp [Expr.fault?, Expr.walk, Moment.fault?, hbefore]
  | binary pos operator left right ihl ihr =>
    unfold Expr.fault? Expr.walk
    split
    · have hleft := ihl (before ++ [.operator pos operator]) (by simpa [tableAfter] using hbefore)
      have hright := ihr (before ++ [.operator pos operator] ++ left.walk opts.arithmetic)
        (by simpa [tableAfter] using hbefore)
      rw [gather_cons, gather_append, List.head?_append, List.head?_append, ← hleft, ← hright]
      cases hop : Opcode.ofOperator? operator with
      | none => simp [Moment.fault?, hop]
      | some op => simp [Moment.fault?, hop]
    · rfl

theorem gather_fault?_declarations (opts : Options) (pos : Position) (type : Text) (names : List Text)
    (before : List Visit) :
    gather (Moment.fault? opts) before (names.map fun name => .declare ⟨pos, name, type⟩) = [] := by
  induction names generalizing before with
  | nil => rfl
  | cons name names ih => simp [Moment.fault?, ih]

/-- **The first fault** of a program is that of the first moment that has one. -/
theorem Stmt.faultList?_eq {opts : Options} {t : SymbolTable} (stmts : List Stmt) (before : List Visit)
    (hbefore : tableAfter opts.base before = t) :
    Stmt.faultList? opts t stmts =
      (gather (Moment.fault? opts) before (Stmt.walkList opts.arithmetic stmts)).head? := by
  -- what carries the induction: the table in front of a statement is that of the visits before it
  induction stmts using Stmt.list_induction generalizing before t with
  | nil => rfl
  | declaration pos dataType names rest ih =>
    have hrest := ih _ (Stmt.tableAfter_walk opts.base opts.arithmetic (.declaration pos dataType names) before)
    rw [Stmt.walkList, gather_append, List.head?_append, ← hrest, hbefore, Stmt.walk, gather_fault?_declarations]
    rfl
  | assignment pos target value rest ih =>
    have hrest := ih _ (Stmt.tableAfter_walk opts.base opts.arithmetic (.assignment pos target value) before)
    have hvalue := value.fault?_eq (before ++ [.value value]) (by simpa [tableAfter] using hbefore)
    have htarget : tableAfter opts.base (before ++ [.value value] ++ value.walk opts.arithmetic) = t := by
      simpa [tableAfter] using hbefore
    rw [Stmt.walkList, gather_append, List.head?_append, ← hrest, hbefore, Stmt.walk, gather_cons, gather_append,
      gather_cons, List.head?_append, List.head?_append, ← hvalue, Moment.fault?_use htarget]
    simp [Stmt.faultList?, Stmt.fault?, Moment.fault?]
  | output pos value rest ih =>
    have hrest := ih _ (Stmt.tableAfter_walk opts.base opts.arithmetic (.output pos value) before)
    have hvalue := value.fault?_eq (before ++ [.value value]) (by simpa [tableAfter] using hbefore)
    rw [Stmt.walkList, gather_append, List.head?_append, ← hrest, hbefore, Stmt.walk, gather_cons, List.head?_append,
      ← hvalue]
    simp [Stmt.faultList?, Stmt.fault?, Moment.fault?]
  | loop pos condition body rest ihbody ih =>
    have hrest := ih _ (Stmt.tableAfter_walk opts.base opts.arithmetic (.loop pos condition body) before)
    have htest := condition.fault?_eq (before ++ [.value condition]) (by simpa [tableAfter] using hbefore)
    have hinner := ihbody (before ++ [.value condition] ++ condition.walk opts.arithmetic)
      (by simpa [tableAfter] using hbefore)
    rw [Stmt.walkList, gather_append, List.head?_append, ← hrest, hbefore, Stmt.walk, gather_cons, gather_append,
      List.head?_append, List.head?_append, ← htest, ← hinner]
    simp [Stmt.faultList?, Stmt.fault?, Moment.fault?]

/-- The same from the start. -/
theorem Stmt.faultList?_initial (opts : Options) (stmts : List Stmt) :
    Stmt.faultList? opts { base := opts.base } stmts =
      (gather (Moment.fault? opts) [] (Stmt.walkList opts.arithmetic stmts)).head? :=
  Stmt.faultList?_eq stmts [] rfl

/-! ### The instructions of names -/

/-- The operation reads or writes the memory. -/
def Opcode.isAccess (op : Opcode) : Bool := op = .pushm ∨ op = .popm

theorem Opcode.not_isAccess_of_operator {operator : Text} {op : Opcode} (h : Opcode.ofOperator? operator = some op) :
    op.isAccess = false := by
  have hall : ∀ op ∈ Opcode.operators, op.isAccess = false := by decide
  exact hall op (Opcode.mem_operators h)

/-- The accesses of a piece of code, each with its operation and its operand. -/
def Code.accesses (code : Code) : List (Opcode × Option Int) :=
  (code.filter (·.op.isAccess)).map fun i => (i.op, i.operand)

@[simp]
theorem Code.accesses_nil : Code.accesses [] = [] := rfl

@[simp]
theorem Code.accesses_append (a b : Code) : Code.accesses (a ++ b) = a.accesses ++ b.accesses := by
  simp [Code.accesses]

@[simp]
theorem Code.accesses_cons (i : Instruction) (code : Code) :
    Code.accesses (i :: code) = if i.op.isAccess then (i.op, i.operand) :: code.accesses else code.accesses := by
  cases h : i.op.isAccess with
  | true => simp [Code.accesses, h]
  | false => simp [Code.accesses, h]

/-- The use at a moment with the address that its name has then. -/
def Moment.access? (base : Int64) (m : Moment) : Option (Use × Option Int) :=
  match m.visit with
  | .use u => some (u, (tableAfter base m.before).address? u.name)
  | .declare _ | .value _ | .operator .. => none

/-- The accesses that a walk calls for. -/
def calls (base : Int64) (before walk : List Visit) : List (Opcode × Option Int) :=
  (gather (Moment.access? base) before walk).map fun a => (a.1.op, a.2)

section

variable (base : Int64) (before rest : List Visit)

@[simp]
theorem calls_nil : calls base before [] = [] := rfl

@[simp]
theorem calls_append (walk : List Visit) :
    calls base before (walk ++ rest) = calls base before walk ++ calls base (before ++ walk) rest := by
  simp [calls]

@[simp]
theorem calls_value (e : Expr) : calls base before (.value e :: rest) = calls base (before ++ [.value e]) rest := rfl

@[simp]
theorem calls_operator (pos : Position) (operator : Text) :
    calls base before (.operator pos operator :: rest) = calls base (before ++ [.operator pos operator]) rest := rfl

@[simp]
theorem calls_use (u : Use) :
    calls base before (.use u :: rest) =
      (u.op, (tableAfter base before).address? u.name) :: calls base (before ++ [.use u]) rest := rfl

@[simp]
theorem calls_declarations (pos : Position) (type : Text) (names : List Text) :
    calls base before (names.map fun name => .declare ⟨pos, name, type⟩) = [] := by
  induction names generalizing before with
  | nil => rfl
  | cons name names ih => exact ih _

end

theorem Expr.accesses_emitted {opts : Options} {t : SymbolTable} (e : Expr) (h : e.fault? opts t = none)
    (before : List Visit) (hbefore : tableAfter opts.base before = t) (n : Nat) :
    (e.emitted opts.arithmetic t n).accesses = calls opts.base before (e.walk opts.arithmetic) := by
  induction e generalizing before n with
  | literal => rfl
  | identifier pos name => simp [Expr.emitted, Expr.walk, Opcode.isAccess, hbefore]
  | binary pos operator left right ihl ihr =>
    cases ha : opts.arithmetic with
    | false => simp [Expr.emitted, Expr.walk]
    | true =>
      -- without a fault the operator has an instruction, and so both operands are emitted
      obtain ⟨op, hop, hl, hr⟩ := Expr.operator_of_fault? ha h
      rw [ha] at ihl ihr
      have hleft := ihl hl (before ++ [.operator pos operator]) (by simpa [tableAfter] using hbefore)
      have hright := ihr hr (before ++ [.operator pos operator] ++ left.walk true)
        (by simpa [tableAfter] using hbefore)
      simp [Expr.emitted, Expr.walk, hop, Opcode.not_isAccess_of_operator hop, hleft, hright]

/-- A statement followed by others. -/
theorem Stmt.accesses_cons {opts : Options} {t : SymbolTable} {s : Stmt} {rest : List Stmt} {before : List Visit}
    {n : Nat} (hs : (s.emitted opts.arithmetic t n).accesses = calls opts.base before (s.walk opts.arithmetic))
    (hrest : ∀ n, (Stmt.emittedList opts.arithmetic (s.declared t) n rest).accesses =
      calls opts.base (before ++ s.walk opts.arithmetic) (Stmt.walkList opts.arithmetic rest)) :
    (Stmt.emittedList opts.arithmetic t n (s :: rest)).accesses =
      calls opts.base before (Stmt.walkList opts.arithmetic (s :: rest)) := by
  simp only [Stmt.emittedList, Stmt.walkList, Code.accesses_append, calls_append, hs, hrest]

/-- **The accesses** of a program are those that its walk calls for. -/
theorem Stmt.accesses_emittedList {opts : Options} {t : SymbolTable} (stmts : List Stmt)
    (h : Stmt.faultList? opts t stmts = none) (before : List Visit) (hbefore : tableAfter opts.base before = t)
    (n : Nat) :
    (Stmt.emittedList opts.arithmetic t n stmts).accesses =
      calls opts.base before (Stmt.walkList opts.arithmetic stmts) := by
  induction stmts using Stmt.list_induction generalizing t before n with
  | nil => rfl
  | declaration pos dataType names rest ih =>
    refine Stmt.accesses_cons ?_ (ih h _ (by rw [Stmt.tableAfter_walk, hbefore]))
    rw [Stmt.walk, calls_declarations]
    rfl
  | assignment pos target value rest ih =>
    simp only [Stmt.faultList?, Stmt.fault?, Option.orElse_eq_orElse, Option.orElse_eq_or, Option.or_eq_none_iff] at h
    refine Stmt.accesses_cons ?_ (ih h.2 _ (by rw [Stmt.tableAfter_walk, hbefore]))
    have hvalue := value.accesses_emitted h.1.1 (before ++ [.value value]) (by simpa [tableAfter] using hbefore) n
    have htarget : tableAfter opts.base (before ++ [.value value] ++ value.walk opts.arithmetic) = t := by
      simpa [tableAfter] using hbefore
    rw [Stmt.walk, calls_value, calls_append, ← hvalue, calls_use, htarget]
    simp [Stmt.emitted, Opcode.isAccess]
  | output pos value rest ih =>
    simp only [Stmt.faultList?, Stmt.fault?, Option.orElse_eq_orElse, Option.orElse_eq_or, Option.or_eq_none_iff] at h
    refine Stmt.accesses_cons ?_ (ih h.2 _ (by rw [Stmt.tableAfter_walk, hbefore]))
    have hvalue := value.accesses_emitted h.1 (before ++ [.value value]) (by simpa [tableAfter] using hbefore) n
    rw [Stmt.walk, calls_value, ← hvalue]
    simp [Stmt.emitted, Opcode.isAccess]
  | loop pos condition body rest ihbody ih =>
    simp only [Stmt.faultList?, Stmt.fault?, Option.orElse_eq_orElse, Option.orElse_eq_or, Option.or_eq_none_iff] at h
    refine Stmt.accesses_cons ?_ (ih h.2 _ (by rw [Stmt.tableAfter_walk, hbefore]))
    have htest := condition.accesses_emitted h.1.1 (before ++ [.value condition])
      (by simpa [tableAfter] using hbefore) n
    have hinner := ihbody h.1.2 (before ++ [.value condition] ++ condition.walk opts.arithmetic)
      (by simpa [tableAfter] using hbefore)
    simp only [Stmt.emitted, Stmt.walk, Code.accesses_append, htest, hinner]
    simp [Opcode.isAccess]

end RatLang
