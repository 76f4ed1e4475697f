import Mathlib.Data.List.Forall2
import RatLang.Proofs.Program.Walk

/-!
# Findings

The analysis reports what translation accepts silently. It goes through a program in the order of translation, with
a scope in the place of the symbol table, and both know the same names at every moment (`agrees_after`). Main
statement: of a translated program it reports every access without address, every declaration that adds no symbol and
every value without instructions, and nothing else (`analyze_reports`).
-/
namespace RatLang

/-! ## The walk of the analysis -/

/-- The scope with the declarations of a walk. -/
def scopeAfter (walk : List Visit) : Scope := (declarings walk).foldl (fun s d => s.declare d.name d.pos) {}

theorem Scope.lookup_declare_eq (s : Scope) (name other : Text) (pos : Position) :
    (s.declare name pos).lookup other = (s.lookup other).or (if name = other then some pos else none) := by
  unfold Scope.declare
  by_cases hknown : (s.lookup name).isSome
  · rw [if_pos hknown]
    by_cases hname : name = other
    · subst hname
      rw [Option.or_of_isSome hknown]
    · simp [hname]
  · rw [if_neg hknown]
    simp only [Scope.lookup, List.find?_append, Option.map_or]
    by_cases hname : name = other
    · simp [hname]
    · simp [hname]

/-- The scope knows every name by its first declaration. -/
theorem lookup_scopeAfter (walk : List Visit) (name : Text) :
    (scopeAfter walk).lookup name = ((declarings walk).find? (·.name = name)).map (·.pos) := by
  have hrun : ∀ (ds : List Declaring) (s : Scope),
      (ds.foldl (fun s d => s.declare d.name d.pos) s).lookup name =
        ((s.lookup name).or ((ds.find? (·.name = name)).map (·.pos))) := by
    intro ds
    induction ds with
    | nil => simp
    | cons d ds ih =>
      intro s
      rw [List.foldl_cons, ih, Scope.lookup_declare_eq, Option.or_assoc, List.find?_cons]
      by_cases hname : d.name = name
      · simp [hname]
      · simp [hname]
  rw [scopeAfter, hrun]
  rfl

/-- The warning about a value. -/
def Expr.untranslated? (arithmetic : Bool) : Expr → Option Warning
  | .binary pos operator _ _ => if arithmetic then none else some (.untranslated pos operator)
  | .literal .. | .identifier .. => none

/-- The warning at a moment of the walk. -/
def Moment.warning? (arithmetic : Bool) (m : Moment) : Option Warning :=
  match m.visit with
  | .declare d => ((scopeAfter m.before).lookup d.name).map (.redeclared d.pos d.name)
  | .value e => e.untranslated? arithmetic
  | .operator .. => none
  | .use u => if ((scopeAfter m.before).lookup u.name).isSome then none else some (.undeclared u.pos u.name)

theorem Moment.warning?_use {arithmetic : Bool} {s : Scope} {before : List Visit} (h : scopeAfter before = s)
    (u : Use) : (warning? arithmetic ⟨before, .use u⟩).toList = s.use u.name u.pos := by
  subst h
  simp only [Moment.warning?, Scope.use]
  split
  · rfl
  · rfl

theorem Expr.untranslated?_arithmetic (e : Expr) : e.untranslated? true = none := by
  cases e with
  | literal | identifier | binary => rfl

theorem Expr.warnings_eq (arithmetic : Bool) {s : Scope} (e : Expr) (before : List Visit)
    (hbefore : scopeAfter before = s) :
    e.warnings arithmetic s =
      (e.untranslated? arithmetic).toList ++ gather (Moment.warning? arithmetic) before (e.walk arithmetic) := by
  induction e generalizing before with
  | literal => rfl
  | identifier pos name => simp [Expr.warnings, Expr.walk, Expr.untranslated?, Moment.warning?_use hbefore]
  | binary pos operator left right ihl ihr =>
    cases arithmetic with
    | false => simp [Expr.warnings, Expr.walk, Expr.untranslated?]
    | true =>
      -- with arithmetic no expression is untranslated, so the operands add nothing but their walks
      have hleft := ihl (before ++ [.operator pos operator]) (by simpa [scopeAfter] using hbefore)
      have hright := ihr (before ++ [.operator pos operator] ++ left.walk true) (by simpa [scopeAfter] using hbefore)
      rw [Expr.untranslated?_arithmetic] at hleft hright
      simp [Expr.warnings, Expr.walk, Expr.untranslated?, hleft, hright, Moment.warning?]

theorem Scope.declareAll_eq {arithmetic : Bool} {s : Scope} (pos : Position) (type : Text) (names : List Text)
    (before : List Visit) (hbefore : scopeAfter before = s) :
    s.declareAll pos names =
      (scopeAfter (before ++ names.map fun name => .declare ⟨pos, name, type⟩),
        gather (Moment.warning? arithmetic) before (names.map fun name => .declare ⟨pos, name, type⟩)) := by
  induction names generalizing s before with
  | nil => simp [Scope.declareAll, hbefore]
  | cons name names ih =>
    have hrest := ih (before ++ [.declare ⟨pos, name, type⟩]) rfl
    have hnext : scopeAfter (before ++ [.declare ⟨pos, name, type⟩]) = s.declare name pos := by
      simp [scopeAfter, ← hbefore]
    rw [hnext] at hrest
    unfold Scope.declareAll
    rw [hrest]
    cases hs : s.lookup name with
    | none => simp [Moment.warning?, hbefore, hs]
    | some first => simp [Moment.warning?, hbefore, hs]

theorem Stmt.warnings_cons {arithmetic : Bool} {s : Scope} {stmt : Stmt} {rest : List Stmt} {before : List Visit}
    (hstmt : stmt.warnings arithmetic s =
      (scopeAfter (before ++ stmt.walk arithmetic), gather (Moment.warning? arithmetic) before (stmt.walk arithmetic)))
    (hrest : Stmt.warningsList arithmetic (scopeAfter (before ++ stmt.walk arithmetic)) rest =
      (scopeAfter (before ++ stmt.walk arithmetic ++ Stmt.walkList arithmetic rest),
        gather (Moment.warning? arithmetic) (before ++ stmt.walk arithmetic) (Stmt.walkList arithmetic rest))) :
    Stmt.warningsList arithmetic s (stmt :: rest) =
      (scopeAfter (before ++ Stmt.walkList arithmetic (stmt :: rest)),
        gather (Moment.warning? arithmetic) before (Stmt.walkList arithmetic (stmt :: rest))) := by
  simp only [Stmt.warningsList, hstmt, hrest, Stmt.walkList, gather_append, List.append_assoc]

/-- **The warnings** of a program are those of the moments of its walk. -/
theorem Stmt.warningsList_eq {arithmetic : Bool} {s : Scope} (stmts : List Stmt) (before : List Visit)
    (hbefore : scopeAfter before = s) :
    Stmt.warningsList arithmetic s stmts =
      (scopeAfter (before ++ Stmt.walkList arithmetic stmts),
        gather (Moment.warning? arithmetic) before (Stmt.walkList arithmetic stmts)) := by
  induction stmts using Stmt.list_induction generalizing before s with
  | nil => simp [Stmt.warningsList, Stmt.walkList, hbefore]
  | declaration pos dataType names rest ih =>
    exact Stmt.warnings_cons (Scope.declareAll_eq pos dataType names before hbefore) (ih _ rfl)
  | assignment pos target value rest ih =>
    refine Stmt.warnings_cons ?_ (ih _ rfl)
    have hvalue := value.warnings_eq arithmetic (before ++ [.value value]) (by simpa [scopeAfter] using hbefore)
    have htarget : scopeAfter (before ++ [.value value] ++ value.walk arithmetic) = s := by
      simpa [scopeAfter] using hbefore
    rw [Stmt.warnings, Stmt.walk, gather_cons, gather_append, gather_cons, Moment.warning?_use htarget, hvalue]
    simp [scopeAfter, ← hbefore, Moment.warning?]
  | output pos value rest ih =>
    refine Stmt.warnings_cons ?_ (ih _ rfl)
    have hvalue := value.warnings_eq arithmetic (before ++ [.value value]) (by simpa [scopeAfter] using hbefore)
    rw [Stmt.warnings, Stmt.walk, gather_cons, hvalue]
    simp [scopeAfter, ← hbefore, Moment.warning?]
  | loop pos condition body rest ihbody ih =>
    refine Stmt.warnings_cons ?_ (ih _ rfl)
    have htest := condition.warnings_eq arithmetic (before ++ [.value condition]) (by simpa [scopeAfter] using hbefore)
    have hinner := ihbody (before ++ [.value condition] ++ condition.walk arithmetic)
      (by simpa [scopeAfter] using hbefore)
    rw [Stmt.warnings, Stmt.walk, gather_cons, gather_append, htest, hinner]
    simp [Moment.warning?]

theorem analyze_eq (arithmetic : Bool) (stmts : List Stmt) :
    analyze arithmetic stmts = gather (Moment.warning? arithmetic) [] (Stmt.walkList arithmetic stmts) := by
  have hrun : Stmt.warningsList arithmetic {} stmts = _ := Stmt.warningsList_eq stmts [] rfl
  rw [analyze, hrun]

/-- The class of the warnings about a visit. -/
def Visit.warningKind : Visit → Warning.Kind
  | .declare _ => .redeclared
  | .value _ | .operator .. => .untranslated
  | .use _ => .undeclared

theorem Moment.kind_of_warning? {arithmetic : Bool} {m : Moment} {w : Warning} (h : m.warning? arithmetic = some w) :
    w.kind = m.visit.warningKind := by
  obtain ⟨before, visit⟩ := m
  cases visit with
  | declare d =>
    obtain ⟨first, _, rfl⟩ := Option.map_eq_some_iff.1 h
    rfl
  | value e =>
    cases e with
    | literal | identifier => cases h
    | binary pos operator left right =>
      cases arithmetic with
      | true => cases h
      | false =>
        cases h
        rfl
  | operator => cases h
  | use u =>
    simp only [Moment.warning?, Option.ite_none_left_eq_some, Option.some.injEq] at h
    rw [← h.2]
    rfl

/-- The warnings of one class. -/
theorem analyze_filter (arithmetic : Bool) (stmts : List Stmt) (kind : Warning.Kind) :
    (analyze arithmetic stmts).filter (·.kind = kind) =
      gather (fun m => if m.visit.warningKind = kind then m.warning? arithmetic else none) []
        (Stmt.walkList arithmetic stmts) := by
  rw [analyze_eq, gather, List.filter_filterMap]
  refine List.filterMap_congr fun m _ => ?_
  cases hw : m.warning? arithmetic with
  | none => simp
  | some w => simp [Option.filter_some, Moment.kind_of_warning? hw]

/-- Lists that are gathered from one walk correspond if they do so moment by moment. -/
theorem forall₂_gather {α β : Type} {R : α → β → Prop} {f : Moment → Option α} {g : Moment → Option β}
    {before walk : List Visit} (h : ∀ m ∈ moments before walk, Option.Rel R (f m) (g m)) :
    List.Forall₂ R (gather f before walk) (gather g before walk) := by
  induction walk generalizing before with
  | nil => exact List.Forall₂.nil
  | cons v walk ih =>
    have hrest := ih fun m hm => h m (List.mem_cons_of_mem _ hm)
    have hfirst := h ⟨before, v⟩ List.mem_cons_self
    rw [gather_cons, gather_cons]
    cases hf : f ⟨before, v⟩ with
    | none =>
      cases hg : g ⟨before, v⟩ with
      | none => exact hrest
      | some b => rw [hf, hg] at hfirst; cases hfirst
    | some a =>
      cases hg : g ⟨before, v⟩ with
      | none => rw [hf, hg] at hfirst; cases hfirst
      | some b =>
        rw [hf, hg] at hfirst
        cases hfirst with
        | some hab => exact List.Forall₂.cons hab hrest

/-! ## Accesses without address -/

/-- The uses among the visits. -/
def uses (walk : List Visit) : List Use :=
  walk.filterMap fun
    | .use u => some u
    | .declare _ | .value _ | .operator .. => none

/-- The instruction is that of the use: its operand, if there is one, is the address of the name. -/
def Use.Emits (symbols : List Symbol) (u : Use) (i : Instruction) : Prop :=
  i.op = u.op ∧ ∀ a, i.operand = some a → ∃ s ∈ symbols, s.name = u.name ∧ s.address.toInt = a

theorem map_access? (base : Int64) (before walk : List Visit) :
    (gather (Moment.access? base) before walk).map Prod.fst = uses walk := by
  rw [gather, List.map_filterMap, uses, ← gather_visit _ before]
  refine List.filterMap_congr fun m _ => ?_
  obtain ⟨before, visit⟩ := m
  cases visit with
  | declare | value | operator | use => rfl

/-- An address that a name has at a moment of the walk is that of a symbol at its end. -/
theorem symbol_of_access? {base : Int64} {walk : List Visit} {r : Use × Option Int}
    (h : r ∈ gather (Moment.access? base) [] walk) {a : Int} (ha : r.2 = some a) :
    ∃ s ∈ (tableAfter base walk).entries, s.name = r.1.name ∧ s.address.toInt = a := by
  obtain ⟨⟨before, visit⟩, hm, hr⟩ := List.mem_filterMap.1 h
  obtain ⟨rest, hwalk⟩ := exists_of_mem_moments hm
  rw [List.nil_append] at hwalk
  cases visit with
  | declare | value | operator => cases hr
  | use u =>
    simp only [Moment.access?, Option.some.injEq] at hr
    subst hr
    obtain ⟨s, hs, rfl⟩ := Option.map_eq_some_iff.1 ha
    rw [hwalk]
    have hgrows := prefix_tableAfter base before (.use u :: rest)
    exact ⟨s, hgrows.subset (SymbolTable.mem_of_lookup hs), SymbolTable.name_of_lookup hs, rfl⟩

/-- The accesses of a program, use by use. -/
theorem forall₂_accesses {opts : Options} {stmts : List Stmt} {p : Program} (h : compile opts stmts = .ok p) :
    List.Forall₂ (fun r i => i.op = r.1.op ∧ i.operand = r.2)
      (gather (Moment.access? opts.base) [] (Stmt.walkList opts.arithmetic stmts))
      (p.code.filter (·.op.isAccess)) := by
  obtain ⟨hfault, _, hcode⟩ := compile_eq_ok_iff.1 h
  have hcalls := Stmt.accesses_emittedList stmts hfault [] rfl 1
  rw [← hcode, Code.accesses, calls, eq_comm, ← List.forall₂_eq_eq_eq, List.forall₂_map_left_iff,
    List.forall₂_map_right_iff] at hcalls
  refine hcalls.imp fun r i hri => ?_
  rw [Prod.mk.injEq] at hri
  exact ⟨hri.1.symm, hri.2.symm⟩

theorem map_zip_filter {α β : Type} {rs : List (α × Option Int)} {is : Code}
    (h : List.Forall₂ (fun r i => i.operand = r.2) rs is) (f : α → β) :
    (((rs.map Prod.fst).zip is).filter (·.2.operand.isNone)).map (fun x => f x.1) =
      (rs.filter (·.2.isNone)).map fun r => f r.1 := by
  induction h with
  | nil => rfl
  | @cons r i rs is hri _ ih =>
    rw [List.map_cons, List.zip_cons_cons, List.filter_cons, List.filter_cons, hri]
    by_cases hnone : r.2.isNone
    · simp [hnone, ih]
    · simp [hnone, ih]

/-- The warnings about undeclared names report the accesses without address. -/
structure ReportsUnresolved (arithmetic : Bool) (stmts : List Stmt) (p : Program) : Prop where
  /-- The uses of names emit the accesses, one each and in order. -/
  emitted : List.Forall₂ (Use.Emits p.symbols) (uses (Stmt.walkList arithmetic stmts)) (p.code.filter (·.op.isAccess))
  /-- There is one warning for each access without address, in order and about the use that emitted it. -/
  warned : (analyze arithmetic stmts).filter (·.kind = .undeclared) =
    (((uses (Stmt.walkList arithmetic stmts)).zip (p.code.filter (·.op.isAccess))).filter
      (·.2.operand.isNone)).map fun x => .undeclared x.1.pos x.1.name

theorem agrees_after (base : Int64) (walk : List Visit) : Agrees (scopeAfter walk) (tableAfter base walk) := by
  intro name
  rw [lookup_scopeAfter, lookup_tableAfter, Option.isSome_map, Bool.eq_iff_iff, List.find?_isSome, List.any_eq_true]

theorem Moment.undeclared_eq (base : Int64) (arithmetic : Bool) (m : Moment) :
    (if m.visit.warningKind = .undeclared then m.warning? arithmetic else none) =
      ((m.access? base).filter (·.2.isNone)).map fun r => .undeclared r.1.pos r.1.name := by
  obtain ⟨before, visit⟩ := m
  cases visit with
  | declare | value | operator => rfl
  | use u =>
    have hsame := agrees_after base before u.name
    cases hlookup : (tableAfter base before).lookup u.name with
    | none =>
      rw [hlookup] at hsame
      simp [Visit.warningKind, Moment.warning?, Moment.access?, SymbolTable.address?, Option.filter_some, hsame,
        hlookup]
    | some s =>
      rw [hlookup] at hsame
      simp [Moment.warning?, Moment.access?, SymbolTable.address?, Option.filter_some, hsame, hlookup]

theorem symbols_eq {opts : Options} {stmts : List Stmt} {p : Program} (h : compile opts stmts = .ok p) :
    p.symbols = (tableAfter opts.base (Stmt.walkList opts.arithmetic stmts)).entries := by
  have hwalk := Stmt.tableAfter_walkList opts.base opts.arithmetic stmts []
  rw [List.nil_append] at hwalk
  rw [(compile_eq_ok_iff.1 h).2.1, hwalk]
  rfl

theorem reportsUnresolved {opts : Options} {stmts : List Stmt} {p : Program} (h : compile opts stmts = .ok p) :
    ReportsUnresolved opts.arithmetic stmts p := by
  have haccesses := forall₂_accesses h
  have huses := map_access? opts.base [] (Stmt.walkList opts.arithmetic stmts)
  constructor
  · rw [← huses, List.forall₂_map_left_iff, symbols_eq h]
    refine ((List.forall₂_and_left _ _).2 ⟨fun r hr => hr, haccesses⟩).imp fun r i ⟨hr, hop, hoperand⟩ => ?_
    exact ⟨hop, fun a ha => symbol_of_access? hr (hoperand.symm.trans ha)⟩
  · have hoperands := haccesses.imp fun r i hri => hri.2
    rw [analyze_filter, funext (Moment.undeclared_eq opts.base opts.arithmetic), ← huses,
      map_zip_filter hoperands fun u => Warning.undeclared u.pos u.name, gather, gather, List.filter_filterMap,
      List.map_filterMap]

/-! ## Declarations without effect -/

theorem SymbolTable.declare_eq_self_iff (t : SymbolTable) (name type : Text) :
    t.declare name type = t ↔ (t.lookup name).isSome := by
  unfold SymbolTable.declare
  by_cases hknown : (t.lookup name).isSome
  · simp [hknown]
  · rw [if_neg hknown]
    refine iff_of_false (fun heq => ?_) hknown
    have hlength := congrArg (fun u : SymbolTable => u.entries.length) heq
    simp at hlength

/-- The declaration at a moment, if it adds no symbol. -/
def Moment.idle? (base : Int64) (m : Moment) : Option Declaring :=
  match m.visit with
  | .declare d =>
    if (tableAfter base m.before).declare d.name d.type = tableAfter base m.before then some d else none
  | .value _ | .operator .. | .use _ => none

/-- The warning is about the declaration and names the first one of the name. -/
def Declaring.Repeats (all : List Declaring) (d : Declaring) (w : Warning) : Prop :=
  ∃ first, all.find? (·.name = d.name) = some first ∧ w = .redeclared d.pos d.name first.pos

/-- The warnings about repeated names report the declarations that add no symbol. -/
structure ReportsIdle (base : Int64) (arithmetic : Bool) (stmts : List Stmt) (p : Program) : Prop where
  /-- The symbols come from the declarations of the walk. -/
  declared : p.symbols = (tableAfter base (Stmt.walkList arithmetic stmts)).entries
  /-- There is one warning for each declaration that adds no symbol, in order. -/
  warned : List.Forall₂ (Declaring.Repeats (declarings (Stmt.walkList arithmetic stmts)))
    (gather (Moment.idle? base) [] (Stmt.walkList arithmetic stmts))
    ((analyze arithmetic stmts).filter (·.kind = .redeclared))
  /-- Every declared name becomes a symbol or a warning. -/
  counted : (declarings (Stmt.walkList arithmetic stmts)).length =
    p.symbols.length + ((analyze arithmetic stmts).filter (·.kind = .redeclared)).length

theorem Moment.rel_redeclared {base : Int64} {arithmetic : Bool} {walk : List Visit} {m : Moment}
    (h : m ∈ moments [] walk) :
    Option.Rel (Declaring.Repeats (declarings walk)) (m.idle? base)
      (if m.visit.warningKind = .redeclared then m.warning? arithmetic else none) := by
  obtain ⟨before, visit⟩ := m
  obtain ⟨rest, hwalk⟩ := exists_of_mem_moments h
  rw [List.nil_append] at hwalk
  cases visit with
  | declare d =>
    have hidle := SymbolTable.declare_eq_self_iff (tableAfter base before) d.name d.type
    have hknown := agrees_after base before d.name
    rw [lookup_scopeAfter, Option.isSome_map] at hknown
    rw [← hknown] at hidle
    simp only [Moment.idle?, Moment.warning?, Visit.warningKind, if_true, lookup_scopeAfter, hidle]
    cases hfirst : (declarings before).find? (·.name = d.name) with
    | none => exact Option.Rel.none
    | some first =>
      refine Option.Rel.some ⟨first, ?_, rfl⟩
      rw [hwalk, declarings_append, List.find?_append, hfirst]
      rfl
  | value | operator | use => exact Option.Rel.none

theorem length_entries_declare (t : SymbolTable) (name type : Text) :
    (t.declare name type).entries.length =
      if t.declare name type = t then t.entries.length else t.entries.length + 1 := by
  split
  · next hidle => rw [hidle]
  · next hidle =>
    rw [SymbolTable.declare_eq_self_iff] at hidle
    simp [SymbolTable.declare, hidle]

/-- What the declarations of a walk add and what they repeat. -/
theorem length_entries_tableAfter (base : Int64) (before walk : List Visit) :
    (tableAfter base (before ++ walk)).entries.length + (gather (Moment.idle? base) before walk).length =
      (tableAfter base before).entries.length + (declarings walk).length := by
  induction walk generalizing before with
  | nil => simp
  | cons v walk ih =>
    have hrest := ih (before ++ [v])
    rw [List.append_assoc, List.singleton_append] at hrest
    rw [gather_cons, List.length_append]
    cases v with
    | declare d =>
      have hstep := length_entries_declare (tableAfter base before) d.name d.type
      rw [tableAfter_concat_declare] at hrest
      rw [declarings_declare, List.length_cons]
      by_cases hidle : (tableAfter base before).declare d.name d.type = tableAfter base before
      · rw [hidle] at hrest
        simp only [Moment.idle?, hidle, if_true, Option.toList_some, List.length_singleton]
        omega
      · rw [if_neg hidle] at hstep
        simp only [Moment.idle?, hidle, if_false, Option.toList_none, List.length_nil]
        omega
    | value | operator | use =>
      simp only [tableAfter, declarings_append, declarings_value, declarings_operator, declarings_use, declarings_nil,
        List.append_nil] at hrest ⊢
      rw [← hrest]
      simp [Moment.idle?]

theorem reportsIdle {opts : Options} {stmts : List Stmt} {p : Program} (h : compile opts stmts = .ok p) :
    ReportsIdle opts.base opts.arithmetic stmts p := by
  have hwarned : List.Forall₂ (Declaring.Repeats (declarings (Stmt.walkList opts.arithmetic stmts)))
      (gather (Moment.idle? opts.base) [] (Stmt.walkList opts.arithmetic stmts))
      ((analyze opts.arithmetic stmts).filter (·.kind = .redeclared)) := by
    rw [analyze_filter]
    exact forall₂_gather fun m hm => Moment.rel_redeclared hm
  refine ⟨symbols_eq h, hwarned, ?_⟩
  have hlength := length_entries_tableAfter opts.base [] (Stmt.walkList opts.arithmetic stmts)
  rw [List.nil_append] at hlength
  rw [symbols_eq h, ← hwarned.length_eq, hlength]
  simp [tableAfter]

/-! ## Values without instructions -/

/-- The values among the visits. -/
def values (walk : List Visit) : List Expr :=
  walk.filterMap fun
    | .value e => some e
    | .declare _ | .operator .. | .use _ => none

/-- Generation passes over the expression. -/
def Expr.Silent (opts : Options) (e : Expr) : Prop := ∀ ctx, e.generate opts ctx = .ok () ctx

theorem Expr.generate_ok {opts : Options} {e : Expr} {ctx last : Context} (h : e.generate opts ctx = .ok () last) :
    e.fault? opts ctx.symbols = none ∧ last = ctx.extend (e.emitted opts.arithmetic ctx.symbols ctx.code.next) := by
  have hyields := e.generate_yields opts ctx
  cases hfault : e.fault? opts ctx.symbols with
  | some error =>
    rw [hfault] at hyields
    obtain ⟨left, hleft⟩ := hyields
    rw [h] at hleft
    cases hleft
  | none =>
    rw [hfault] at hyields
    have hlast := h.symm.trans hyields
    cases hlast
    exact ⟨rfl, rfl⟩

/-- A value that is not reported has instructions. -/
theorem Expr.emitted_ne_nil {opts : Options} {t : SymbolTable} {e : Expr} (hfault : e.fault? opts t = none)
    (h : e.untranslated? opts.arithmetic = none) (n : Nat) : e.emitted opts.arithmetic t n ≠ [] := by
  cases e with
  | literal | identifier => exact List.cons_ne_nil _ _
  | binary pos operator left right =>
    cases ha : opts.arithmetic with
    | false => simp [Expr.untranslated?, ha] at h
    | true =>
      obtain ⟨op, hop, _, _⟩ := Expr.operator_of_fault? ha hfault
      simp [Expr.emitted, hop]

theorem Expr.silent_iff (opts : Options) (e : Expr) : e.Silent opts ↔ (e.untranslated? opts.arithmetic).isSome := by
  constructor
  · intro h
    obtain ⟨hfault, hlast⟩ := Expr.generate_ok (h (.initial opts))
    have hcode := congrArg Context.code hlast
    rw [Context.extend, List.self_eq_append_right] at hcode
    cases hreport : e.untranslated? opts.arithmetic with
    | some w => rfl
    | none => exact absurd hcode (Expr.emitted_ne_nil hfault hreport _)
  · intro h ctx
    cases e with
    | literal | identifier => cases h
    | binary pos operator left right =>
      cases ha : opts.arithmetic with
      | true => simp [Expr.untranslated?, ha] at h
      | false =>
        rw [Expr.generate, ha]
        rfl

instance (opts : Options) (e : Expr) : Decidable (e.Silent opts) := decidable_of_iff _ (e.silent_iff opts).symm

/-- The warnings about operators without code report the values without instructions. -/
structure ReportsSilent (opts : Options) (stmts : List Stmt) : Prop where
  /-- Every other value has an instruction whenever it is generated. -/
  heard : ∀ e ∈ values (Stmt.walkList opts.arithmetic stmts), ¬ e.Silent opts →
    ∀ ctx last, e.generate opts ctx = .ok () last → ctx.code.length < last.code.length
  /-- There is one warning for each value without instructions, in order. -/
  warned : List.Forall₂ (fun e w => ∃ pos operator left right,
      e = .binary pos operator left right ∧ w = .untranslated pos operator)
    ((values (Stmt.walkList opts.arithmetic stmts)).filter (·.Silent opts))
    ((analyze opts.arithmetic stmts).filter (·.kind = .untranslated))

theorem reportsSilent (opts : Options) (stmts : List Stmt) : ReportsSilent opts stmts := by
  constructor
  · intro e _ hsilent ctx last hlast
    rw [Expr.silent_iff, Option.not_isSome_iff_eq_none] at hsilent
    obtain ⟨hfault, rfl⟩ := Expr.generate_ok hlast
    have hsome := List.length_pos_iff.2 (Expr.emitted_ne_nil hfault hsilent ctx.code.next)
    rw [Context.extend, List.length_append]
    omega
  · rw [analyze_filter, values, ← gather_visit _ [], gather, List.filter_filterMap]
    refine forall₂_gather fun m _ => ?_
    obtain ⟨before, visit⟩ := m
    cases visit with
    | value e =>
      simp only [Moment.warning?, Visit.warningKind, if_true, Expr.silent_iff, Option.filter_some]
      cases e with
      | literal | identifier => exact Option.Rel.none
      | binary pos operator left right =>
        cases ha : opts.arithmetic with
        | true => exact Option.Rel.none
        | false => exact Option.Rel.some ⟨pos, operator, left, right, rfl, rfl⟩
    | declare | operator | use => exact Option.Rel.none

/-- **The analysis** of a program that is translated reports the accesses without address, the declarations without
effect and the values without instructions, and no more. -/
theorem analyze_reports {opts : Options} {stmts : List Stmt} {p : Program} (h : compile opts stmts = .ok p) :
    ReportsUnresolved opts.arithmetic stmts p ∧ ReportsIdle opts.base opts.arithmetic stmts p ∧
      ReportsSilent opts stmts :=
  ⟨reportsUnresolved h, reportsIdle h, reportsSilent opts stmts⟩

/-- A loop on an operator around the use of one undeclared name and a second declaration of another, before the use of
a name that is never declared. -/
def untidy : List Stmt :=
  [.declaration ⟨[], 0, 1, 1⟩ (bytes "integer") [bytes "x", bytes "x"],
   .loop ⟨[], 13, 2, 1⟩ (.binary ⟨[], 21, 2, 9⟩ (bytes "<") (.identifier ⟨[], 19, 2, 7⟩ (bytes "x"))
      (.identifier ⟨[], 23, 2, 11⟩ (bytes "y")))
    [.assignment ⟨[], 29, 3, 3⟩ (bytes "y") (.identifier ⟨[], 33, 3, 7⟩ (bytes "x")),
     .declaration ⟨[], 38, 4, 3⟩ (bytes "string") [bytes "y", bytes "x"]],
   .output ⟨[], 56, 6, 1⟩ (.identifier ⟨[], 63, 6, 8⟩ (bytes "z"))]

theorem untidy_reported :
    ∃ p, compile {} untidy = .ok p ∧
      p.code.accesses = [(.pushm, some 9000), (.popm, none), (.pushm, none)] ∧
      analyze false untidy =
        [.redeclared ⟨[], 0, 1, 1⟩ (bytes "x") ⟨[], 0, 1, 1⟩, .untranslated ⟨[], 21, 2, 9⟩ (bytes "<"),
          .undeclared ⟨[], 29, 3, 3⟩ (bytes "y"), .redeclared ⟨[], 38, 4, 3⟩ (bytes "x") ⟨[], 0, 1, 1⟩,
          .undeclared ⟨[], 63, 6, 8⟩ (bytes "z")] ∧
      ReportsUnresolved false untidy p ∧ ReportsIdle defaultBase false untidy p ∧ ReportsSilent {} untidy := by
  have hcompile : compile {} untidy = .ok _ := rfl
  exact ⟨_, hcompile, by decide, by decide, analyze_reports hcompile⟩

end RatLang
