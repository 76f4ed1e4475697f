import RatLang.Proofs.Program.Walk
import RatLang.Translate

/-!
# Strict translation

Strict translation is translation with two more checks: it refuses stray characters, and it refuses the use of a
name that was not declared before. Scanning is over before parsing begins, so a stray character anywhere is met
first; parsing does not differ; and generation stops at the first moment of the walk that one of its checks refuses.
Main statement: the outcome of the strict translation, read off the stray characters and the outcome of the other
one (`translate_strict`).
-/
namespace RatLang

/-! ## Names without a declaration -/

/-- The use at this moment, if its name was not declared before. -/
def Moment.unbound? (m : Moment) : Option Use :=
  match m.visit with
  | .use u => if (declarings m.before).any (·.name = u.name) then none else some u
  | .declare _ | .value _ | .operator .. => none

/-- The first use, in the order of translation, of a name that was not declared before it. -/
def Stmt.firstUnbound? (arithmetic : Bool) (stmts : List Stmt) : Option Use :=
  (gather Moment.unbound? [] (Stmt.walkList arithmetic stmts)).head?

/-- Every instruction that reads or writes the memory has its address. -/
def Program.Resolved (p : Program) : Prop := ∀ i ∈ p.code, i.op.isAccess → i.operand.isSome

instance (p : Program) : Decidable p.Resolved :=
  inferInstanceAs (Decidable (∀ i ∈ p.code, i.op.isAccess → i.operand.isSome))

/-- An access without address is that of an unbound use. -/
theorem Moment.isSome_access?_iff (base : Int64) (m : Moment) :
    (∀ a, m.access? base = some a → a.2.isSome) ↔ m.unbound? = none := by
  obtain ⟨before, visit⟩ := m
  cases visit with
  | use u =>
    have hknown : ((tableAfter base before).address? u.name).isSome = (declarings before).any (·.name = u.name) := by
      rw [SymbolTable.address?, Option.isSome_map, lookup_tableAfter]
    simp only [Moment.access?, Moment.unbound?, Option.some.injEq, forall_eq', hknown]
    cases (declarings before).any (·.name = u.name) with
    | true => simp
    | false => simp
  | declare | value | operator => simp [Moment.access?, Moment.unbound?]

theorem Program.resolved_iff (p : Program) : p.Resolved ↔ ∀ a ∈ p.code.accesses, a.2.isSome := by
  simp only [Program.Resolved, Code.accesses, List.forall_mem_map, List.mem_filter, and_imp]

/-- A program lacks an address exactly when a name was not declared before its use. -/
theorem resolved_iff_firstUnbound? {opts : Options} {stmts : List Stmt} {p : Program} (h : compile opts stmts = .ok p) :
    p.Resolved ↔ Stmt.firstUnbound? opts.arithmetic stmts = none := by
  obtain ⟨hfault, _, hcode⟩ := compile_eq_ok_iff.1 h
  have hcalls := Stmt.accesses_emittedList stmts hfault [] rfl 1
  rw [Program.resolved_iff, hcode, hcalls, Stmt.firstUnbound?, List.head?_eq_none_iff, calls, List.forall_mem_map,
    gather, gather, List.filterMap_eq_nil_iff]
  simp only [List.mem_filterMap, forall_exists_index, and_imp]
  constructor
  · intro hall m hm
    exact (m.isSome_access?_iff opts.base).1 fun a ha => hall a m hm ha
  · intro hall a m hm ha
    exact (m.isSome_access?_iff opts.base).2 (hall m hm) a ha

/-! ## Generation -/

/-- The options with the extra checks. -/
def Options.tight (opts : Options) : Options := { opts with strict := true }

/-- The options without the extra checks. -/
def Options.loose (opts : Options) : Options := { opts with strict := false }

/-- The error for a use that is refused. -/
def Use.refusal (u : Use) : CompileError := .unresolved u.name u.pos

/-- The checks of strict generation at a moment are the others and that for unbound uses. -/
theorem Moment.fault?_tight (opts : Options) (m : Moment) :
    m.fault? opts.tight = (m.fault? opts.loose <|> m.unbound?.map Use.refusal) := by
  obtain ⟨before, visit⟩ := m
  cases visit with
  | use u =>
    have hknown : ((tableAfter opts.base before).lookup u.name).isNone =
        !(declarings before).any (·.name = u.name) := by
      rw [← lookup_tableAfter opts.base, Option.not_isSome]
    simp only [Moment.fault?, Moment.unbound?, SymbolTable.fault?, Options.tight, Options.loose, hknown]
    by_cases hdeclared : (declarings before).any (·.name = u.name) = true
    · simp [hdeclared]
    · simp [hdeclared, Use.refusal]
  | operator pos operator => simp [Moment.fault?, Moment.unbound?]
  | declare | value => rfl

/-- Without the extra checks only an operator can be at fault. -/
theorem Moment.unknown_of_fault?_loose {opts : Options} {m : Moment} {e : CompileError}
    (h : m.fault? opts.loose = some e) : ∃ operator pos, e = .unknownOperator operator pos := by
  obtain ⟨before, visit⟩ := m
  cases visit with
  | operator pos operator =>
    simp only [Moment.fault?, Option.ite_none_right_eq_some, Option.some.injEq] at h
    exact ⟨operator, pos, h.2.symm⟩
  | use u => simp [Moment.fault?, SymbolTable.fault?, Options.loose] at h
  | declare | value => cases h

theorem compile_eq_error_iff {opts : Options} {stmts : List Stmt} {e : CompileError} :
    compile opts stmts = .error e ↔ Stmt.faultList? opts { base := opts.base } stmts = some e := by
  rw [compile_eq]
  cases Stmt.faultList? opts { base := opts.base } stmts with
  | none => simp
  | some e' => simp

theorem unknown_of_compile {opts : Options} {stmts : List Stmt} {e : CompileError}
    (h : compile opts.loose stmts = .error e) : ∃ operator pos, e = .unknownOperator operator pos := by
  rw [compile_eq_error_iff, Stmt.faultList?_initial] at h
  obtain ⟨m, _, hm⟩ := List.mem_filterMap.1 (List.mem_of_mem_head? h)
  exact Moment.unknown_of_fault?_loose hm

section

variable {α : Type} (f g : Moment → Option α)

/-- The first that two checks refuse is the first that the one refuses or the first that the other does. -/
theorem head?_gather_orElse (before walk : List Visit) :
    (gather (fun m => f m <|> g m) before walk).head? = (gather f before walk).head? ∨
      ∃ a, (gather (fun m => f m <|> g m) before walk).head? = some a ∧ (gather g before walk).head? = some a := by
  induction walk generalizing before with
  | nil => exact Or.inl rfl
  | cons v walk ih =>
    cases hf : f ⟨before, v⟩ with
    | some a => exact Or.inl (by simp [hf])
    | none =>
      cases hg : g ⟨before, v⟩ with
      | some a => exact Or.inr ⟨a, by simp [hf, hg]⟩
      | none => simpa [hf, hg] using ih (before ++ [v])

theorem gather_orElse_of_nil {before walk : List Visit} (h : gather f before walk = []) :
    gather (fun m => f m <|> g m) before walk = gather g before walk := by
  refine List.filterMap_congr fun m hm => ?_
  rw [List.filterMap_eq_nil_iff.1 h m hm]
  rfl

end

/-- The first fault of strict generation. -/
theorem Stmt.faultList?_tight (opts : Options) (stmts : List Stmt) :
    Stmt.faultList? opts.tight { base := opts.base } stmts =
      (gather (fun m => m.fault? opts.loose <|> m.unbound?.map Use.refusal) []
        (Stmt.walkList opts.arithmetic stmts)).head? := by
  rw [← funext (Moment.fault?_tight opts)]
  exact Stmt.faultList?_initial opts.tight stmts

theorem Stmt.firstUnbound?_map (arithmetic : Bool) (stmts : List Stmt) :
    (Stmt.firstUnbound? arithmetic stmts).map Use.refusal =
      (gather (fun m => m.unbound?.map Use.refusal) [] (Stmt.walkList arithmetic stmts)).head? := by
  rw [Stmt.firstUnbound?, ← List.head?_map, gather, List.map_filterMap]
  rfl

/-- Strict compilation of a program that does not compile otherwise. -/
theorem compile_tight_of_error {opts : Options} {stmts : List Stmt} {e : CompileError}
    (h : compile opts.loose stmts = .error e) :
    compile opts.tight stmts = .error e ∨
      ∃ u, Stmt.firstUnbound? opts.arithmetic stmts = some u ∧ compile opts.tight stmts = .error u.refusal := by
  rw [compile_eq_error_iff, Stmt.faultList?_initial] at h
  have htight := Stmt.faultList?_tight opts stmts
  rcases head?_gather_orElse (Moment.fault? opts.loose) (fun m => m.unbound?.map Use.refusal) []
    (Stmt.walkList opts.arithmetic stmts) with hfirst | ⟨refused, hfirst, hunbound⟩
  · exact Or.inl (compile_eq_error_iff.2 (htight.trans (hfirst.trans h)))
  · rw [← Stmt.firstUnbound?_map, Option.map_eq_some_iff] at hunbound
    obtain ⟨u, hu, rfl⟩ := hunbound
    exact Or.inr ⟨u, hu, compile_eq_error_iff.2 (htight.trans hfirst)⟩

/-- Strict compilation of a program that compiles otherwise, addresses missing or not. -/
theorem compile_tight_of_ok {opts : Options} {stmts : List Stmt} {p : Program} (h : compile opts.loose stmts = .ok p) :
    compile opts.tight stmts =
      match Stmt.firstUnbound? opts.arithmetic stmts with
      | none => .ok p
      | some u => .error u.refusal := by
  obtain ⟨hloose, hsymbols, hcode⟩ := compile_eq_ok_iff.1 h
  rw [Stmt.faultList?_initial, List.head?_eq_none_iff] at hloose
  have htight : Stmt.faultList? opts.tight { base := opts.base } stmts =
      (Stmt.firstUnbound? opts.arithmetic stmts).map Use.refusal := by
    rw [Stmt.faultList?_tight, Stmt.firstUnbound?_map]
    exact congrArg List.head? (gather_orElse_of_nil _ _ hloose)
  cases hu : Stmt.firstUnbound? opts.arithmetic stmts with
  | none =>
    rw [hu] at htight
    exact compile_eq_ok_iff.2 ⟨htight, hsymbols, hcode⟩
  | some u =>
    rw [hu] at htight
    exact compile_eq_error_iff.2 htight

/-! ## From source to program -/

/-- The strict translation stops at the first use of a name that was not declared before it. -/
def StopsUnbound (opts : Options) (file src : Text) : Prop :=
  ∃ stmts u, Source.parse false file src = .ok stmts ∧ Stmt.firstUnbound? opts.arithmetic stmts = some u ∧
    Source.translate opts.tight file src = .error (.generation (.unresolved u.name u.pos))

/-- Parsing is the same, once the stray characters are out of the way. -/
theorem parse_tight (file src : Text) :
    Source.parse true file src =
      match Source.skips false file src with
      | [] => Source.parse false file src
      | s :: _ => .error (.stray s) := by
  unfold Source.parse Source.tokenize Source.skips
  cases Source.strays file src with
  | nil => rfl
  | cons s rest => rfl

theorem grammar_of_parse {file src : Text} {e : TranslateError} (h : Source.parse false file src = .error e) :
    ∃ g, e = .grammar g := by
  have htokens : Source.tokenize false file src = .ok (Source.tokens file src) := rfl
  simp only [Source.parse, htokens] at h
  cases hparse : RatLang.parse (Source.tokens file src) with
  | ok stmts => simp [hparse] at h
  | error g =>
    simp only [hparse, Except.error.injEq] at h
    exact ⟨g, h.symm⟩

theorem translate_of_ok {opts : Options} {file src : Text} {stmts : List Stmt} {p : Program}
    (hparse : Source.parse opts.strict file src = .ok stmts) (h : compile opts stmts = .ok p) :
    Source.translate opts file src = .ok p := by
  simp [Source.translate, hparse, h]

theorem translate_of_error {opts : Options} {file src : Text} {stmts : List Stmt} {e : CompileError}
    (hparse : Source.parse opts.strict file src = .ok stmts) (h : compile opts stmts = .error e) :
    Source.translate opts file src = .error (.generation e) := by
  simp [Source.translate, hparse, h]

/-- **Strict translation** from the stray characters and the outcome of the other translation. -/
theorem translate_strict (opts : Options) (file src : Text) :
    match Source.skips false file src, Source.translate opts.loose file src with
    | s :: _, _ => Source.translate opts.tight file src = .error (.stray s)
    | [], .error (.grammar e) => Source.translate opts.tight file src = .error (.grammar e)
    | [], .error (.generation (.unknownOperator operator pos)) =>
      Source.translate opts.tight file src = .error (.generation (.unknownOperator operator pos)) ∨
        StopsUnbound opts file src
    | [], .error (.generation (.unresolved ..)) | [], .error (.stray _) => False
    | [], .ok p => if p.Resolved then Source.translate opts.tight file src = .ok p else StopsUnbound opts file src := by
  cases hskips : Source.skips false file src with
  | cons s rest => simp [Source.translate, Options.tight, parse_tight, hskips]
  | nil =>
    -- nothing to refuse in the text, so both translations have the same statements
    have hparse : Source.parse opts.tight.strict file src = Source.parse false file src := by
      rw [Options.tight, parse_tight, hskips]
    cases hstmts : Source.parse false file src with
    | error e =>
      obtain ⟨e, rfl⟩ := grammar_of_parse hstmts
      simp [Source.translate, hparse, Options.loose, hstmts]
    | ok stmts =>
      have htight := hparse.trans hstmts
      cases hcompile : compile opts.loose stmts with
      | error e =>
        have hloose : Source.translate opts.loose file src = _ := translate_of_error hstmts hcompile
        obtain ⟨operator, pos, rfl⟩ := unknown_of_compile hcompile
        rw [hloose]
        rcases compile_tight_of_error hcompile with hsame | ⟨u, hu, hother⟩
        · exact Or.inl (translate_of_error htight hsame)
        · exact Or.inr ⟨stmts, u, hstmts, hu, translate_of_error htight hother⟩
      | ok p =>
        have hloose : Source.translate opts.loose file src = _ := translate_of_ok hstmts hcompile
        have hresolved : p.Resolved ↔ Stmt.firstUnbound? opts.arithmetic stmts = none :=
          (resolved_iff_firstUnbound? hcompile :)
        have hstrict := compile_tight_of_ok hcompile
        rw [hloose]
        show if p.Resolved then Source.translate opts.tight file src = .ok p else StopsUnbound opts file src
        by_cases hp : p.Resolved
        · rw [hresolved.1 hp] at hstrict
          rw [if_pos hp]
          exact translate_of_ok htight hstrict
        · obtain ⟨u, hu⟩ := Option.ne_none_iff_exists'.1 (mt hresolved.2 hp)
          rw [hu] at hstrict
          rw [if_neg hp]
          exact ⟨stmts, u, hstmts, hu, translate_of_error htight hstrict⟩

end RatLang
