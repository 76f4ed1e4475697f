import RatLang.Proofs.Program.Loops
import RatLang.Proofs.Program.Strictness

/-!
# What a refused name leaves behind

Strict translation stops where a name was not declared; the other translation goes on from there. Up to that place
they have emitted the same instructions, but the loops that are open there are not closed in the strict run, so their
jumps out have no operand. An operand tells which these are: it is an index that the code has not reached yet.

Main statement: the code of the strict run from that of the other (`compile_truncated`).
-/
namespace RatLang

/-- The instruction as it stands while the code has `m` instructions: the jump out of a loop that ends farther on is
not patched yet. -/
def Instruction.unpatched (m : Nat) (i : Instruction) : Instruction :=
  if i.op = .jumpz ∧ i.operand.any fun target => (m + 1 : Int) < target then { i with operand := none } else i

/-- The one code is a beginning of the other, seen while there were `m` instructions. -/
def Code.Truncates (m : Nat) (cut full : Code) : Prop :=
  ∃ front rest, full = front ++ rest ∧ cut = front.map (Instruction.unpatched m)

namespace Code.Truncates

variable {m : Nat} {cut full : Code}

theorem nil (m : Nat) (full : Code) : Truncates m [] full := ⟨[], full, rfl, rfl⟩

theorem length_le (h : Truncates m cut full) : cut.length ≤ full.length := by
  obtain ⟨front, rest, rfl, rfl⟩ := h
  simp

/-- What follows the place where the code was cut does not matter. -/
theorem append (h : Truncates m cut full) (more : Code) : Truncates m cut (full ++ more) := by
  obtain ⟨front, rest, rfl, rfl⟩ := h
  exact ⟨front, rest ++ more, List.append_assoc .., rfl⟩

/-- In front of it there may be code without open loops. -/
theorem behind {part : Code} (hpart : ∀ i ∈ part, i.unpatched m = i) (h : Truncates m cut full) :
    Truncates m (part ++ cut) (part ++ full) := by
  obtain ⟨front, rest, rfl, rfl⟩ := h
  refine ⟨part ++ front, rest, (List.append_assoc ..).symm, ?_⟩
  rw [List.map_append, List.map_congr_left hpart, List.map_id']

/-- Code without open loops, cut at its end. -/
theorem whole {part : Code} (hpart : ∀ i ∈ part, i.unpatched m = i) (more : Code) :
    Truncates m part (part ++ more) := by
  have h := behind hpart (nil m more)
  rwa [List.append_nil] at h

/-- The jump out of a loop that is open at the cut. -/
theorem behind_open {stop : Nat} (hstop : m + 1 < stop) (k : Nat) (h : Truncates m cut full) :
    Truncates m (⟨k, .jumpz, none⟩ :: cut) (⟨k, .jumpz, some stop⟩ :: full) := by
  obtain ⟨front, rest, rfl, rfl⟩ := h
  refine ⟨⟨k, .jumpz, some stop⟩ :: front, rest, rfl, ?_⟩
  have hopen : (m + 1 : Int) < stop := by omega
  simp [Instruction.unpatched, hopen]

end Code.Truncates

/-! ## Closed loops -/

/-- Expressions have no jumps that could be open. -/
theorem Expr.unpatched_emitted (arithmetic : Bool) (t : SymbolTable) (n m : Nat) (x : Expr) :
    ∀ i ∈ x.emitted arithmetic t n, i.unpatched m = i :=
  fun i hi => if_neg fun hopen => x.straight_emitted arithmetic t n i hi (Or.inr hopen.1)

/-- The jumps of a piece of code lead at most to its end, so they are patched once the end is reached. -/
theorem Code.Looped.unpatched_eq {n m : Nat} {part : Code} {loops : List Loop} (h : Code.Looped n part loops)
    (hm : n + part.length ≤ m + 1) : ∀ i ∈ part, i.unpatched m = i := by
  intro i hi
  obtain ⟨k, hk⟩ := List.mem_iff_getElem?.1 hi
  refine if_neg ?_
  rintro ⟨hop, hopen⟩
  obtain ⟨l, hl, -, rfl⟩ := (Code.each_iff.1 h.jumps k i hk).1 hop
  have hstop := (h.within l hl).2
  simp only [Loop.leave, Option.any_some, decide_eq_true_eq] at hopen
  omega

theorem Stmt.unpatched_emitted {arithmetic : Bool} {t : SymbolTable} {n m : Nat} (s : Stmt)
    (hm : n + (s.emitted arithmetic t n).length ≤ m + 1) : ∀ i ∈ s.emitted arithmetic t n, i.unpatched m = i := by
  have hlooped := Stmt.looped_emittedList arithmetic [s] t n
  rw [Stmt.emittedList_singleton] at hlooped
  exact hlooped.unpatched_eq hm

/-! ## Cut programs -/

section

variable {opts : Options} {t : SymbolTable} {e : CompileError} {m : Nat}

theorem Expr.truncates_begun {x : Expr} (hloose : x.fault? opts.loose t = none)
    (htight : x.fault? opts.tight t = some e) (n : Nat) :
    Code.Truncates m (x.begun opts.tight t n) (x.emitted opts.arithmetic t n) := by
  induction x generalizing n with
  | literal | identifier => exact .nil ..
  | binary pos operator left right ihl ihr =>
    cases ha : opts.arithmetic with
    | false => simp [Expr.fault?, Options.tight, ha] at htight
    | true =>
      obtain ⟨op, hop, hl, hr⟩ := Expr.operator_of_fault? (show opts.loose.arithmetic = true from ha) hloose
      have harith : opts.tight.arithmetic = true := ha
      simp only [Expr.fault?, harith, hop, if_true] at htight
      simp only [Expr.begun, Expr.emitted, hop, harith]
      rw [ha] at ihl ihr
      rcases Generate.fault_orElse htight with hleft | ⟨hleft, hright⟩
      · rw [hleft]
        exact (ihl hl hleft n).append _
      · rw [hleft]
        exact ((ihr hr hright _).append _).behind (left.unpatched_emitted true t n m)

/-- A loop whose body is cut is open at the cut. -/
theorem Stmt.truncates_loop {pos : Position} {condition : Expr} {body : List Stmt} {n : Nat}
    (hbody : ∀ n, Stmt.faultList? opts.tight t body = some e →
      n + (Stmt.begunList opts.tight t n body).length = m + 1 →
        Code.Truncates m (Stmt.begunList opts.tight t n body) (Stmt.emittedList opts.arithmetic t n body))
    (hloose : condition.fault? opts.loose t = none)
    (htight : (Stmt.loop pos condition body).fault? opts.tight t = some e)
    (hm : n + ((Stmt.loop pos condition body).begun opts.tight t n).length = m + 1) :
    Code.Truncates m ((Stmt.loop pos condition body).begun opts.tight t n)
      ((Stmt.loop pos condition body).emitted opts.arithmetic t n) := by
  simp only [Stmt.begun, Stmt.emitted, List.append_assoc] at hm ⊢
  rcases Generate.fault_orElse htight with hcondition | ⟨hcondition, hinner⟩
  · rw [hcondition]
    exact (Expr.truncates_begun hloose hcondition n).append _
  · rw [hcondition] at hm ⊢
    have harithmetic : opts.tight.arithmetic = opts.arithmetic := rfl
    simp only [harithmetic, List.length_append, List.length_cons] at hm ⊢
    have hcut := hbody (n + (condition.emitted opts.arithmetic t n).length + 1) hinner (by omega)
    have hlength := hcut.length_le
    exact .behind (condition.unpatched_emitted opts.arithmetic t n m) (.behind_open (by omega) _ (hcut.append _))

/-- A statement and others behind it: the cut lies in the one or in the others. -/
theorem Stmt.truncates_cons {s : Stmt} {rest : List Stmt} {n : Nat}
    (hs : s.fault? opts.tight t = some e → n + (s.begun opts.tight t n).length = m + 1 →
      Code.Truncates m (s.begun opts.tight t n) (s.emitted opts.arithmetic t n))
    (hrest : ∀ n, Stmt.faultList? opts.tight (s.declared t) rest = some e →
      n + (Stmt.begunList opts.tight (s.declared t) n rest).length = m + 1 →
        Code.Truncates m (Stmt.begunList opts.tight (s.declared t) n rest)
          (Stmt.emittedList opts.arithmetic (s.declared t) n rest))
    (htight : Stmt.faultList? opts.tight t (s :: rest) = some e)
    (hm : n + (Stmt.begunList opts.tight t n (s :: rest)).length = m + 1) :
    Code.Truncates m (Stmt.begunList opts.tight t n (s :: rest))
      (Stmt.emittedList opts.arithmetic t n (s :: rest)) := by
  simp only [Stmt.begunList, Stmt.emittedList] at hm ⊢
  rcases Generate.fault_orElse htight with hfirst | ⟨hfirst, hlater⟩
  · rw [hfirst] at hm ⊢
    exact (hs hfirst hm).append _
  · rw [hfirst] at hm ⊢
    simp only [List.length_append] at hm
    exact .behind (s.unpatched_emitted (by omega)) (hrest _ hlater (by omega))

/-- What strict statements have begun is what the others emit, cut at the place that was reached. -/
theorem Stmt.truncates_begunList {stmts : List Stmt} (hloose : Stmt.faultList? opts.loose t stmts = none)
    (htight : Stmt.faultList? opts.tight t stmts = some e) {n : Nat}
    (hm : n + (Stmt.begunList opts.tight t n stmts).length = m + 1) :
    Code.Truncates m (Stmt.begunList opts.tight t n stmts) (Stmt.emittedList opts.arithmetic t n stmts) := by
  induction stmts using Stmt.list_induction generalizing t n with
  | nil => cases htight
  | declaration pos dataType names rest ih =>
    exact Stmt.truncates_cons (fun h => absurd h (by simp [Stmt.fault?])) (fun _ h => ih hloose h) htight hm
  | assignment pos target value rest ih =>
    simp only [Stmt.faultList?, Stmt.fault?, Option.orElse_eq_orElse, Option.orElse_eq_or,
      Option.or_eq_none_iff] at hloose
    refine Stmt.truncates_cons (fun h _ => ?_) (fun _ h => ih hloose.2 h) htight hm
    simp only [Stmt.begun, Stmt.emitted]
    rcases Generate.fault_orElse h with hvalue | ⟨hvalue, -⟩
    · rw [hvalue]
      exact (Expr.truncates_begun hloose.1.1 hvalue _).append _
    · rw [hvalue]
      exact .whole (value.unpatched_emitted opts.arithmetic t n m) _
  | output pos value rest ih =>
    simp only [Stmt.faultList?, Stmt.fault?, Option.orElse_eq_orElse, Option.orElse_eq_or,
      Option.or_eq_none_iff] at hloose
    refine Stmt.truncates_cons (fun h _ => ?_) (fun _ h => ih hloose.2 h) htight hm
    exact (Expr.truncates_begun hloose.1 h _).append _
  | loop pos condition body rest ihbody ih =>
    simp only [Stmt.faultList?, Stmt.fault?, Option.orElse_eq_orElse, Option.orElse_eq_or,
      Option.or_eq_none_iff] at hloose
    refine Stmt.truncates_cons (fun h hm => ?_) (fun _ h => ih hloose.2 h) htight hm
    exact Stmt.truncates_loop (fun _ h => ihbody hloose.1.2 h) hloose.1.1 h hm

end

/-! ## Symbols -/

/-- The symbols at a fault are the first of those that the statements declare. -/
theorem Stmt.prefix_declaredBeforeList (opts : Options) (stmts : List Stmt) : ∀ t : SymbolTable,
    (Stmt.declaredBeforeList opts t stmts).entries <+: (Stmt.declaredList t stmts).entries := by
  have hcons : ∀ (s : Stmt) (rest : List Stmt) (t : SymbolTable),
      (s.declaredBefore opts t).entries <+: (s.declared t).entries →
      (Stmt.declaredBeforeList opts (s.declared t) rest).entries <+: (Stmt.declaredList (s.declared t) rest).entries →
      (Stmt.declaredBeforeList opts t (s :: rest)).entries <+: (Stmt.declaredList t (s :: rest)).entries := by
    intro s rest t hs hrest
    simp only [Stmt.declaredBeforeList, Stmt.declaredList]
    split
    · exact hs.trans (Stmt.prefix_declaredList rest _)
    · exact hrest
  induction stmts using Stmt.list_induction with
  | nil => exact fun t => List.prefix_rfl
  | declaration pos dataType names rest ih =>
    exact fun t => hcons _ _ t (SymbolTable.prefix_declareAll names dataType t) (ih _)
  | assignment pos target value rest ih => exact fun t => hcons _ _ t List.prefix_rfl (ih _)
  | output pos value rest ih => exact fun t => hcons _ _ t List.prefix_rfl (ih _)
  | loop pos condition body rest ihbody ih =>
    intro t
    refine hcons _ _ t ?_ (ih _)
    simp only [Stmt.declaredBefore, Stmt.declared]
    split
    · exact Stmt.prefix_declaredList body t
    · exact ihbody t

/-! ## Translation into a context -/

/-- A cut behind other code, said of the whole code. -/
theorem Code.Truncates.eq_mapIdx {before cut full : Code} (h : Code.Truncates (before ++ cut).length cut full) :
    before ++ cut =
      ((before ++ full).take (before ++ cut).length).mapIdx fun k i =>
        if before.length ≤ k then i.unpatched (before ++ cut).length else i := by
  obtain ⟨front, rest, rfl, hcut⟩ := h
  have hsame : cut.length = front.length := (congrArg List.length hcut).trans (List.length_map _)
  have hlength : (before ++ cut).length = (before ++ front).length := by
    rw [List.length_append, hsame, List.length_append]
  generalize (before ++ cut).length = m at hcut hlength ⊢
  have hfront : (before ++ (front ++ rest)).take m = before ++ front := by
    rw [hlength, ← List.append_assoc, List.take_left']
    rfl
  rw [hfront, List.mapIdx_append]
  have hbefore : before.mapIdx (fun k i => if before.length ≤ k then i.unpatched m else i) = before := by
    refine List.ext_getElem (by simp) fun k hk hk' => ?_
    simp [Nat.not_le.2 hk']
  have hbehind : front.mapIdx (fun k i => if before.length ≤ k + before.length then i.unpatched m else i) = cut := by
    rw [hcut]
    refine List.ext_getElem (by simp) fun k hk hk' => ?_
    simp
  rw [hbefore, hbehind]

/-- **A refused translation is a truncated one**: the first instructions of the translation that refuses no names,
where exactly the new conditional jumps to a place behind the next instruction lack their operand, and the first of
its symbols. -/
theorem compile_truncated {opts : Options} {ctx strict loose : Context} {stmts : List Stmt} {name : Text}
    {pos : Position}
    (hstrict : ctx.compile opts.tight stmts = (strict, some (.unresolved name pos)))
    (hloose : ctx.compile opts.loose stmts = (loose, none)) :
    strict.code =
        ((loose.code.take strict.code.length).mapIdx fun k i =>
          if ctx.code.length ≤ k then i.unpatched strict.code.length else i) ∧
      strict.symbols.entries <+: loose.symbols.entries := by
  rw [Context.compile_eq] at hstrict hloose
  cases htight : Stmt.faultList? opts.tight ctx.symbols stmts with
  | none => simp [htight] at hstrict
  | some e =>
    cases hsound : Stmt.faultList? opts.loose ctx.symbols stmts with
    | some e' => simp [hsound] at hloose
    | none =>
      simp only [htight, Prod.mk.injEq] at hstrict
      simp only [hsound, Prod.mk.injEq, and_true] at hloose
      obtain ⟨rfl, -⟩ := hstrict
      subst hloose
      refine ⟨Code.Truncates.eq_mapIdx (Stmt.truncates_begunList hsound htight ?_),
        Stmt.prefix_declaredBeforeList opts.tight stmts ctx.symbols⟩
      rw [List.length_append, Code.next, Nat.add_right_comm]

/-- `integer x; while (x) { while (x) { put(5); } y = 1; }`, where `y` is not declared. -/
def undeclaredTarget : List Stmt :=
  [.declaration default (bytes "integer") [bytes "x"],
    .loop default (.identifier default (bytes "x"))
      [.loop default (.identifier default (bytes "x")) [.output default (.literal default 5)],
        .assignment default (bytes "y") (.literal default 1)]]

/-- The context of an earlier program with a far jump. -/
def farJump : Context := { code := [⟨1, .jumpz, some 99⟩] }

/-- The symbol of `x`. -/
def declaredX : SymbolTable := { entries := [⟨bytes "x", 9000, bytes "integer"⟩] }

/-- What strict translation leaves: the inner loop is closed, the outer one open. -/
def undeclaredTargetStrict : Context where
  symbols := declaredX
  code := [⟨1, .jumpz, some 99⟩, ⟨2, .pushm, some 9000⟩, ⟨3, .jumpz, none⟩, ⟨4, .pushm, some 9000⟩,
    ⟨5, .jumpz, some 9⟩, ⟨6, .pushi, some 5⟩, ⟨7, .stdout, none⟩, ⟨8, .jump, some 4⟩, ⟨9, .pushi, some 1⟩]

/-- What the other translation makes of it. -/
def undeclaredTargetLoose : Context where
  symbols := declaredX
  code := [⟨1, .jumpz, some 99⟩, ⟨2, .pushm, some 9000⟩, ⟨3, .jumpz, some 12⟩, ⟨4, .pushm, some 9000⟩,
    ⟨5, .jumpz, some 9⟩, ⟨6, .pushi, some 5⟩, ⟨7, .stdout, none⟩, ⟨8, .jump, some 4⟩, ⟨9, .pushi, some 1⟩,
    ⟨10, .popm, none⟩, ⟨11, .jump, some 2⟩]

theorem undeclaredTarget_truncated :
    farJump.compile (Options.tight {}) undeclaredTarget =
        (undeclaredTargetStrict, some (.unresolved (bytes "y") default)) ∧
      farJump.compile (Options.loose {}) undeclaredTarget = (undeclaredTargetLoose, none) ∧
      undeclaredTargetStrict.code =
        ((undeclaredTargetLoose.code.take 9).mapIdx fun k i => if 1 ≤ k then i.unpatched 9 else i) ∧
      undeclaredTargetStrict.symbols.entries <+: undeclaredTargetLoose.symbols.entries := by
  have hstrict : farJump.compile (Options.tight {}) undeclaredTarget =
      (undeclaredTargetStrict, some (.unresolved (bytes "y") default)) := by decide +kernel
  have hloose : farJump.compile (Options.loose {}) undeclaredTarget = (undeclaredTargetLoose, none) := by
    decide +kernel
  exact ⟨hstrict, hloose, compile_truncated hstrict hloose⟩

end RatLang
