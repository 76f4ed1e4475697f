import Mathlib.Data.List.Dedup
import Mathlib.Data.List.Induction
import RatLang.Proofs.Program.Symbols
import RatLang.Proofs.Statement.Findings

/-!
# Addresses

The symbols of a program are its declared names in the order in which translation first meets them, and their
addresses count up from the base and wrap. A name that is declared again keeps its symbol and takes up no address. The
use of a name becomes an access to the address of that name if it was declared before, and to no address otherwise,
whatever is declared afterwards. Main statement: `compile_addresses`.
-/
namespace RatLang

/-- The name was declared before the moment. -/
def Moment.knows (m : Moment) (name : Text) : Bool := (declarings m.before).any (·.name = name)

/-- The declaration at a moment, if it is the first one of its name. -/
def Moment.first? (m : Moment) : Option Declaring :=
  match m.visit with
  | .declare d => if m.knows d.name then none else some d
  | .value _ | .operator .. | .use _ => none

/-- The use at a moment, and whether its name was declared before. -/
def Moment.use? (m : Moment) : Option (Use × Bool) :=
  match m.visit with
  | .use u => some (u, m.knows u.name)
  | .declare _ | .value _ | .operator .. => none

/-- The symbol of the `i`-th name. -/
def Declaring.symbol (base : Int64) (i : Nat) (d : Declaring) : Symbol := ⟨d.name, base + Int64.ofNat i, d.type⟩

/-- The instruction accesses the address of the name if it is known, and no address otherwise. -/
def Use.Resolves (symbols : List Symbol) (r : Use × Bool) (i : Instruction) : Prop :=
  i.op = r.1.op ∧
    if r.2 then ∃ s ∈ symbols, s.name = r.1.name ∧ i.operand = some s.address.toInt else i.operand = none

/-- The addresses of a program and their uses, as the walk through its statements gives them. -/
structure Addressed (base : Int64) (walk : List Visit) (p : Program) : Prop where
  /-- The symbols are the first declarations in their order, at consecutive addresses. -/
  symbols : p.symbols = (gather Moment.first? [] walk).mapIdx (Declaring.symbol base)
  /-- Every declared name has one symbol, and no other name has any. -/
  names : (p.symbols.map Symbol.name).Perm ((declarings walk).map Declaring.name).dedup
  /-- No two names share an address. -/
  apart : ((declarings walk).map Declaring.name).dedup.length ≤ 2 ^ 64 → (p.symbols.map Symbol.address).Nodup
  /-- The uses become the accesses, one each and in order. -/
  accesses : List.Forall₂ (Use.Resolves p.symbols) (gather Moment.use? [] walk) (p.code.filter (·.op.isAccess))

/-! ## Symbols -/

theorem base_tableAfter (base : Int64) (walk : List Visit) : (tableAfter base walk).base = base := by
  refine tableAfter_induction (P := fun _ t => t.base = base) [] rfl ?_ walk
  intro ds t d h
  rcases t.declare_cases d.name d.type with e | ⟨-, e⟩
  · rw [e, h]
  · rw [e, h]

theorem wellFormed_tableAfter (base : Int64) (walk : List Visit) : (tableAfter base walk).WellFormed :=
  tableAfter_induction (P := fun _ t => t.WellFormed) [] (SymbolTable.wellFormed_empty base)
    (fun _ _ d h => h.declare d.name d.type) walk

/-- The table holds the first declarations, at the addresses of their places. -/
theorem entries_tableAfter (base : Int64) (walk : List Visit) :
    (tableAfter base walk).entries = (gather Moment.first? [] walk).mapIdx (Declaring.symbol base) := by
  -- from the last visit back: it is the one whose moment sees all others
  induction walk using List.reverseRecOn with
  | nil => rfl
  | append_singleton walk v ih =>
    rw [gather_append, List.nil_append, gather_cons, gather_nil, List.append_nil]
    cases v with
    | declare d =>
      have hknown := lookup_tableAfter base walk d.name
      rw [tableAfter_concat_declare]
      rcases (tableAfter base walk).declare_cases d.name d.type with e | ⟨hnew, e⟩
      · have hold := (SymbolTable.declare_eq_self_iff _ _ _).1 e
        rw [hknown] at hold
        rw [e, ih]
        simp [Moment.first?, Moment.knows, hold]
      · rw [hnew, Option.isSome_none] at hknown
        have hnext : (tableAfter base walk).next = base + Int64.ofNat (gather Moment.first? [] walk).length := by
          rw [SymbolTable.next, base_tableAfter, ih, List.length_mapIdx]
        simp only [Moment.first?, Moment.knows, ← hknown, Bool.false_eq_true, if_false, Option.toList_some,
          List.mapIdx_concat, Declaring.symbol, e, ih, hnext]
    | value | operator | use =>
      rw [show Moment.first? _ = none from rfl, Option.toList_none, List.append_nil, ← ih]
      simp [tableAfter]

theorem mem_names_tableAfter (base : Int64) (walk : List Visit) (name : Text) :
    name ∈ (tableAfter base walk).entries.map Symbol.name ↔ name ∈ (declarings walk).map Declaring.name := by
  have hknown := lookup_tableAfter base walk name
  rw [Bool.eq_iff_iff, SymbolTable.lookup, List.find?_isSome, List.any_eq_true] at hknown
  simpa using hknown

theorem perm_names_tableAfter (base : Int64) (walk : List Visit) :
    ((tableAfter base walk).entries.map Symbol.name).Perm ((declarings walk).map Declaring.name).dedup := by
  rw [List.perm_ext_iff_of_nodup (wellFormed_tableAfter base walk).names (List.nodup_dedup _)]
  intro name
  rw [List.mem_dedup, mem_names_tableAfter]

/-! ## Accesses -/

/-- A name has an address at a moment exactly if it was declared before. -/
theorem Moment.use?_eq (base : Int64) (m : Moment) :
    m.use? = (m.access? base).map fun r => (r.1, r.2.isSome) := by
  obtain ⟨before, visit⟩ := m
  cases visit with
  | use u => simp [Moment.use?, Moment.access?, Moment.knows, SymbolTable.address?, lookup_tableAfter]
  | declare | value | operator => rfl

theorem gather_use? (base : Int64) (before walk : List Visit) :
    gather Moment.use? before walk = (gather (Moment.access? base) before walk).map fun r => (r.1, r.2.isSome) := by
  rw [gather, funext (Moment.use?_eq base), gather, List.map_filterMap]

theorem forall₂_resolves {opts : Options} {stmts : List Stmt} {p : Program} (h : compile opts stmts = .ok p) :
    List.Forall₂ (Use.Resolves p.symbols) (gather Moment.use? [] (Stmt.walkList opts.arithmetic stmts))
      (p.code.filter (·.op.isAccess)) := by
  rw [gather_use? opts.base, List.forall₂_map_left_iff, symbols_eq h]
  refine ((List.forall₂_and_left _ _).2 ⟨fun r hr => hr, forall₂_accesses h⟩).imp fun r i ⟨hr, hop, hoperand⟩ => ?_
  refine ⟨hop, ?_⟩
  cases haddress : r.2 with
  | none => exact hoperand.trans haddress
  | some a =>
    obtain ⟨s, hs, hname, ha⟩ := symbol_of_access? hr haddress
    exact ⟨s, hs, hname, by rw [hoperand, haddress, ha]⟩

/-- **Addresses**: the symbols of a program are the distinct names in the order of their first declarations, at
consecutive addresses that wrap and do not collide, and every use of a name accesses the address of that name, or none
if the name was not declared before. -/
theorem compile_addresses {opts : Options} {stmts : List Stmt} {p : Program} (h : compile opts stmts = .ok p) :
    Addressed opts.base (Stmt.walkList opts.arithmetic stmts) p := by
  have hsymbols := symbols_eq h
  have hnames := perm_names_tableAfter opts.base (Stmt.walkList opts.arithmetic stmts)
  rw [← hsymbols] at hnames
  refine ⟨hsymbols.trans (entries_tableAfter _ _), hnames, fun hsize => ?_, forall₂_resolves h⟩
  rw [← hnames.length_eq, List.length_map] at hsize
  exact (compile_distinct h hsize).addresses

/-- Two names, used before their declarations, between them and after them; a loop declares both. -/
def interleaved : List Stmt :=
  [.assignment ⟨[], 0, 1, 1⟩ (bytes "y") (.identifier ⟨[], 4, 1, 5⟩ (bytes "x")),
   .declaration ⟨[], 7, 2, 1⟩ (bytes "integer") [bytes "x"],
   .loop ⟨[], 18, 3, 1⟩ (.identifier ⟨[], 24, 3, 7⟩ (bytes "x"))
    [.declaration ⟨[], 30, 4, 3⟩ (bytes "string") [bytes "y", bytes "x"],
     .assignment ⟨[], 43, 5, 3⟩ (bytes "x") (.identifier ⟨[], 47, 5, 7⟩ (bytes "y"))],
   .declaration ⟨[], 53, 7, 1⟩ (bytes "integer") [bytes "y"],
   .output ⟨[], 64, 8, 1⟩ (.identifier ⟨[], 71, 8, 8⟩ (bytes "y"))]

/-- From the last address on, the second symbol stands at the first one. -/
theorem interleaved_addresses :
    ∃ p, compile { base := 9223372036854775807 } interleaved = .ok p ∧
      p.symbols = [⟨bytes "x", 9223372036854775807, bytes "integer"⟩,
        ⟨bytes "y", -9223372036854775808, bytes "string"⟩] ∧
      p.code.accesses = [(.pushm, none), (.popm, none), (.pushm, some 9223372036854775807),
        (.pushm, some (-9223372036854775808)), (.popm, some 9223372036854775807),
        (.pushm, some (-9223372036854775808))] ∧
      Addressed 9223372036854775807 (Stmt.walkList false interleaved) p := by
  have hcompile : compile { base := 9223372036854775807 } interleaved = .ok _ := rfl
  exact ⟨_, hcompile, by decide, by decide, compile_addresses hcompile⟩

end RatLang
