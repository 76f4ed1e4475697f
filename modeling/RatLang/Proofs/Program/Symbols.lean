import Mathlib.Algebra.Group.Nat.Defs
import Mathlib.Data.List.Nodup
import RatLang.Proofs.Program.Emission

/-!
# Symbol tables

A table only grows, and what a name resolves to never changes once it is declared. No name occurs
twice, and the symbols stand at consecutive addresses from the base on. Addresses wrap, so they are
pairwise distinct as long as there are no more symbols than 64-bit words (`compile_distinct`).
-/
namespace RatLang

/-- Symbols are told apart by their names and by their addresses. -/
structure Distinct (symbols : List Symbol) : Prop where
  names : (symbols.map Symbol.name).Nodup
  addresses : (symbols.map Symbol.address).Nodup

theorem Distinct.of_ne {symbols : List Symbol} (h : Distinct symbols) {d e : Symbol} (hd : d ∈ symbols)
    (he : e ∈ symbols) (hne : d ≠ e) : d.name ≠ e.name ∧ d.address.toInt ≠ e.address.toInt := by
  refine ⟨fun hname => hne ?_, fun haddress => hne ?_⟩
  · exact List.inj_on_of_nodup_map h.names hd he hname
  · exact List.inj_on_of_nodup_map h.addresses hd he (Int64.toInt_inj.1 haddress)

namespace SymbolTable

/-! ## Look-up -/

theorem name_of_lookup {t : SymbolTable} {name : Text} {s : Symbol} (h : t.lookup name = some s) :
    s.name = name := by
  simpa using List.find?_some h

theorem mem_of_lookup {t : SymbolTable} {name : Text} {s : Symbol} (h : t.lookup name = some s) :
    s ∈ t.entries :=
  List.mem_of_find?_eq_some h

theorem lookup_isNone {t : SymbolTable} {name : Text} :
    t.lookup name = none ↔ ∀ s ∈ t.entries, s.name ≠ name := by
  simp [lookup]

/-- What a table resolves, every table that it grows into resolves alike. -/
theorem lookup_of_prefix {t u : SymbolTable} (h : t.entries <+: u.entries) {name : Text} {s : Symbol}
    (hl : t.lookup name = some s) : u.lookup name = some s := by
  obtain ⟨more, hu⟩ := h
  unfold lookup at hl ⊢
  rw [← hu, List.find?_append, hl]
  rfl

/-- A declared name stands for the address of a symbol. -/
theorem exists_address {t T : SymbolTable} (hT : t.entries <+: T.entries) {name : Text}
    (h : (t.lookup name).isSome) :
    ∃ e ∈ T.entries, t.address? name = some e.address.toInt := by
  obtain ⟨e, he⟩ := Option.isSome_iff_exists.1 h
  exact ⟨e, hT.subset (mem_of_lookup he), by simp [address?, he]⟩

theorem lookup_of_address? {t : SymbolTable} {name : Text} {a : Int} (h : t.address? name = some a) :
    (t.lookup name).isSome := by
  obtain ⟨e, he, -⟩ := Option.map_eq_some_iff.1 h
  rw [he]
  rfl

/-! ## Declaring -/

/-- What a declaration does: nothing for a known name, else one more entry. -/
theorem declare_cases (t : SymbolTable) (name type : Text) :
    t.declare name type = t ∨
      (t.lookup name = none ∧
        t.declare name type = { t with entries := t.entries ++ [⟨name, t.next, type⟩] }) := by
  unfold declare
  cases h : t.lookup name with
  | none => exact Or.inr ⟨rfl, by simp⟩
  | some s => exact Or.inl (by simp)

theorem prefix_declare (t : SymbolTable) (name type : Text) :
    t.entries <+: (t.declare name type).entries := by
  rcases t.declare_cases name type with e | ⟨-, e⟩
  · exact ⟨[], by rw [e, List.append_nil]⟩
  · exact ⟨[⟨name, t.next, type⟩], by rw [e]⟩

theorem prefix_declareAll (names : List Text) (type : Text) :
    ∀ t : SymbolTable, t.entries <+: (t.declareAll names type).entries := by
  induction names with
  | nil => intro t; exact List.prefix_rfl
  | cons name names ih => intro t; exact (t.prefix_declare name type).trans (ih _)

/-- Names are distinct, and the `i`-th symbol stands `i` words behind the base. -/
structure WellFormed (t : SymbolTable) : Prop where
  names : (t.entries.map Symbol.name).Nodup
  addresses : ∀ i s, t.entries[i]? = some s → s.address = t.base + Int64.ofNat i

theorem wellFormed_empty (base : Int64) : WellFormed { base := base } :=
  ⟨by simp, by simp⟩

theorem WellFormed.declare {t : SymbolTable} (h : WellFormed t) (name type : Text) :
    WellFormed (t.declare name type) := by
  rcases t.declare_cases name type with e | ⟨hn, e⟩ <;> rw [e]
  · exact h
  · refine ⟨?_, fun i s hi => ?_⟩
    · have hfresh := lookup_isNone.1 hn
      simp only [List.map_append, List.map_cons, List.map_nil]
      refine List.nodup_append.2 ⟨h.names, by simp, ?_⟩
      rintro a ha b hb rfl
      obtain ⟨s, hs, hsa⟩ := List.mem_map.1 ha
      simp only [List.mem_singleton] at hb
      exact hfresh s hs (hsa.trans hb)
    · rw [List.getElem?_append] at hi
      split at hi
      · exact h.addresses i s hi
      · rename_i hlt
        rw [List.getElem?_singleton] at hi
        split at hi
        · have hlast : i = t.entries.length := by omega
          cases hi
          rw [hlast]
          rfl
        · cases hi

theorem WellFormed.declareAll (names : List Text) (type : Text) :
    ∀ {t : SymbolTable}, WellFormed t → WellFormed (t.declareAll names type) := by
  induction names with
  | nil => intro t h; exact h
  | cons name names ih => intro t h; exact ih (h.declare name type)

/-- Different places have different addresses, up to the number of words. -/
theorem WellFormed.distinct {t : SymbolTable} (h : WellFormed t) (hsize : t.entries.length ≤ 2 ^ 64) :
    Distinct t.entries := by
  refine ⟨h.names, ?_⟩
  unfold List.Nodup
  rw [List.pairwise_map, List.pairwise_iff_getElem]
  intro i j hi hj hij heq
  rw [h.addresses i _ (List.getElem?_eq_getElem hi), h.addresses j _ (List.getElem?_eq_getElem hj),
    Int64.add_right_inj] at heq
  have hnat := congrArg (fun a => a.toUInt64.toNat) heq
  simp only [Int64.toUInt64_ofNat', UInt64.toNat_ofNat'] at hnat
  rw [Nat.mod_eq_of_lt (by omega), Nat.mod_eq_of_lt (by omega)] at hnat
  omega

end SymbolTable

/-! ## The symbols of a program -/

theorem Stmt.prefix_declaredList (stmts : List Stmt) :
    ∀ t : SymbolTable, t.entries <+: (Stmt.declaredList t stmts).entries := by
  induction stmts using Stmt.list_induction with
  | nil => intro t; simp [Stmt.declaredList]
  | declaration pos dataType names rest ih =>
    intro t
    simp only [Stmt.declaredList, Stmt.declared]
    exact (t.prefix_declareAll names dataType).trans (ih _)
  | assignment pos target value rest ih => intro t; simpa only [Stmt.declaredList, Stmt.declared] using ih t
  | output pos value rest ih => intro t; simpa only [Stmt.declaredList, Stmt.declared] using ih t
  | loop pos condition body rest ihbody ih =>
    intro t
    simp only [Stmt.declaredList, Stmt.declared]
    exact (ihbody t).trans (ih _)

theorem Stmt.wellFormed_declaredList (stmts : List Stmt) :
    ∀ {t : SymbolTable}, t.WellFormed → (Stmt.declaredList t stmts).WellFormed := by
  induction stmts using Stmt.list_induction with
  | nil => intro t h; simpa [Stmt.declaredList] using h
  | declaration pos dataType names rest ih =>
    intro t h
    simp only [Stmt.declaredList, Stmt.declared]
    exact ih (h.declareAll names dataType)
  | assignment pos target value rest ih => intro t h; simpa only [Stmt.declaredList, Stmt.declared] using ih h
  | output pos value rest ih => intro t h; simpa only [Stmt.declaredList, Stmt.declared] using ih h
  | loop pos condition body rest ihbody ih =>
    intro t h
    simp only [Stmt.declaredList, Stmt.declared]
    exact ih (ihbody h)

/-- The symbols of every compiled program are distinct, whatever the options. -/
theorem compile_distinct {opts : Options} {stmts : List Stmt} {p : Program} (h : compile opts stmts = .ok p)
    (hsize : p.symbols.length ≤ 2 ^ 64) : Distinct p.symbols := by
  obtain ⟨-, hsymbols, -⟩ := compile_eq_ok_iff.1 h
  rw [hsymbols] at hsize ⊢
  exact (Stmt.wellFormed_declaredList stmts (SymbolTable.wellFormed_empty _)).distinct hsize

end RatLang
