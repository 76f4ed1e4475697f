import RatLang.Proofs.Program.Meaning
import RatLang.Proofs.Program.Placed

/-!
# Compiled programs keep their meaning

A program that compiles with strictness and arithmetic runs on the stack machine as it is meant. The
simulation is about statements in their place (`Placed`): a loop that declares names runs its condition
again after they are declared, so memory keeps the symbols of the whole program all the time.

For expressions one equivalence says both directions (`Expr.haltsIn_emitted`). For statements a
terminating run is followed by induction on the run (`Runs.halts`), and a machine that halts is read
back as a run by induction on its number of steps (`runs_of_haltsIn`).
-/
namespace RatLang

open Machine

/-! ## Stores in memory -/

/-- The memory keeps the store: every symbol's word is at its address, and all else is zero. -/
structure Keeps (symbols : List Symbol) (memory : Int → Int64) (s : Store) : Prop where
  declared : ∀ e ∈ symbols, memory e.address.toInt = s e.name
  undeclared : ∀ name, (∀ e ∈ symbols, e.name ≠ name) → s name = 0
  elsewhere : ∀ a, (∀ e ∈ symbols, e.address.toInt ≠ a) → memory a = 0

namespace Keeps

variable {symbols : List Symbol} {memory : Int → Int64} {s s' : Store}

theorem zero (symbols : List Symbol) : Keeps symbols (fun _ => 0) Store.zero :=
  ⟨fun _ _ => rfl, fun _ _ => rfl, fun _ _ => rfl⟩

/-- A memory keeps one store only. -/
theorem unique (h : Keeps symbols memory s) (h' : Keeps symbols memory s') : s = s' := by
  funext name
  by_cases hn : ∃ e ∈ symbols, e.name = name
  · obtain ⟨e, he, rfl⟩ := hn
    rw [← h.declared e he, h'.declared e he]
  · have hne : ∀ e ∈ symbols, e.name ≠ name := fun e he hen => hn ⟨e, he, hen⟩
    rw [h.undeclared name hne, h'.undeclared name hne]

/-- Assigning to a symbol. Names and addresses tell symbols apart. -/
theorem update (hsym : Distinct symbols) (h : Keeps symbols memory s) {e : Symbol} (he : e ∈ symbols) (v : Int64) :
    Keeps symbols (Function.update memory e.address.toInt v) (Function.update s e.name v) := by
  refine ⟨fun d hd => ?_, fun name hname => ?_, fun a ha => ?_⟩
  · by_cases hde : d = e
    · subst hde
      simp
    · obtain ⟨hn, ha⟩ := hsym.of_ne hd he hde
      rw [Function.update_of_ne ha, Function.update_of_ne hn]
      exact h.declared d hd
  · rw [Function.update_of_ne (Ne.symm (hname e he))]
    exact h.undeclared name hname
  · rw [Function.update_of_ne (Ne.symm (ha e he))]
    exact h.elsewhere a ha

end Keeps

/-! ## Expressions -/

/-- In strict mode a use without fault is resolved. -/
theorem SymbolTable.lookup_of_fault? {opts : Options} (hs : opts.strict = true) {t : SymbolTable} {name : Text}
    {pos : Position} (h : t.fault? opts name pos = none) :
    ∃ e, t.lookup name = some e ∧ t.address? name = some e.address.toInt := by
  cases hl : t.lookup name with
  | none => simp [SymbolTable.fault?, hs, hl] at h
  | some e => exact ⟨e, rfl, by simp [SymbolTable.address?, hl]⟩

section

variable {code : Code} {opts : Options} {T : SymbolTable}

/-- The code of an expression halts as what follows it halts with the value pushed. Without a value the
machine does not halt. -/
theorem Expr.haltsIn_emitted (hs : opts.strict = true) {t : SymbolTable} (hT : t.entries <+: T.entries)
    {memory : Int → Int64} {s : Store} (hk : Keeps T.entries memory s) {output : List Int64} {last : Machine} :
    ∀ (e : Expr) (n : Nat) (stack : List Int64) (k : Nat), opts.arithmetic = true → e.fault? opts t = none →
      code.Holds n (e.emitted true t n) →
      (HaltsIn code k ⟨n, stack, memory, output⟩ last ↔
        ∃ v k', k = k' + (e.emitted true t n).length ∧ e.eval? s = some v ∧
          HaltsIn code k' ⟨n + (e.emitted true t n).length, v :: stack, memory, output⟩ last) := by
  intro e
  induction e with
  | literal pos value =>
    intro n stack k _ _ hcode
    rw [haltsIn_at hcode.1]
    simp [Expr.emitted, Expr.eval?, perform]
  | identifier pos name =>
    intro n stack k _ hf hcode
    obtain ⟨e, he, ha⟩ := SymbolTable.lookup_of_fault? hs hf
    have hword : memory e.address.toInt = s name := by
      have hmem := SymbolTable.mem_of_lookup (SymbolTable.lookup_of_prefix hT he)
      rw [hk.declared e hmem, SymbolTable.name_of_lookup he]
    rw [haltsIn_at hcode.1]
    simp [Expr.emitted, Expr.eval?, perform, ha, hword]
  | binary pos operator left right ihl ihr =>
    intro n stack k harith hf hcode
    obtain ⟨op, hop, hfl, hfr⟩ := Expr.operator_of_fault? harith hf
    simp only [Expr.emitted, hop, Code.holds_append, Code.holds_singleton, List.length_append,
      List.length_singleton] at hcode ⊢
    obtain ⟨hl, hr, hc⟩ := hcode
    have ihl := ihl n stack k harith hfl hl
    have ihr := fun v k => ihr (n + (left.emitted true t n).length) (v :: stack) k harith hfr hr
    generalize left.emitted true t n = L at *
    generalize right.emitted true t (n + L.length) = R at *
    have hperform := fun l r => perform_operator (Opcode.mem_operators hop) (n + L.length + R.length) l r stack
      memory output ((n + L.length + R.length : Nat) : Int) none
    have hpc : n + (L.length + (R.length + 1)) = n + L.length + R.length + 1 := by omega
    rw [hpc, ihl]
    constructor
    · rintro ⟨l, k₁, rfl, hl, h⟩
      obtain ⟨r, k₂, rfl, hr, h⟩ := (ihr l k₁).1 h
      obtain ⟨m, k₃, rfl, hm, h⟩ := (haltsIn_at hc).1 h
      rw [hperform, Option.map_eq_some_iff] at hm
      obtain ⟨v, hv, rfl⟩ := hm
      exact ⟨v, k₃, by omega, by simp [Expr.eval?, hl, hr, operate?_eq_combine? hop, hv], h⟩
    · rintro ⟨v, k₃, rfl, hv, h⟩
      simp only [Expr.eval?] at hv
      split at hv
      · rename_i l r hl hr
        rw [operate?_eq_combine? hop] at hv
        have h₂ := (haltsIn_at hc).2 ⟨_, k₃, rfl, by rw [hperform, hv]; rfl, h⟩
        exact ⟨l, k₃ + 1 + R.length, by omega, hl, (ihr l _).2 ⟨r, _, rfl, hr, h₂⟩⟩
      · cases hv

/-- An expression and an instruction that pops its value. -/
theorem Expr.haltsIn_then (hs : opts.strict = true) (ha : opts.arithmetic = true) {t : SymbolTable}
    (hT : t.entries <+: T.entries) {memory : Int → Int64} {s : Store} (hk : Keeps T.entries memory s)
    {output : List Int64} {last : Machine} {e : Expr} {n : Nat} {stack : List Int64} {k : Nat}
    (hf : e.fault? opts t = none) (hcode : code.Holds n (e.emitted true t n)) {i : Instruction}
    (hi : code.at? (n + (e.emitted true t n).length : Nat) = some i) {f : Int64 → Machine}
    (hp : ∀ v, perform ⟨n + (e.emitted true t n).length, v :: stack, memory, output⟩ i = some (f v)) :
    HaltsIn code k ⟨n, stack, memory, output⟩ last ↔
      ∃ v k', k = k' + (e.emitted true t n).length + 1 ∧ e.eval? s = some v ∧
        HaltsIn code k' (f v) last := by
  rw [Expr.haltsIn_emitted hs hT hk e n stack k ha hf hcode]
  constructor
  · rintro ⟨v, k₁, rfl, hv, h⟩
    obtain ⟨m, k₂, rfl, hm, h⟩ := (haltsIn_at hi).1 h
    rw [hp] at hm
    cases hm
    exact ⟨v, k₂, by omega, hv, h⟩
  · rintro ⟨v, k₂, rfl, hv, h⟩
    exact ⟨v, k₂ + 1, by omega, hv, (haltsIn_at hi).2 ⟨_, k₂, rfl, hp v, h⟩⟩

/-! ## The simulation -/

section

variable (hs : opts.strict = true) (ha : opts.arithmetic = true)
variable {t : SymbolTable} {n : Nat} {pos : Position} {rest : List Stmt}
variable {s : Store} {memory : Int → Int64} (hk : Keeps T.entries memory s)

include hs ha hk

/-- The machine evaluates the value and keeps it under the target. -/
theorem Placed.haltsIn_assignment (hsym : Distinct T.entries) {target : Text} {value : Expr}
    (hp : Placed code opts true T t n (.assignment pos target value :: rest)) (stack output : List Int64) :
    ∃ a, (∀ v, Keeps T.entries (Function.update memory a v) (Function.update s target v)) ∧
      ∀ k last, HaltsIn code k ⟨n, stack, memory, output⟩ last ↔
        ∃ v k', k = k' + (value.emitted true t n).length + 1 ∧ value.eval? s = some v ∧
          HaltsIn code k' ⟨n + (value.emitted true t n).length + 1, stack, Function.update memory a v, output⟩
            last := by
  obtain ⟨hf, hft, hcode, hi, -⟩ := hp.assignment
  obtain ⟨e, he, haddr⟩ := SymbolTable.lookup_of_fault? hs hft
  have hmem := SymbolTable.mem_of_lookup (SymbolTable.lookup_of_prefix hp.prefix_table he)
  refine ⟨e.address.toInt, fun v => ?_, fun k last => ?_⟩
  · rw [← SymbolTable.name_of_lookup he]
    exact hk.update hsym hmem v
  · exact Expr.haltsIn_then hs ha hp.prefix_table hk hf hcode hi fun v => by simp [perform, haddr]

/-- The machine evaluates the value and puts it out. -/
theorem Placed.haltsIn_output {value : Expr} (hp : Placed code opts true T t n (.output pos value :: rest))
    (stack output : List Int64) (k : Nat) (last : Machine) :
    HaltsIn code k ⟨n, stack, memory, output⟩ last ↔
      ∃ v k', k = k' + (value.emitted true t n).length + 1 ∧ value.eval? s = some v ∧
        HaltsIn code k' ⟨n + (value.emitted true t n).length + 1, stack, memory, output ++ [v]⟩ last := by
  obtain ⟨hf, hcode, hi, -⟩ := hp.output
  exact Expr.haltsIn_then hs ha hp.prefix_table hk hf hcode hi fun v => by simp [perform]

/-- The machine evaluates the condition and goes behind the loop on zero, else into the body. -/
theorem Placed.haltsIn_loop {condition : Expr} {body : List Stmt}
    (hp : Placed code opts true T t n (.loop pos condition body :: rest)) (stack output : List Int64) (k : Nat)
    (last : Machine) :
    HaltsIn code k ⟨n, stack, memory, output⟩ last ↔
      ∃ v k', k = k' + (condition.emitted true t n).length + 1 ∧ condition.eval? s = some v ∧
        HaltsIn code k' ⟨if v = 0 then Stmt.stop true t (n + (condition.emitted true t n).length + 1) body + 1
          else n + (condition.emitted true t n).length + 1, stack, memory, output⟩ last := by
  obtain ⟨hf, hcode, hi, -, -, -⟩ := hp.loop
  exact Expr.haltsIn_then hs ha hp.prefix_table hk hf hcode hi fun v => by simp [perform]

end

/-- At the end of a body the machine goes back to the condition. -/
theorem Placed.haltsIn_back {t : SymbolTable} {n : Nat} {pos : Position} {condition : Expr} {body rest : List Stmt}
    (hp : Placed code opts true T t n (.loop pos condition body :: rest)) (stack : List Int64) (memory : Int → Int64)
    (output : List Int64) (k : Nat) (last : Machine) :
    HaltsIn code k ⟨Stmt.stop true t (n + (condition.emitted true t n).length + 1) body, stack, memory, output⟩ last ↔
      ∃ k', k = k' + 1 ∧ HaltsIn code k' ⟨n, stack, memory, output⟩ last := by
  obtain ⟨-, -, -, -, hi, -⟩ := hp.loop
  rw [haltsIn_at hi]
  simp [perform]

/-- A terminating run is followed by the machine, from the code's first index to the one behind it. -/
theorem Runs.halts (hs : opts.strict = true) (ha : opts.arithmetic = true)
    (hsym : Distinct T.entries)
    {stmts : List Stmt} {s s' : Store} {o : List Int64} (h : Runs stmts s o s') :
    ∀ {t : SymbolTable} {n : Nat}, Placed code opts true T t n stmts →
      ∀ (stack : List Int64) (memory : Int → Int64) (output : List Int64), Keeps T.entries memory s →
        ∃ memory', Keeps T.entries memory' s' ∧ ∀ last,
          Halts code ⟨Stmt.stop true t n stmts, stack, memory', output ++ o⟩ last →
            Halts code ⟨n, stack, memory, output⟩ last := by
  induction h with
  | nil =>
    intro t n _ stack memory output hk
    refine ⟨memory, hk, fun last hlast => ?_⟩
    simpa [Stmt.stop_nil] using hlast
  | declaration _ ih =>
    intro t n hp stack memory output hk
    rw [Stmt.stop_declaration]
    exact ih hp.declaration stack memory output hk
  | assignment hv _ ih =>
    intro t n hp stack memory output hk
    obtain ⟨a, hupdate, hiff⟩ := hp.haltsIn_assignment hs ha hk hsym stack output
    obtain ⟨memory', hk', hlater⟩ := ih hp.assignment.2.2.2.2 stack _ output (hupdate _)
    refine ⟨memory', hk', fun last hlast => ?_⟩
    rw [Stmt.stop_assignment] at hlast
    obtain ⟨k, hk₁⟩ := hlater last hlast
    exact ⟨_, (hiff _ last).2 ⟨_, k, rfl, hv, hk₁⟩⟩
  | @output _ _ _ _ _ _ v hv _ ih =>
    intro t n hp stack memory output hk
    obtain ⟨memory', hk', hlater⟩ := ih hp.output.2.2.2 stack memory (output ++ [v]) hk
    refine ⟨memory', hk', fun last hlast => ?_⟩
    rw [Stmt.stop_output, List.append_cons] at hlast
    obtain ⟨k, hk₁⟩ := hlater last hlast
    exact ⟨_, (hp.haltsIn_output hs ha hk stack output _ last).2 ⟨v, k, rfl, hv, hk₁⟩⟩
  | leave hv _ ih =>
    intro t n hp stack memory output hk
    obtain ⟨memory', hk', hlater⟩ := ih hp.loop.2.2.2.2.2 stack memory output hk
    refine ⟨memory', hk', fun last hlast => ?_⟩
    rw [Stmt.stop_loop] at hlast
    obtain ⟨k, hk₁⟩ := hlater last hlast
    exact ⟨_, (hp.haltsIn_loop hs ha hk stack output _ last).2 ⟨0, k, rfl, hv, hk₁⟩⟩
  | again hv hne _ _ ihbody ih =>
    -- the body, the jump back, and then the same loop at the same place
    intro t n hp stack memory output hk
    obtain ⟨memory₁, hk₁, hbody⟩ := ihbody hp.loop.2.2.2.1 stack memory output hk
    obtain ⟨memory', hk', hlater⟩ := ih hp stack memory₁ _ hk₁
    refine ⟨memory', hk', fun last hlast => ?_⟩
    rw [← List.append_assoc] at hlast
    obtain ⟨k, hk₂⟩ := hlater last hlast
    obtain ⟨k', hk₃⟩ := hbody last ⟨_, (hp.haltsIn_back stack memory₁ _ _ last).2 ⟨k, rfl, hk₂⟩⟩
    refine ⟨_, (hp.haltsIn_loop hs ha hk stack output _ last).2 ⟨_, k', rfl, hv, ?_⟩⟩
    rw [if_neg hne]
    exact hk₃

/-- A machine that halts has run the statements. The induction is on the number of steps that are left:
every statement but a declaration takes at least one. -/
theorem runs_of_haltsIn (hs : opts.strict = true) (ha : opts.arithmetic = true)
    (hsym : Distinct T.entries)
    {last : Machine} :
    ∀ (k : Nat) (stmts : List Stmt) (t : SymbolTable) (n : Nat), Placed code opts true T t n stmts →
      ∀ (stack : List Int64) (memory : Int → Int64) (output : List Int64) (s : Store), Keeps T.entries memory s →
        HaltsIn code k ⟨n, stack, memory, output⟩ last →
        ∃ o s' memory' k', k' ≤ k ∧ Runs stmts s o s' ∧ Keeps T.entries memory' s' ∧
          HaltsIn code k' ⟨Stmt.stop true t n stmts, stack, memory', output ++ o⟩ last := by
  intro k
  induction k using Nat.strongRecOn with
  | ind k ih =>
  intro stmts
  induction stmts with
  | nil =>
    intro t n _ stack memory output s hk h
    exact ⟨[], s, memory, k, Nat.le_refl k, .nil, hk, by simpa [Stmt.stop_nil] using h⟩
  | cons stmt rest ihrest =>
    intro t n hp stack memory output s hk h
    cases stmt with
    | declaration pos dataType names =>
      obtain ⟨o, s', memory', k', hle, hruns, hk', h'⟩ :=
        ihrest _ n hp.declaration stack memory output s hk h
      refine ⟨o, s', memory', k', hle, .declaration hruns, hk', ?_⟩
      rwa [Stmt.stop_declaration]
    | assignment pos target value =>
      obtain ⟨a, hupdate, hiff⟩ := hp.haltsIn_assignment hs ha hk hsym stack output
      obtain ⟨v, k₁, rfl, hv, h⟩ := (hiff k last).1 h
      obtain ⟨o, s', memory', k', hle, hruns, hk', h'⟩ :=
        ih k₁ (by omega) rest t _ hp.assignment.2.2.2.2 stack _ output _ (hupdate v) h
      refine ⟨o, s', memory', k', by omega, .assignment hv hruns, hk', ?_⟩
      rwa [Stmt.stop_assignment]
    | output pos value =>
      obtain ⟨v, k₁, rfl, hv, h⟩ := (hp.haltsIn_output hs ha hk stack output k last).1 h
      obtain ⟨o, s', memory', k', hle, hruns, hk', h'⟩ :=
        ih k₁ (by omega) rest t _ hp.output.2.2.2 stack memory _ s hk h
      refine ⟨v :: o, s', memory', k', by omega, .output hv hruns, hk', ?_⟩
      rwa [Stmt.stop_output, List.append_cons]
    | loop pos condition body =>
      obtain ⟨v, k₁, rfl, hv, h⟩ := (hp.haltsIn_loop hs ha hk stack output k last).1 h
      by_cases hzero : v = 0
      · subst hzero
        obtain ⟨o, s', memory', k', hle, hruns, hk', h'⟩ :=
          ih k₁ (by omega) rest _ _ hp.loop.2.2.2.2.2 stack memory output s hk h
        refine ⟨o, s', memory', k', by omega, .leave hv hruns, hk', ?_⟩
        rwa [Stmt.stop_loop]
      · rw [if_neg hzero] at h
        obtain ⟨o₁, s₁, memory₁, k₂, hle₂, hruns₁, hk₁, hbody⟩ :=
          ih k₁ (by omega) body t _ hp.loop.2.2.2.1 stack memory output s hk h
        obtain ⟨k₃, rfl, hback⟩ := (hp.haltsIn_back stack memory₁ _ k₂ last).1 hbody
        obtain ⟨o₂, s', memory', k', hle, hruns₂, hk', h'⟩ :=
          ih k₃ (by omega) (.loop pos condition body :: rest) t n hp stack memory₁ _ s₁ hk₁ hback
        refine ⟨o₁ ++ o₂, s', memory', k', by omega, .again hv hzero hruns₁ hruns₂, hk', ?_⟩
        rwa [← List.append_assoc]

end

/-- **Semantic preservation.** A program terminates with an output and a store exactly if its compiled
code, started at index 1 with an empty stack and zero memory, halts with this output and keeps this store
in memory; and whenever the machine halts, its stack is empty and the program terminates. Addresses are
64-bit words, hence the bound on the number of symbols. -/
theorem compile_preserves_meaning (base : Int64) (stmts : List Stmt) (p : Program)
    (h : compile { base := base, strict := true, arithmetic := true } stmts = .ok p)
    (hsize : p.symbols.length ≤ 2 ^ 64) :
    (∀ o s, Runs stmts Store.zero o s ↔
      ∃ last, Machine.Halts p.code .start last ∧ last.output = o ∧ Keeps p.symbols last.memory s) ∧
    ∀ last, Machine.Halts p.code .start last →
      last.stack = [] ∧ ∃ s, Runs stmts Store.zero last.output s ∧ Keeps p.symbols last.memory s := by
  obtain ⟨T, hT, hsymbols, hp, hstop⟩ := placed_of_compile h
  rw [hsymbols] at hsize ⊢
  have hsym := hT.distinct hsize
  have forward : ∀ o s, Runs stmts Store.zero o s →
      ∃ memory, Keeps T.entries memory s ∧ Machine.Halts p.code .start ⟨p.code.length + 1, [], memory, o⟩ := by
    intro o s hruns
    obtain ⟨memory, hk, hlater⟩ := hruns.halts rfl rfl hsym hp [] _ [] (Keeps.zero _)
    rw [hstop] at hlater
    exact ⟨memory, hk, hlater _ ⟨0, rfl, rfl⟩⟩
  have backward : ∀ last, Machine.Halts p.code .start last →
      last.stack = [] ∧ ∃ s, Runs stmts Store.zero last.output s ∧ Keeps T.entries last.memory s := by
    rintro last ⟨k, hk⟩
    obtain ⟨o, s, memory, k', -, hruns, hkeeps, hend⟩ :=
      runs_of_haltsIn rfl rfl hsym k stmts _ 1 hp [] _ [] _ (Keeps.zero _) hk
    rw [hstop] at hend
    rw [hend.eq_of_behind rfl]
    exact ⟨rfl, s, hruns, hkeeps⟩
  refine ⟨fun o s => ⟨fun hruns => ?_, ?_⟩, backward⟩
  · obtain ⟨memory, hk, hhalts⟩ := forward o s hruns
    exact ⟨_, hhalts, rfl, hk⟩
  · rintro ⟨last, hhalts, rfl, hk⟩
    obtain ⟨-, s', hruns, hk'⟩ := backward last hhalts
    rwa [hk.unique hk']

/-- `integer x; x = 2; while (x) { put(x); x = x - 1; }` -/
def countdown : List Stmt :=
  let pos : Position := {}
  let x : Text := bytes "x"
  [.declaration pos (bytes "integer") [x], .assignment pos x (.literal pos 2),
    .loop pos (.identifier pos x)
      [.output pos (.identifier pos x),
        .assignment pos x (.binary pos (bytes "-") (.identifier pos x) (.literal pos 1))]]

/-- Its symbols and its code, from address 9000 on. -/
def countdownProgram : Program :=
  ⟨[⟨bytes "x", 9000, bytes "integer"⟩],
    [⟨1, .pushi, some 2⟩, ⟨2, .popm, some 9000⟩, ⟨3, .pushm, some 9000⟩, ⟨4, .jumpz, some 12⟩,
      ⟨5, .pushm, some 9000⟩, ⟨6, .stdout, none⟩, ⟨7, .pushm, some 9000⟩, ⟨8, .pushi, some 1⟩,
      ⟨9, .sub, none⟩, ⟨10, .popm, some 9000⟩, ⟨11, .jump, some 3⟩]⟩

theorem countdown_preserved :
    compile { base := 9000, strict := true, arithmetic := true } countdown = .ok countdownProgram ∧
      countdownProgram.symbols.length ≤ 2 ^ 64 ∧ ∃ s, Runs countdown Store.zero [2, 1] s := by
  have h : compile { base := 9000, strict := true, arithmetic := true } countdown = .ok countdownProgram := rfl
  have hsize : countdownProgram.symbols.length ≤ 2 ^ 64 := by decide
  -- the machine halts after 22 steps
  obtain ⟨-, s, hruns, -⟩ :=
    (compile_preserves_meaning 9000 countdown countdownProgram h hsize).2 _ ⟨22, rfl, rfl⟩
  exact ⟨h, hsize, s, hruns⟩

end RatLang
