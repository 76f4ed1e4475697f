import RatLang.Llvm.Lower
import RatLang.Proofs.Program.Machine

/-!
# What modules do

The meaning of the main function. A numbered result is a word, the outcome of a comparison or the
address of a stack slot; globals hold words; the stack is an array whose bounds are checked where it is
read or written, not where an address is made. A block is executed as a whole, its terminator included.
Execution ends with a fault where LLVM gives no meaning.
-/
namespace RatLang.Llvm

/-! ## States -/

/-- What a result holds. -/
inductive Datum where
  | word (w : Int64)
  | flag (b : Bool)
  /-- The address of the stack's slot at an index, in bounds or not. -/
  | slot (index : Int64)
  deriving DecidableEq, Repr

/-- Why execution cannot go on. -/
inductive Fault where
  /-- A division that has no quotient. -/
  | division
  /-- The stack is read or written outside its bounds. -/
  | outside (index : Int)
  /-- A result, global or block that is not there, or not of the kind asked for. -/
  | undefined
  deriving DecidableEq, Repr

/-- The state of the main function. -/
structure State where
  results : Nat → Option Datum
  globals : Text → Option Int64
  slots : Int → Int64
  output : List Int64

/-- The quotient may be missing; all else wraps. -/
def Arith.combine? : Arith → Int64 → Int64 → Option Int64
  | .add, l, r => some (l + r)
  | .sub, l, r => some (l - r)
  | .mul, l, r => some (l * r)
  | .sdiv, l, r => Word.quotient? l r

/-- Whether a comparison holds. -/
def Predicate.holds : Predicate → Int64 → Int64 → Bool
  | .eq, l, r => l = r
  | .ne, l, r => l ≠ r
  | .slt, l, r => l < r
  | .sgt, l, r => l > r
  | .sle, l, r => l ≤ r
  | .sge, l, r => l ≥ r

namespace State

/-- The state with a result. -/
def define (s : State) (r : Nat) (d : Datum) : State :=
  { s with results := Function.update s.results r (some d) }

/-- The state with a word in a global. -/
def setGlobal (s : State) (name : Text) (w : Int64) : State :=
  { s with globals := Function.update s.globals name (some w) }

/-- The state with a word in a slot of the stack. -/
def setSlot (s : State) (i : Int) (w : Int64) : State := { s with slots := Function.update s.slots i w }

def value (s : State) : Value → Except Fault Int64
  | .const n => .ok (Int64.ofInt n)
  | .result r =>
    match s.results r with
    | some (.word w) => .ok w
    | _ => .error .undefined

def flag (s : State) (r : Nat) : Except Fault Bool :=
  match s.results r with
  | some (.flag b) => .ok b
  | _ => .error .undefined

/-- The index of the stack slot that a result is the address of. -/
def index (s : State) (r : Nat) : Except Fault Int :=
  match s.results r with
  | some (.slot i) => if 0 ≤ i.toInt ∧ i.toInt < stackSize then .ok i.toInt else .error (.outside i.toInt)
  | _ => .error .undefined

def load (s : State) : Place → Except Fault Int64
  | .global name =>
    match s.globals name with
    | some w => .ok w
    | none => .error .undefined
  | .result r => (s.index r).map s.slots

def store (s : State) (w : Int64) : Place → Except Fault State
  | .global name =>
    match s.globals name with
    | some _ => .ok (s.setGlobal name w)
    | none => .error .undefined
  | .result r => (s.index r).map fun i => s.setSlot i w

/-- What an instruction does. A call of the printer gives no word that could be used. -/
def exec (s : State) : Inst → Except Fault State
  | .load r source => return s.define r (.word (← s.load source))
  | .store v target => do s.store (← s.value v) target
  | .slot r v => return s.define r (.slot (← s.value v))
  | .arith r op left right => do
    match op.combine? (← s.value left) (← s.value right) with
    | some w => return s.define r (.word w)
    | none => throw .division
  | .compare r predicate left right =>
    return s.define r (.flag (predicate.holds (← s.value left) (← s.value right)))
  | .extend r f => return s.define r (.word (Word.ofBool (← s.flag f)))
  | .print _ v => return { s with output := s.output ++ [← s.value v] }

/-- Straight code. -/
def execAll (s : State) : List Inst → Except Fault State
  | [] => .ok s
  | i :: rest => s.exec i >>= fun t => t.execAll rest

@[simp] theorem results_define (s : State) (r k : Nat) (d : Datum) :
    (s.define r d).results k = if k = r then some d else s.results k := by
  simp [define, Function.update_apply]

@[simp] theorem globals_define (s : State) (r : Nat) (d : Datum) : (s.define r d).globals = s.globals := rfl

@[simp] theorem slots_define (s : State) (r : Nat) (d : Datum) : (s.define r d).slots = s.slots := rfl

@[simp] theorem output_define (s : State) (r : Nat) (d : Datum) : (s.define r d).output = s.output := rfl

@[simp] theorem results_setGlobal (s : State) (name : Text) (w : Int64) :
    (s.setGlobal name w).results = s.results := rfl

@[simp] theorem globals_setGlobal (s : State) (name other : Text) (w : Int64) :
    (s.setGlobal name w).globals other = if other = name then some w else s.globals other := by
  simp [setGlobal, Function.update_apply]

@[simp] theorem slots_setGlobal (s : State) (name : Text) (w : Int64) : (s.setGlobal name w).slots = s.slots := rfl

@[simp] theorem output_setGlobal (s : State) (name : Text) (w : Int64) :
    (s.setGlobal name w).output = s.output := rfl

@[simp] theorem results_setSlot (s : State) (i : Int) (w : Int64) : (s.setSlot i w).results = s.results := rfl

@[simp] theorem globals_setSlot (s : State) (i : Int) (w : Int64) : (s.setSlot i w).globals = s.globals := rfl

@[simp] theorem slots_setSlot (s : State) (i k : Int) (w : Int64) :
    (s.setSlot i w).slots k = if k = i then w else s.slots k := by
  simp [setSlot, Function.update_apply]

@[simp] theorem output_setSlot (s : State) (i : Int) (w : Int64) : (s.setSlot i w).output = s.output := rfl

theorem value_result {s : State} {r : Nat} {w : Int64} (h : s.results r = some (.word w)) :
    s.value (.result r) = .ok w := by
  simp only [value, h]

theorem flag_eq {s : State} {r : Nat} {b : Bool} (h : s.results r = some (.flag b)) : s.flag r = .ok b := by
  simp only [flag, h]

theorem load_global {s : State} {name : Text} {w : Int64} (h : s.globals name = some w) :
    s.load (.global name) = .ok w := by
  simp only [load, h]

theorem store_global {s : State} {name : Text} {old : Int64} (h : s.globals name = some old) (w : Int64) :
    s.store w (.global name) = .ok (s.setGlobal name w) := by
  simp only [store, h]

theorem index_eq {s : State} {r d : Nat} (h : s.results r = some (.slot (Int64.ofNat d))) (hd : d < stackSize) :
    s.index r = .ok d := by
  have hd' : (Int64.ofNat d).toInt = d := Int64.toInt_ofNat_of_lt (by unfold stackSize at hd; omega)
  simp only [index, h, hd']
  rw [if_pos (by omega)]

theorem load_slot {s : State} {r d : Nat} (h : s.results r = some (.slot (Int64.ofNat d))) (hd : d < stackSize) :
    s.load (.result r) = .ok (s.slots d) := by
  rw [load, index_eq h hd]
  rfl

theorem store_slot {s : State} {r d : Nat} (h : s.results r = some (.slot (Int64.ofNat d))) (hd : d < stackSize)
    (w : Int64) : s.store w (.result r) = .ok (s.setSlot d w) := by
  rw [store, index_eq h hd]
  rfl

section Straight

variable {s t : State} {r : Nat} {v left right : Value} {a b w : Int64} {rest : List Inst}

theorem execAll_load {source : Place} (h : s.load source = .ok w) :
    s.execAll (.load r source :: rest) = (s.define r (.word w)).execAll rest := by
  simp only [execAll, exec, h]
  rfl

theorem execAll_store {target : Place} (hv : s.value v = .ok w) (ht : s.store w target = .ok t) :
    s.execAll (.store v target :: rest) = t.execAll rest := by
  simp only [execAll, exec, hv]
  change (s.store w target >>= _) = _
  rw [ht]
  rfl

theorem execAll_slot (hv : s.value v = .ok w) :
    s.execAll (.slot r v :: rest) = (s.define r (.slot w)).execAll rest := by
  simp only [execAll, exec, hv]
  rfl

theorem execAll_arith {op : Arith} (hl : s.value left = .ok a) (hr : s.value right = .ok b)
    (h : op.combine? a b = some w) :
    s.execAll (.arith r op left right :: rest) = (s.define r (.word w)).execAll rest := by
  simp only [execAll, exec, hl, hr]
  change (match op.combine? a b with | some w => _ | none => _) >>= _ = _
  rw [h]
  rfl

theorem execAll_arith_none {op : Arith} (hl : s.value left = .ok a) (hr : s.value right = .ok b)
    (h : op.combine? a b = none) : s.execAll (.arith r op left right :: rest) = .error .division := by
  simp only [execAll, exec, hl, hr]
  change (match op.combine? a b with | some w => _ | none => _) >>= _ = _
  rw [h]
  rfl

theorem execAll_compare {predicate : Predicate} (hl : s.value left = .ok a) (hr : s.value right = .ok b) :
    s.execAll (.compare r predicate left right :: rest) =
      (s.define r (.flag (predicate.holds a b))).execAll rest := by
  simp only [execAll, exec, hl, hr]
  rfl

theorem execAll_extend {f : Nat} {outcome : Bool} (h : s.flag f = .ok outcome) :
    s.execAll (.extend r f :: rest) = (s.define r (.word (Word.ofBool outcome))).execAll rest := by
  simp only [execAll, exec, h]
  rfl

theorem execAll_print (hv : s.value v = .ok w) :
    s.execAll (.print r v :: rest) = execAll { s with output := s.output ++ [w] } rest := by
  simp only [execAll, exec, hv]
  rfl

end Straight

theorem execAll_append (s : State) (a b : List Inst) :
    s.execAll (a ++ b) = s.execAll a >>= fun t => t.execAll b := by
  induction a generalizing s with
  | nil => rfl
  | cons i a ih =>
    rw [List.cons_append, execAll, execAll]
    cases s.exec i with
    | error fault => rfl
    | ok t => exact ih t

theorem execAll_append_ok {s t : State} {a : List Inst} (h : s.execAll a = .ok t) (b : List Inst) :
    s.execAll (a ++ b) = t.execAll b := by
  rw [execAll_append, h]
  rfl

end State

/-! ## Blocks and modules -/

/-- Where control is. -/
inductive Control where
  | block (label : Label)
  | returned
  deriving DecidableEq, Repr

/-- Control and state. -/
structure Config where
  control : Control
  state : State

/-- The blocks a terminator can go to. -/
def Terminator.targets : Terminator → List Label
  | .goto l => [l]
  | .branch _ yes no => [yes, no]
  | .ret => []

/-- A whole block. -/
def Block.exec (b : Block) (s : State) : Except Fault Config := do
  let t ← s.execAll b.insts
  match b.terminator with
  | .goto l => return ⟨.block l, t⟩
  | .branch f yes no => return ⟨.block (if ← t.flag f then yes else no), t⟩
  | .ret => return ⟨.returned, t⟩

namespace Module

/-- The block with a label. -/
def block? (m : Module) (l : Label) : Option Block := m.blocks.find? fun b => b.label = l

/-- Everything the module declares is zero, and the entry block is next. -/
def start (m : Module) : Config where
  control := .block .entry
  state := {
    results := fun _ => none
    globals := fun name => if name ∈ stackPointer :: m.memory then some 0 else none
    slots := fun _ => 0
    output := [] }

/-- Executes the block that is next. After the return nothing happens any more. -/
def step (m : Module) (c : Config) : Except Fault Config :=
  match c.control with
  | .returned => .ok c
  | .block l =>
    match m.block? l with
    | none => .error .undefined
    | some b => b.exec c.state

/-- Executes a number of blocks from the start. -/
def run (m : Module) : Nat → Except Fault Config
  | 0 => .ok m.start
  | n + 1 => m.run n >>= m.step

theorem run_succ {m : Module} {n : Nat} {c : Config} (h : m.run n = .ok c) : m.run (n + 1) = m.step c := by
  rw [run, h]
  rfl

/-- Every block has a name of its own, and control goes from blocks to blocks only. -/
structure Closed (m : Module) : Prop where
  distinct : (m.blocks.map fun b => b.label).Nodup
  targets : ∀ b ∈ m.blocks, ∀ l ∈ b.terminator.targets, ∃ b' ∈ m.blocks, b'.label = l

end Module

end RatLang.Llvm
