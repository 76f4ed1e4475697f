import RatLang.Program.Instruction

/-!
# Stack depth

Every path through the code, followed from the first instruction, must leave the value stack usable:
no instruction pops more than there is, none pushes past the reserved size, and all paths to an
instruction arrive with the same number of values. The depths are found by visiting each reachable
instruction once, from a list of those still to be visited. Jump operands are taken to be in range.
-/
namespace RatLang

/-- The number of values that the stack has room for. -/
def stackSize : Nat := 1024

/-- How the stack is misused. -/
inductive DepthFault where
  /-- It pops more values than there are. -/
  | underflow (pops depth : Nat)
  /-- It pushes past the reserved size. -/
  | overflow
  /-- A successor is reached with `depth` values here and with `other` on another path. -/
  | mismatch (depth : Nat) (successor : Nat) (other : Nat)
  deriving DecidableEq, Repr

namespace Opcode

/-- The number of values an operation pops. -/
def pops : Opcode → Nat
  | pushi | pushm | jump => 0
  | popm | stdout | jumpz => 1
  | _ => 2

/-- The number of values an operation pushes. -/
def pushes : Opcode → Nat
  | popm | stdout | jumpz | jump => 0
  | _ => 1

end Opcode

namespace Instruction

/-- The indices control can go to from an instruction at `index`, the target of a jump first. -/
def successors (i : Instruction) (index : Nat) : List Nat :=
  match i.op with
  | .jump => [(i.operand.getD 0).toNat]
  | .jumpz => [(i.operand.getD 0).toNat, index + 1]
  | _ => [index + 1]

end Instruction

namespace Depth

/-- What is known of each index: its depth, once a path to it was found. -/
abbrev Depths := List (Option Nat)

/-- The number of indices not reached so far. -/
def unreached (depths : Depths) : Nat := depths.countP Option.isNone

/-- The depths found and the indices still to be visited. Their measure never grows. -/
structure Frontier (measure : Nat) where
  depths : Depths
  work : List Nat
  bound : unreached depths + work.length ≤ measure

theorem unreached_set {depths : Depths} {index depth : Nat} (h : depths[index]? = some none) :
    unreached (depths.set index (some depth)) + 1 = unreached depths := by
  induction depths generalizing index with
  | nil => simp at h
  | cons d ds ih =>
    cases index with
    | zero => simp at h; subst h; simp [unreached]
    | succ i =>
      simp only [List.getElem?_cons_succ] at h
      have := ih h
      simp only [unreached, List.set_cons_succ, List.countP_cons] at this ⊢
      omega

/-- Records that an instruction's successors are reached with `depth` values; those reached for the
first time are to be visited. -/
def reach {n : Nat} (depth : Nat) (front : Frontier n) :
    List Nat → Except DepthFault (Frontier n)
  | [] => .ok front
  | s :: rest =>
    match h : front.depths[s]? with
    | some none =>
      reach depth
        ⟨front.depths.set s (some depth), s :: front.work, by
          have := @unreached_set _ _ depth h
          have := front.bound
          simp only [List.length_cons]
          omega⟩ rest
    | some (some other) =>
      if other = depth then reach depth front rest else .error (.mismatch depth s other)
    | none => reach depth front rest

/-- Visits the indices of the list and all that can be reached from them. -/
def visit (code : Code) (depths : Depths) (work : List Nat) : Except (Instruction × DepthFault) Unit :=
  match work with
  | [] => .ok ()
  | index :: rest =>
    match code[index - 1]? with
    | none => visit code depths rest
    | some ins =>
      let depth := (depths[index]?.join).getD 0
      if depth < ins.op.pops then .error (ins, .underflow ins.op.pops depth)
      else
        let after := depth - ins.op.pops + ins.op.pushes
        if stackSize < after then .error (ins, .overflow)
        else
          match reach after (⟨depths, rest, Nat.le_refl _⟩ : Frontier (unreached depths + rest.length))
              (ins.successors index) with
          | .error fault => .error (ins, fault)
          | .ok next => visit code next.depths next.work
termination_by unreached depths + work.length
decreasing_by
  · simp
  · have := next.bound; simp only [List.length_cons]; omega

/-- Checks the stack depths of all paths from the first instruction. -/
def check (code : Code) : Except (Instruction × DepthFault) Unit :=
  visit code ((List.replicate (code.length + 2) none).set 1 (some 0)) [1]

end Depth

end RatLang
