import RatLang.Text

/-!
# Code points

A text read as UTF-8, one code point after another. A byte that begins no well-formed sequence is a
point of its own, so every text has exactly one reading, and the points' bytes put together are the
text again (`flatMap_bytes_points`).
-/
namespace RatLang

/-- One step of reading UTF-8: the bytes taken and the code point they spell, which is absent for a
byte that begins no well-formed sequence. -/
structure Point where
  bytes : Text
  code : Option Nat
  deriving DecidableEq, Repr

namespace Point

/-- `%x80-BF`, the bytes that continue a sequence. -/
def isTail (b : UInt8) : Bool := 0x80 ≤ b && b ≤ 0xbf

/-- The bytes allowed after the first byte `b` of a sequence of three or four. The narrower ranges
exclude overlong forms, surrogates and numbers above U+10FFFF. -/
def isSecond (b c : UInt8) : Bool :=
  if b == 0xe0 then 0xa0 ≤ c && c ≤ 0xbf
  else if b == 0xed then 0x80 ≤ c && c ≤ 0x9f
  else if b == 0xf0 then 0x90 ≤ c && c ≤ 0xbf
  else if b == 0xf4 then 0x80 ≤ c && c ≤ 0x8f
  else isTail c

/-- The number that the payload bits of a sequence spell. -/
def assemble (lead : Nat) (tails : List UInt8) : Nat :=
  tails.foldl (fun n b => n * 64 + b.toNat % 64) lead

/-- The first point of the text `b :: rest`. -/
def first (b : UInt8) (rest : Text) : Point :=
  if b < 0x80 then ⟨[b], some b.toNat⟩
  else if 0xc2 ≤ b && b ≤ 0xdf then
    match rest with
    | c :: _ => if isTail c then ⟨[b, c], some (assemble (b.toNat % 32) [c])⟩ else ⟨[b], none⟩
    | _ => ⟨[b], none⟩
  else if 0xe0 ≤ b && b ≤ 0xef then
    match rest with
    | c :: d :: _ =>
      if isSecond b c && isTail d then ⟨[b, c, d], some (assemble (b.toNat % 16) [c, d])⟩
      else ⟨[b], none⟩
    | _ => ⟨[b], none⟩
  else if 0xf0 ≤ b && b ≤ 0xf4 then
    match rest with
    | c :: d :: e :: _ =>
      if isSecond b c && isTail d && isTail e then
        ⟨[b, c, d, e], some (assemble (b.toNat % 8) [c, d, e])⟩
      else ⟨[b], none⟩
    | _ => ⟨[b], none⟩
  else ⟨[b], none⟩

/-- A point is a beginning of the text it was read from, and takes at least its first byte. -/
theorem bytes_first (b : UInt8) (rest : Text) :
    (first b rest).bytes = b :: rest.take ((first b rest).bytes.length - 1) := by
  unfold first
  repeat' split
  all_goals simp

end Point

namespace Text

/-- The text as a list of points. -/
def points : Text → List Point
  | [] => []
  | b :: rest =>
    let p := Point.first b rest
    p :: points (rest.drop (p.bytes.length - 1))
termination_by t => t.length
decreasing_by simp only [List.length_drop, List.length_cons]; omega

/-- How many points the text has; a byte that is not UTF-8 counts as one. -/
def pointCount (t : Text) : Nat := t.points.length

/-- The bytes of the points are the text. -/
theorem flatMap_bytes_points (t : Text) : t.points.flatMap Point.bytes = t := by
  fun_induction points t with
  | case1 => rfl
  | case2 b rest p ih =>
    rw [List.flatMap_cons, ih]
    conv => lhs; arg 1; rw [show p.bytes = _ from Point.bytes_first b rest]
    simp [p]

/-- Whether every byte of the text belongs to a well-formed sequence. -/
def isUtf8 (t : Text) : Bool := t.points.all fun p => p.code.isSome

end Text

/-- The UTF-8 bytes of a code point. -/
def pointBytes (code : Nat) : Text := String.utf8EncodeChar (Char.ofNat code)

end RatLang
