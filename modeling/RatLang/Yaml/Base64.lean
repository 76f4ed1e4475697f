import RatLang.Text

/-!
# Base 64

Bytes as text: three bytes are four digits of six bits. Newlines between the digits do not count.
-/
namespace RatLang.Yaml.Base64

/-- The digit of a number below 64. -/
def digit (n : Nat) : UInt8 :=
  if n < 26 then 0x41 + n.toUInt8
  else if n < 52 then 0x61 + (n - 26).toUInt8
  else if n < 62 then 0x30 + (n - 52).toUInt8
  else if n == 62 then 0x2b
  else 0x2f

/-- Four digits for three bytes; missing bytes at the end are shown by `=`. -/
def encode : Text → Text
  | [] => []
  | [a] => [digit (a.toNat / 4), digit (a.toNat % 4 * 16), 0x3d, 0x3d]
  | [a, b] =>
    [digit (a.toNat / 4), digit (a.toNat % 4 * 16 + b.toNat / 16), digit (b.toNat % 16 * 4), 0x3d]
  | a :: b :: c :: rest =>
    [digit (a.toNat / 4), digit (a.toNat % 4 * 16 + b.toNat / 16),
      digit (b.toNat % 16 * 4 + c.toNat / 64), digit (c.toNat % 64)] ++ encode rest

/-- A text in lines of at most `width` bytes, each with a newline if there are several. -/
def wrap (width : Nat) (t : Text) : Text :=
  if t.length < width then t else lines t.length t
where
  lines : Nat → Text → Text
    | 0, _ => []
    | fuel + 1, t => if t.isEmpty then [] else Text.line (t.take width) ++ lines fuel (t.drop width)

/-- The number of a digit. -/
def value? (b : UInt8) : Option Nat :=
  if 0x41 ≤ b && b ≤ 0x5a then some (b.toNat - 0x41)
  else if 0x61 ≤ b && b ≤ 0x7a then some (b.toNat - 0x61 + 26)
  else if isDigit b then some (b.toNat - 0x30 + 52)
  else if b == 0x2b then some 62
  else if b == 0x2f then some 63
  else none

/-- The bytes that groups of four digits spell. -/
def groups? : Text → Option Text
  | [] => some []
  | [a, b, 0x3d, 0x3d] => do
    let a ← value? a
    let b ← value? b
    return [(a * 4 + b / 16).toUInt8]
  | [a, b, c, 0x3d] => do
    let a ← value? a
    let b ← value? b
    let c ← value? c
    return [(a * 4 + b / 16).toUInt8, (b % 16 * 16 + c / 4).toUInt8]
  | a :: b :: c :: d :: rest => do
    let a ← value? a
    let b ← value? b
    let c ← value? c
    let d ← value? d
    return [(a * 4 + b / 16).toUInt8, (b % 16 * 16 + c / 4).toUInt8, (c % 4 * 64 + d).toUInt8] ++
      (← groups? rest)
  | _ => none

/-- The bytes that a text spells. -/
def decode? (t : Text) : Option Text := groups? (t.filter fun b => b != 0x0a && b != 0x0d)

end RatLang.Yaml.Base64
