import RatLang.Text

/-!
# Numerals

Integers as text. Numbers are written in decimal without leading zeros. They are read with an
optional sign, either in decimal or in the base that the digits announce: `0x`, `0o` and `0b` are
hexadecimal, octal and binary, and a bare leading `0` is octal. Reading goes from left to right and
stops at the first fault, so a number that has left the 64-bit range is out of range whatever
follows.
-/
namespace RatLang

/-- The digit `d < 10` as a byte. -/
def digitByte (d : Nat) : UInt8 := 0x30 + d.toUInt8

/-- The decimal digits of a natural number. -/
def natDigits (n : Nat) : Text :=
  if n < 10 then [digitByte n] else natDigits (n / 10) ++ [digitByte (n % 10)]

/-- An integer in decimal. -/
def decimal : Int → Text
  | .ofNat n => natDigits n
  | .negSucc n => 0x2d :: natDigits (n + 1)

/-- The lowest `width` hexadecimal digits of a number, in lower case. -/
def hexDigits : Nat → Nat → Text
  | 0, _ => []
  | width + 1, n =>
    let d := n % 16
    hexDigits width (n / 16) ++ [if d < 10 then digitByte d else 0x57 + d.toUInt8]

/-- The lowest `width` hexadecimal digits of a number, in upper case. -/
def hexDigitsUpper : Nat → Nat → Text
  | 0, _ => []
  | width + 1, n =>
    let d := n % 16
    hexDigitsUpper width (n / 16) ++ [if d < 10 then digitByte d else 0x37 + d.toUInt8]

/-- Why a text is not a 64-bit integer. -/
inductive NumeralError where
  | malformed
  | outOfRange
  deriving DecidableEq, Repr

namespace Numeral

/-- The value of a digit of any base up to 36. -/
def digitValue? (b : UInt8) : Option Nat :=
  if isDigit b then some (b.toNat - 0x30)
  else if 0x61 ≤ b && b ≤ 0x7a then some (b.toNat - 0x57)
  else if 0x41 ≤ b && b ≤ 0x5a then some (b.toNat - 0x37)
  else none

/-- The digits of a number below 2^64, continuing from what the digits before them are worth. -/
def magnitude (base : Nat) : Nat → Text → Except NumeralError Nat
  | value, [] => .ok value
  | value, b :: rest =>
    match digitValue? b with
    | none => .error .malformed
    | some d =>
      if base ≤ d then .error .malformed
      else if 0x10000000000000000 ≤ value * base + d then .error .outOfRange
      else magnitude base (value * base + d) rest

/-- One or more digits. -/
def digits (base : Nat) : Text → Except NumeralError Nat
  | [] => .error .malformed
  | t => magnitude base 0 t

/-- The sign in front of a numeral, and the rest. -/
def sign : Text → Bool × Text
  | 0x2b :: rest => (false, rest)
  | 0x2d :: rest => (true, rest)
  | t => (false, t)

/-- A sign and a magnitude as a 64-bit integer. -/
def signed (negative : Bool) (m : Nat) : Except NumeralError Int64 :=
  if negative then
    if m ≤ 0x8000000000000000 then .ok (Int64.ofInt (-(m : Int))) else .error .outOfRange
  else if m < 0x8000000000000000 then .ok (Int64.ofNat m) else .error .outOfRange

/-- A decimal integer: an optional sign and decimal digits. -/
def readDecimal (t : Text) : Except NumeralError Int64 := do
  let (negative, rest) := sign t
  signed negative (← digits 10 rest)

/-- The base that an unsigned numeral announces, and its digits. -/
def announced : Text → Nat × Text
  | 0x30 :: b :: c :: rest =>
    if b == 0x62 || b == 0x42 then (2, c :: rest)
    else if b == 0x6f || b == 0x4f then (8, c :: rest)
    else if b == 0x78 || b == 0x58 then (16, c :: rest)
    else (8, b :: c :: rest)
  | 0x30 :: rest => (8, rest)
  | t => (10, t)

/-- Whether every underscore of an unsigned numeral stands between two digits, the marker of the
base counting as one. The flags say whether a digit or an underscore came last. -/
def underscoresSeparate (afterDigit afterUnderscore : Bool) : Text → Bool
  | [] => !afterUnderscore
  | b :: rest =>
    if b == 0x5f then afterDigit && underscoresSeparate false true rest
    else if (digitValue? b).isSome then underscoresSeparate true false rest
    else !afterUnderscore && underscoresSeparate false false rest

/-- A natural number below 2^64 in the base it announces. -/
def readUnsigned (t : Text) : Except NumeralError Nat := do
  if t.isEmpty then throw .malformed
  let (base, rest) := announced t
  let m ← magnitude base 0 (rest.filter (· != 0x5f))
  if underscoresSeparate (base != 10) false rest then return m else throw .malformed

/-- An integer in the base it announces. -/
def readInteger (t : Text) : Except NumeralError Int64 := do
  let (negative, rest) := sign t
  signed negative (← readUnsigned rest)

end Numeral

end RatLang
