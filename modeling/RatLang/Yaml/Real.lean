import RatLang.Text.Numeral

/-!
# Real numbers in decimal

A decimal number stands for the nearest double-precision number, a tie going to the one with the
even significand. Only the whole part of it is ever needed, and whether it exists at all: a number
from 2^1024 on, after rounding, does not.
-/
namespace RatLang.Yaml

/-- A double-precision number, up to its fraction. -/
inductive Real where
  | finite (negative : Bool) (whole : Nat)
  | infinite (negative : Bool)
  | nan
  deriving DecidableEq, Repr

namespace Real

/-- The quotient rounded to the nearest integer, a tie going to the even one. -/
def roundDiv (n d : Nat) : Nat :=
  let q := n / d
  let twice := 2 * (n % d)
  if d < twice || (twice == d && q % 2 == 1) then q + 1 else q

/-- The number of binary digits. -/
def bitLength (n : Nat) : Nat := if n == 0 then 0 else n.log2 + 1

/-- The whole part of the double nearest to `n / d`, if there is one. -/
def nearestWhole? (n d : Nat) : Option Nat :=
  let length := bitLength (n / d)
  let whole :=
    if length ≤ 53 then roundDiv (n <<< (53 - length)) d >>> (53 - length)
    else roundDiv n (d <<< (length - 53)) <<< (length - 53)
  if bitLength whole ≤ 1024 then some whole else none

/-- The whole part of the double nearest to `m * 10 ^ e`. Far from the range of doubles no power is
computed. -/
def scaledWhole? (m : Nat) (e : Int) : Option Nat :=
  let size := (natDigits m).length + e
  if m == 0 || size < -400 then some 0
  else if 400 < size then none
  else nearestWhole? (m * Nat.pow 10 e.toNat) (Nat.pow 10 (-e).toNat)

/-- The double nearest to an integer of 64 bits. -/
def ofInt (n : Int) : Real := finite (n < 0) ((nearestWhole? n.natAbs 1).getD 0)

/-- The value of decimal digits. -/
def digitsValue (t : Text) : Nat := t.foldl (fun n b => n * 10 + (b.toNat - 0x30)) 0

/-- An exponent: `e` or `E`, an optional sign and digits, or nothing. -/
def exponent? : Text → Option Int
  | [] => some 0
  | b :: rest =>
    if b == 0x65 || b == 0x45 then
      let (negative, digits) := Numeral.sign rest
      if digits.isEmpty || !digits.all isDigit then none
      else some (if negative then -(digitsValue digits : Int) else digitsValue digits)
    else none

/-- The digits after a decimal point, and what follows them. -/
def fraction : Text → Text × Text
  | 0x2e :: rest => rest.span isDigit
  | t => ([], t)

/-- A decimal number: an optional sign, digits with an optional point before, between or after them,
and an optional exponent. A number that is too large is none. -/
def read? (t : Text) : Option Real := do
  let (negative, t) := Numeral.sign t
  let (digits, t) := t.span isDigit
  let (places, t) := fraction t
  if digits.isEmpty && places.isEmpty then none
  else
    let e ← exponent? t
    let whole ← scaledWhole? (digitsValue (digits ++ places)) (e - places.length)
    return finite negative whole

/-- The number without its fraction as a 64-bit integer. Numbers above 2^63 have none, and those
without a 64-bit value otherwise become the least one. -/
def toInt64? : Real → Option Int64
  | finite negative whole =>
    if negative then some (if whole ≤ 0x8000000000000000 then Int64.ofInt (-(whole : Int)) else Int64.minValue)
    else if whole < 0x8000000000000000 then some (Int64.ofNat whole)
    else if whole == 0x8000000000000000 then some Int64.minValue
    else none
  | infinite negative => if negative then some Int64.minValue else none
  | nan => none

end Real

end RatLang.Yaml
