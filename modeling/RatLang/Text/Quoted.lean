import RatLang.Text.CodePoint
import RatLang.Text.Numeral
import RatLang.Text.Printable

/-!
# Quoted text

How messages show a text: between double quotes, with printable characters as they are and an escape
for each other one, so that no two texts look alike.
-/
namespace RatLang

namespace Quoted

/-- The letter of a short escape. -/
def shortEscape? (code : Nat) : Option UInt8 :=
  if code = 0x07 then some 0x61
  else if code = 0x08 then some 0x62
  else if code = 0x0c then some 0x66
  else if code = 0x0a then some 0x6e
  else if code = 0x0d then some 0x72
  else if code = 0x09 then some 0x74
  else if code = 0x0b then some 0x76
  else none

/-- One point inside the quotes. -/
def point (p : Point) : Text :=
  match p.code with
  | none => p.bytes.flatMap fun b => bytes "\\x" ++ hexDigits 2 b.toNat
  | some code =>
    if code = 0x22 || code = 0x5c then 0x5c :: p.bytes
    else if isPrintable code then p.bytes
    else match shortEscape? code with
      | some letter => [0x5c, letter]
      | none =>
        if code < 0x20 || code = 0x7f then bytes "\\x" ++ hexDigits 2 code
        else if code < 0x10000 then bytes "\\u" ++ hexDigits 4 code
        else bytes "\\U" ++ hexDigits 8 code

end Quoted

/-- The text between double quotes, as messages show it. -/
def Text.quoted (t : Text) : Text := [0x22] ++ t.points.flatMap Quoted.point ++ [0x22]

end RatLang
