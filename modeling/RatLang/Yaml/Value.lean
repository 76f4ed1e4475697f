import RatLang.Yaml.Real
import RatLang.Yaml.Timestamp

/-!
# What a plain scalar means

A scalar without quotes is null, a truth value, a number, a timestamp or else a string. Numbers may
hold underscores, and integers announce their base as `0x`, `0o`, `0b` or by a leading `0`.
-/
namespace RatLang.Yaml

/-- The meaning of a scalar. -/
inductive Value where
  | null
  | bool (b : Bool)
  | int (n : Int)
  | real (r : Real)
  | timestamp
  | string
  deriving DecidableEq, Repr

namespace Value

/-- The tag of a type. -/
def tag : Value → Text
  | null => bytes "!!null"
  | bool _ => bytes "!!bool"
  | int _ => bytes "!!int"
  | real _ => bytes "!!float"
  | timestamp => bytes "!!timestamp"
  | string => bytes "!!str"

/-- The words with a meaning of their own. -/
def word? (t : Text) : Option Value :=
  let oneOf (words : List String) : Bool := words.any fun w => bytes w == t
  if oneOf ["", "~", "null", "Null", "NULL"] then some null
  else if oneOf ["true", "True", "TRUE"] then some (bool true)
  else if oneOf ["false", "False", "FALSE"] then some (bool false)
  else if oneOf [".nan", ".NaN", ".NAN"] then some (real .nan)
  else if oneOf [".inf", ".Inf", ".INF", "+.inf", "+.Inf", "+.INF"] then some (real (.infinite false))
  else if oneOf ["-.inf", "-.Inf", "-.INF"] then some (real (.infinite true))
  else none

/-- An integer with its sign after the `0b` or `0o` in front. -/
def signAfterBase? (t : Text) : Option Int :=
  let read (base : Nat) (t : Text) : Option Int :=
    let (negative, digits) := Numeral.sign t
    match Numeral.digits base digits >>= Numeral.signed negative with
    | .ok n => some n.toInt
    | .error _ => none
  match t with
  | 0x30 :: 0x62 :: rest => read 2 rest
  | 0x30 :: 0x6f :: rest => read 8 rest
  | _ => none

/-- An integer that fits into 64 bits, with or without a sign. -/
def int? (t : Text) : Option Int :=
  match Numeral.readInteger t with
  | .ok n => some n.toInt
  | .error _ =>
    match Numeral.readUnsigned t with
    | .ok n => some n
    | .error _ => none

/-- A number or timestamp that begins with a digit or a sign. -/
def number? (dates : Bool) (t : Text) : Option Value :=
  let plain := t.filter (· != 0x5f)
  if dates && Timestamp.matches? t then some timestamp
  else match int? plain with
    | some n => some (int n)
    | none =>
      match Real.read? plain with
      | some r => some (real r)
      | none => (signAfterBase? plain).map int

/-- The underscores between two digits taken out. Others stay. -/
def joinDigits : Text → Text
  | a :: 0x5f :: b :: rest =>
    if isDigit a && isDigit b then a :: joinDigits (b :: rest)
    else a :: 0x5f :: joinDigits (b :: rest)
  | a :: rest => a :: joinDigits rest
  | [] => []

/-- The meaning of a text, which is a timestamp only where `dates` are looked for. -/
def read (dates : Bool) (t : Text) : Value :=
  match word? t with
  | some v => v
  | none =>
    match t with
    | [] => null
    | b :: _ =>
      if isDigit b || b == 0x2b || b == 0x2d then (number? dates t).getD string
      else if b == 0x2e then ((Real.read? (joinDigits t)).map real).getD string
      else string

/-- The meaning of a plain scalar. -/
def ofPlain (t : Text) : Value := read true t

/-- The words that once were truth values. -/
def oldBool? (t : Text) : Option Bool :=
  if ["y", "Y", "yes", "Yes", "YES", "on", "On", "ON"].any (bytes · == t) then some true
  else if ["n", "N", "no", "No", "NO", "off", "Off", "OFF"].any (bytes · == t) then some false
  else none

/-- One or two digits below sixty. -/
def isSixtieth : Text → Bool
  | [b] => isDigit b
  | [a, b] => isDigit a && a ≤ 0x35 && isDigit b
  | _ => false

/-- Whether a text is a number to the base sixty, such as `12:30:45.5`. -/
def isSexagesimal (t : Text) : Bool :=
  let isDigitOrUnderscore (b : UInt8) : Bool := isDigit b || b == 0x5f
  match (Numeral.sign t).2.splitOn 0x3a with
  | first :: group :: groups =>
    let (last, fraction) := ((group :: groups).getLastD []).span (· != 0x2e)
    first.head?.any isDigit && first.all isDigitOrUnderscore &&
      (group :: groups).dropLast.all isSixtieth && isSixtieth last &&
      (fraction.drop 1).all isDigitOrUnderscore
  | _ => false

end Value

end RatLang.Yaml
