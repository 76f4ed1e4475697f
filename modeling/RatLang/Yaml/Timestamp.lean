import RatLang.Text.Numeral

/-!
# Timestamps

Dates, with or without a time of day: `2024-1-2`, `2024-01-02 15:04:05`, `2024-01-02T15:04:05Z`.
Numbers other than the year may have one digit. The time may have a fraction of a second, and after
a `T` it has a time zone.
-/
namespace RatLang.Yaml.Timestamp

/-- A number of one or two digits, and what follows it. -/
def number? : Text → Option (Nat × Text)
  | a :: b :: rest =>
    if !isDigit a then none
    else if isDigit b then some ((a.toNat - 0x30) * 10 + (b.toNat - 0x30), rest)
    else some (a.toNat - 0x30, b :: rest)
  | [a] => if isDigit a then some (a.toNat - 0x30, []) else none
  | [] => none

/-- A given byte, and what follows it. -/
def expect? (b : UInt8) : Text → Option Text
  | c :: rest => if c == b then some rest else none
  | [] => none

/-- Whether a year has 366 days. -/
def isLeap (year : Nat) : Bool := year % 4 == 0 && (year % 100 != 0 || year % 400 == 0)

/-- The number of days of a month. -/
def daysIn (year month : Nat) : Nat :=
  if month == 2 then if isLeap year then 29 else 28
  else if month == 4 || month == 6 || month == 9 || month == 11 then 30
  else 31

/-- A date, and what follows it. -/
def date? (t : Text) : Option Text := do
  let (yearDigits, t) := t.span isDigit
  if yearDigits.length != 4 then none
  let year := yearDigits.foldl (fun n b => n * 10 + (b.toNat - 0x30)) 0
  let (month, t) ← number? (← expect? 0x2d t)
  let (day, t) ← number? (← expect? 0x2d t)
  if 1 ≤ month && month ≤ 12 && 1 ≤ day && day ≤ daysIn year month then return t else none

/-- Goes past a fraction of a second, if there is one. -/
def skipFraction : Text → Text
  | a :: b :: rest =>
    if (a == 0x2e || a == 0x2c) && isDigit b then rest.dropWhile isDigit else a :: b :: rest
  | t => t

/-- A time of day, and what follows it. -/
def time? (t : Text) : Option Text := do
  let (hour, t) ← number? t
  let (minute, t) ← number? (← expect? 0x3a t)
  let (second, t) ← number? (← expect? 0x3a t)
  if hour < 24 && minute < 60 && second < 60 then return skipFraction t else none

/-- Whether a text is a time zone: `Z` or a sign, hours and minutes. -/
def isZone : Text → Bool
  | [z] => z == 0x5a
  | [sign, h₁, h₂, colon, m₁, m₂] =>
    let two (a b : UInt8) : Nat := (a.toNat - 0x30) * 10 + (b.toNat - 0x30)
    (sign == 0x2b || sign == 0x2d) && colon == 0x3a && [h₁, h₂, m₁, m₂].all isDigit &&
      two h₁ h₂ ≤ 24 && two m₁ m₂ ≤ 60
  | _ => false

/-- Whether a text is a timestamp. -/
def matches? (t : Text) : Bool :=
  match date? t with
  | none => false
  | some [] => true
  | some (b :: rest) =>
    if b == 0x54 || b == 0x74 then (time? rest).any isZone
    else b == 0x20 && (time? (rest.dropWhile (· == 0x20))).any List.isEmpty

end RatLang.Yaml.Timestamp
