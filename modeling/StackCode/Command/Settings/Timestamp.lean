import StackCode.Decimal.Reading

/-!
# Points in time

A date such as `2001-1-2`, alone or with a time of day. A time of day follows a `T` together with
its zone, or blanks without a zone, which then is universal time. Months, days, hours, minutes and
seconds have one or two digits, and a fraction of a second is kept to nine places.
-/

namespace StackCode

/-- A point in time as its zone shows it. -/
structure Timestamp where
  year : Nat
  month : Nat
  day : Nat
  hour : Nat := 0
  minute : Nat := 0
  second : Nat := 0
  nanosecond : Nat := 0
  /-- The distance of the zone from universal time, in minutes. -/
  zone : Int := 0
  deriving DecidableEq, Repr

/-- The number that decimal digits stand for. -/
def digitsNumber (ds : List Char) : Nat := ds.foldl (fun n c => 10 * n + (c.toNat - 48)) 0

/-- A number of one or two digits, and the rest. -/
def takeShortNumber? : List Char → Option (Nat × List Char)
  | [] => none
  | c :: rest =>
    if !c.isDigit then none
    else match rest with
      | d :: after => if d.isDigit then some (digitsNumber [c, d], after) else some (digitsNumber [c], rest)
      | [] => some (digitsNumber [c], [])

/-- What follows a given character. -/
def takeChar? (expected : Char) : List Char → Option (List Char)
  | c :: rest => if c == expected then some rest else none
  | [] => none

/-- A fraction of a second in nanoseconds, zero if there is none, and the rest. -/
def takeFraction : List Char → Nat × List Char
  | mark :: c :: rest =>
    if (mark == '.' || mark == ',') && c.isDigit then
      let ds := ((c :: rest).takeWhile Char.isDigit).take 9
      (digitsNumber ds * Nat.pow 10 (9 - ds.length), (c :: rest).dropWhile Char.isDigit)
    else (0, mark :: c :: rest)
  | cs => (0, cs)

/-- The zone that a text is: `Z`, or a sign with hours and minutes. -/
def zone? : List Char → Option Int
  | ['Z'] => some 0
  | [sign, a, b, ':', c, d] =>
    let hours := digitsNumber [a, b]
    let minutes := digitsNumber [c, d]
    if !([a, b, c, d].all Char.isDigit) || 24 < hours || 60 < minutes then none
    else if sign == '+' then some (60 * hours + minutes)
    else if sign == '-' then some (-(60 * hours + minutes))
    else none
  | _ => none

namespace Timestamp

/-- The number of days of a month. -/
def monthDays (year month : Nat) : Nat :=
  if month = 2 then
    if year % 4 = 0 ∧ (year % 100 ≠ 0 ∨ year % 400 = 0) then 29 else 28
  else if [4, 6, 9, 11].contains month then 30
  else 31

/-- A date, and the rest. -/
def date? : List Char → Option (Timestamp × List Char)
  | a :: b :: c :: d :: rest => do
    if !([a, b, c, d].all Char.isDigit) then none
    else
      let year := digitsNumber [a, b, c, d]
      let (month, rest) ← takeShortNumber? (← takeChar? '-' rest)
      let (day, rest) ← takeShortNumber? (← takeChar? '-' rest)
      if month = 0 ∨ 12 < month ∨ day = 0 ∨ monthDays year month < day then none
      else some ({ year, month, day }, rest)
  | _ => none

/-- A date with the time of day that follows, and the rest. -/
def withClock? (t : Timestamp) (cs : List Char) : Option (Timestamp × List Char) := do
  let (hour, rest) ← takeShortNumber? cs
  let (minute, rest) ← takeShortNumber? (← takeChar? ':' rest)
  let (second, rest) ← takeShortNumber? (← takeChar? ':' rest)
  let (nanosecond, rest) := takeFraction rest
  if 24 ≤ hour ∨ 60 ≤ minute ∨ 60 ≤ second then none
  else some ({ t with hour, minute, second, nanosecond }, rest)

/-- The point in time that a text is. -/
def ofChars? (cs : List Char) : Option Timestamp := do
  let (date, rest) ← date? cs
  match rest with
  | [] => some date
  | c :: rest =>
    if c == 'T' || c == 't' then
      let (t, rest) ← date.withClock? rest
      return { t with zone := ← zone? rest }
    else if c == ' ' then
      let (t, rest) ← date.withClock? (rest.dropWhile (· == ' '))
      if rest.isEmpty then some t else none
    else none

/-- A number with zeros in front, up to the given number of digits. -/
def padded (width n : Nat) : List Char :=
  let ds := Nat.toDigits 10 n
  List.replicate (width - ds.length) '0' ++ ds

/-- The fraction of a second with its point, without zeros at the end. -/
def fractionText (t : Timestamp) : List Char :=
  match ((padded 9 t.nanosecond).reverse.dropWhile (· == '0')).reverse with
  | [] => []
  | ds => '.' :: ds

/-- The distance of the zone from universal time. -/
def zoneText (t : Timestamp) : List Char :=
  let size := t.zone.natAbs
  (if t.zone < 0 then '-' else '+') :: (padded 2 (size / 60) ++ padded 2 (size % 60))

/-- The text of a point in time. A zone other than universal time goes by its distance. -/
def text (t : Timestamp) : String :=
  String.ofList (padded 4 t.year ++ '-' :: padded 2 t.month ++ '-' :: padded 2 t.day ++
    ' ' :: padded 2 t.hour ++ ':' :: padded 2 t.minute ++ ':' :: padded 2 t.second ++
    t.fractionText ++ ' ' :: t.zoneText ++
    ' ' :: (if t.zone = 0 then "UTC".toList else t.zoneText))

end Timestamp

end StackCode
