import StackCode.Decimal.Shortest

/-!
# Number texts

Shortest decimals written out. The formats differ only in which numbers are written with an
exponent and in how an exponent is padded; `general` is the format of listings and messages,
`report` that of JSON reports and `positional` that of log lines.
-/

namespace StackCode

/-- How a number is laid out. -/
structure NumberFormat where
  /-- Whether a number whose first digit has this exponent is written without an exponent. -/
  plain : Int → Bool
  /-- The least number of digits of a negative exponent; others have at least two. -/
  negativeExponentDigits : Nat := 2

namespace NumberFormat

/-- With an exponent from the sixth power of ten on, and below the minus fourth. -/
def general : NumberFormat := { plain := fun e => -4 ≤ e && e < 6 }

/-- With an exponent from the 21st power of ten on, and below the minus sixth. -/
def report : NumberFormat :=
  { plain := fun e => -6 ≤ e && e < 21, negativeExponentDigits := 1 }

/-- Never an exponent. -/
def positional : NumberFormat := { plain := fun _ => true }

end NumberFormat

namespace Decimal

/-- The digits with a decimal point, and zeros up to the point where needed. -/
def plainChars (d : Decimal) : List Char :=
  let ds := d.digits
  let point := d.exponent + ds.length
  if 0 ≤ d.exponent then ds ++ List.replicate d.exponent.toNat '0'
  else if 0 < point then ds.take point.toNat ++ '.' :: ds.drop point.toNat
  else '0' :: '.' :: (List.replicate (-point).toNat '0' ++ ds)

/-- The digits with the point after the first, and an exponent; a negative one has at least
`negativeDigits` digits. -/
def exponentChars (d : Decimal) (negativeDigits : Nat) : List Char :=
  let e := d.leading
  let mantissa := match d.digits with
    | [] => []
    | [c] => [c]
    | c :: rest => c :: '.' :: rest
  let size := Nat.toDigits 10 e.natAbs
  let least := if e < 0 then negativeDigits else 2
  mantissa ++ 'e' :: (if e < 0 then '-' else '+') ::
    (List.replicate (least - size.length) '0' ++ size)

/-- A decimal laid out in a format. -/
def chars (format : NumberFormat) (d : Decimal) : List Char :=
  if format.plain d.leading then d.plainChars else d.exponentChars format.negativeExponentDigits

end Decimal

namespace Binary

/-- A number laid out in a format, without the sign of a positive finite one. -/
def chars (format : NumberFormat) : Binary → List Char
  | .notANumber => "NaN".toList
  | .infinite negative => if negative then "-Inf".toList else "+Inf".toList
  | .finite negative m q narrow =>
    let size := if m == 0 then ['0']
      else (RoundingInterval.ofBinary m q narrow).shortest.chars format
    if negative then '-' :: size else size

end Binary

/-- A number in the given format. -/
def numberText (format : NumberFormat) (x : Float) : String :=
  String.ofList ((Binary.ofFloat x).chars format)

/-- A number as listings and messages show it. -/
def general (x : Float) : String := numberText .general x

/-- A number as listings show it after another term, always with a sign. -/
def generalSigned (x : Float) : String :=
  match (Binary.ofFloat x).chars .general with
  | '-' :: rest => String.ofList ('-' :: rest)
  | '+' :: rest => String.ofList ('+' :: rest)
  | cs => String.ofList ('+' :: cs)

end StackCode
