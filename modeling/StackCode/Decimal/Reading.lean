import StackCode.Text.Quoted
import StackCode.Word

/-!
# Reading numbers

The numerals that texts may hold, decimal or hexadecimal, and their nearest machine numbers. A
numeral is first split into its parts and then rounded once, in exact arithmetic, to the nearest
machine number; a tie goes to the even one. A numeral beyond the largest machine number is an
error, one below the smallest is zero.
-/

namespace StackCode

/-- What a text is read as. -/
inductive Reader where
  /-- A machine number. -/
  | number
  /-- A whole number of 64 bits. -/
  | count
  /-- A truth value. -/
  | truth
  deriving DecidableEq, Repr

/-- The name of a reader in error texts. -/
def Reader.name : Reader → String
  | .number => "ParseFloat"
  | .count => "Atoi"
  | .truth => "ParseBool"

/-- Why a text is not read. -/
inductive ReadCause where
  /-- The text is not of the form that is read. -/
  | malformed
  /-- The number is too large. -/
  | tooLarge
  deriving DecidableEq, Repr

/-- A text that is not read, with the reader that refused it. -/
structure ReadError where
  reader : Reader
  text : String
  cause : ReadCause
  deriving DecidableEq, Repr

/-- The text of a reading error. -/
def ReadError.message (e : ReadError) : String :=
  let cause := match e.cause with
    | .malformed => "invalid syntax"
    | .tooLarge => "value out of range"
  "strconv." ++ e.reader.name ++ ": parsing " ++ quote e.text ++ ": " ++ cause

/-- The parts of a numeral: the digits before and after the point as one number, how many stand
after the point, and the exponent, which counts powers of ten or, in hexadecimal, of two. -/
structure Numeral where
  hexadecimal : Bool
  mantissa : Nat
  places : Nat
  exponent : Int
  deriving DecidableEq, Repr

/-- The value of a digit character. -/
def digitValue? (hexadecimal : Bool) (c : Char) : Option Nat :=
  if c.isDigit then some (c.toNat - 48)
  else if hexadecimal && 'a' ≤ c && c ≤ 'f' then some (c.toNat - 87)
  else if hexadecimal && 'A' ≤ c && c ≤ 'F' then some (c.toNat - 55)
  else none

/-- Where the scan of a mantissa stands. -/
structure MantissaScan where
  mantissa : Nat := 0
  places : Nat := 0
  sawDigit : Bool := false
  sawPoint : Bool := false

namespace MantissaScan

/-- Takes in one digit. -/
def digit (base value : Nat) (s : MantissaScan) : MantissaScan :=
  { s with
    mantissa := base * s.mantissa + value
    places := if s.sawPoint then s.places + 1 else s.places
    sawDigit := true }

/-- Reads digits, underscores and at most one point, and gives back the rest. -/
def run (hexadecimal : Bool) (s : MantissaScan) : List Char → MantissaScan × List Char
  | [] => (s, [])
  | c :: rest =>
    if c == '_' then run hexadecimal s rest
    else if c == '.' then
      if s.sawPoint then (s, c :: rest) else run hexadecimal { s with sawPoint := true } rest
    else match digitValue? hexadecimal c with
      | some v => run hexadecimal (s.digit (if hexadecimal then 16 else 10) v) rest
      | none => (s, c :: rest)

end MantissaScan

/-- An exponent with one more digit. Digits are counted until the exponent has reached ten thousand,
and those after that are dropped. -/
def growExponent (n : Nat) (c : Char) : Nat :=
  if n < 10000 then 10 * n + (c.toNat - 48) else n

/-- The exponent that digits and underscores stand for, if there is nothing else. -/
def exponentDigits? (cs : List Char) : Option Nat :=
  match cs with
  | [] => none
  | c :: _ =>
    if c.isDigit && cs.all (fun c => c.isDigit || c == '_') then
      some ((cs.filter Char.isDigit).foldl growExponent 0)
    else none

/-- A sign, which is taken as positive if there is none, and the rest. -/
def takeSign : List Char → Bool × List Char
  | '-' :: rest => (true, rest)
  | '+' :: rest => (false, rest)
  | cs => (false, cs)

/-- The exponent after a mantissa, which has to be the end of the text. -/
def exponentPart? (hexadecimal : Bool) : List Char → Option Int
  | [] => if hexadecimal then none else some 0
  | c :: rest =>
    if c.toLower == (if hexadecimal then 'p' else 'e') then
      let (negative, ds) := takeSign rest
      (exponentDigits? ds).map fun n => if negative then -n else n
    else none

/-- What stood before a character, as far as underscores are concerned. -/
inductive UnderscoreState where
  | start
  | digit
  | underscore
  | other
  deriving DecidableEq

/-- Whether every underscore stands between digits. -/
def underscoresFit (hexadecimal : Bool) : UnderscoreState → List Char → Bool
  | state, [] => state != .underscore
  | state, c :: rest =>
    if (digitValue? hexadecimal c).isSome then underscoresFit hexadecimal .digit rest
    else if c == '_' then state == .digit && underscoresFit hexadecimal .underscore rest
    else state != .underscore && underscoresFit hexadecimal .other rest

/-- The numeral without sign that a text holds. A hexadecimal numeral starts with `0x`, which
counts as a digit in front of an underscore, and needs an exponent. -/
def numeral? (cs : List Char) : Option Numeral :=
  let (hexadecimal, body) := match cs with
    | '0' :: x :: c :: rest => if x == 'x' || x == 'X' then (true, c :: rest) else (false, cs)
    | _ => (false, cs)
  let (scan, rest) := MantissaScan.run hexadecimal {} body
  if !scan.sawDigit then none
  else if !underscoresFit hexadecimal (if hexadecimal then .digit else .start) body then none
  else (exponentPart? hexadecimal rest).map fun e => ⟨hexadecimal, scan.mantissa, scan.places, e⟩

/-- The bits of the machine number nearest to `num / den`, at or beyond `2047 · 2 ^ 52` if the
number is too large. -/
def nearestBits (num den : Nat) : Nat :=
  let rough : Int := (num.log2 : Int) - den.log2 - 53
  let divide (q : Int) : Nat × Nat × Nat :=
    let n := num <<< (-q).toNat
    let d := den <<< q.toNat
    (n / d, n % d, d)
  let q₀ := max rough (-1074)
  let q := if (divide q₀).1 < 0x20000000000000 then q₀ else q₀ + 1
  let (m, r, d) := divide q
  let m := if 2 * r > d || (2 * r == d && m % 2 == 1) then m + 1 else m
  (q + 1074).toNat <<< 52 + m

/-- The bits of a number too large to be held. -/
def overflowBits : Nat := 2047 <<< 52

namespace Numeral

/-- The bits of the machine number nearest to a numeral. Numerals far outside the range are
settled by their size alone. -/
def bits (n : Numeral) : Nat :=
  if n.mantissa == 0 then 0
  else if n.hexadecimal then
    let e := n.exponent - 4 * n.places
    let size := e + n.mantissa.log2
    if size > 1100 then overflowBits
    else if size < -1200 then 0
    else nearestBits (n.mantissa <<< e.toNat) (1 <<< (-e).toNat)
  else
    let e := n.exponent - n.places
    let size := e + (Nat.toDigits 10 n.mantissa).length
    if size > 400 then overflowBits
    else if size < -400 then 0
    else nearestBits (n.mantissa * Nat.pow 10 e.toNat) (Nat.pow 10 (-e).toNat)

end Numeral

/-- Whether a text is a word, in any case of its ASCII letters. -/
def isWord (word : String) (cs : List Char) : Bool := String.ofList (cs.map Char.toLower) == word

/-- The number that a text holds: a numeral, an infinity with or without sign, or `nan`. -/
def readNumber (s : String) : Except ReadError Float :=
  let cs := s.toList
  let (negative, body) := takeSign cs
  let signed (bits : Nat) : Float :=
    Float.ofBits (UInt64.ofNat (if negative then 0x8000000000000000 + bits else bits))
  if isWord "inf" body || isWord "infinity" body then .ok (signed overflowBits)
  else if isWord "nan" cs then .ok (Float.ofBits 0x7FF8000000000001)
  else match numeral? body with
    | none => .error ⟨.number, s, .malformed⟩
    | some n =>
      if n.bits < overflowBits then .ok (signed n.bits)
      else .error ⟨.number, s, .tooLarge⟩

/-- Reads decimal digits after those that stand for `n`. The digits are taken one by one, so that a
number beyond 64 bits is refused before what follows it is looked at. -/
def countDigits (n : Nat) : List Char → Except ReadCause Nat
  | [] => .ok n
  | c :: rest =>
    if !c.isDigit then .error .malformed
    else
      let n := 10 * n + (c.toNat - 48)
      if 0x10000000000000000 ≤ n then .error .tooLarge else countDigits n rest

/-- The whole number of 64 bits that a text holds in decimal digits, with or without sign. -/
def readCount (s : String) : Except ReadError Int :=
  let (negative, ds) := takeSign s.toList
  if ds.isEmpty then .error ⟨.count, s, .malformed⟩
  else match countDigits 0 ds with
    | .error cause => .error ⟨.count, s, cause⟩
    | .ok size =>
      let n : Int := if negative then -size else size
      if fits64 n then .ok n else .error ⟨.count, s, .tooLarge⟩

/-- The truth value that a word stands for. -/
def readTruth (s : String) : Except ReadError Bool :=
  if ["1", "t", "T", "TRUE", "true", "True"].contains s then .ok true
  else if ["0", "f", "F", "FALSE", "false", "False"].contains s then .ok false
  else .error ⟨.truth, s, .malformed⟩

end StackCode
