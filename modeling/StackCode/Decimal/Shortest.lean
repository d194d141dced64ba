/-!
# Shortest decimals

The decimal with the fewest digits that reads back as a given binary number, and of those the
nearest. A positive binary number `m · 2 ^ q` is read from every real closer to it than to its
neighbours, so the search tests, for one digit, then two, and so on, whether one of the two grid
points next to the number lies in that interval. All arithmetic is exact.

Seventeen digits always suffice for 53 binary digits, which bounds the search.
-/

namespace StackCode

/-- The decimal number `coefficient · 10 ^ exponent`. -/
structure Decimal where
  coefficient : Nat
  exponent : Int
  deriving DecidableEq, Repr

namespace Decimal

/-- The digits of the coefficient. -/
def digits (d : Decimal) : List Char := Nat.toDigits 10 d.coefficient

/-- The exponent of the first digit. -/
def leading (d : Decimal) : Int := d.exponent + d.digits.length - 1

/-- Moves up to `fuel` trailing zeros of the coefficient into the exponent. -/
def trimZeros : (fuel : Nat) → Decimal → Decimal
  | 0, d => d
  | fuel + 1, d =>
    if d.coefficient % 10 == 0 then trimZeros fuel ⟨d.coefficient / 10, d.exponent + 1⟩ else d

end Decimal

/-- A positive number `value / scale` with the interval of reals that are read as it, which
reaches `below / scale` down and `above / scale` up and holds its ends if `closed`. -/
structure RoundingInterval where
  value : Nat
  below : Nat
  above : Nat
  scale : Nat
  closed : Bool

namespace RoundingInterval

/-- The interval of `m · 2 ^ q`; the lower neighbour is twice as near if `narrow`. -/
def ofBinary (m : Nat) (q : Int) (narrow : Bool) : RoundingInterval :=
  let unit : Nat := 1 <<< q.toNat
  { value := 4 * m * unit
    below := if narrow then unit else 2 * unit
    above := 2 * unit
    scale := 4 <<< (-q).toNat
    closed := m % 2 == 0 }

/-- The least number of places, at most `fuel`, that brings `n / scale` to one or more. -/
def leadingZeros (scale : Nat) : (fuel n : Nat) → Nat
  | 0, _ => 0
  | fuel + 1, n => if scale ≤ n then 0 else leadingZeros scale fuel (10 * n) + 1

/-- The exponent of the first decimal digit. -/
def leading (i : RoundingInterval) : Int :=
  if i.scale ≤ i.value then (Nat.toDigits 10 (i.value / i.scale)).length - 1
  else -(leadingZeros i.scale 400 i.value : Int)

/-- The point of the grid with unit `10 ^ place` in the interval, the nearer of two; a tie goes to
the even coefficient. -/
def onGrid? (i : RoundingInterval) (place : Int) : Option Decimal :=
  let grow := Nat.pow 10 (-place).toNat
  let unit := i.scale * Nat.pow 10 place.toNat
  let c := i.value * grow / unit
  let down := i.value * grow - c * unit
  let up := (c + 1) * unit - i.value * grow
  let inside (distance reach : Nat) : Bool :=
    if i.closed then distance ≤ reach else distance < reach
  let lower := inside down (i.below * grow)
  let upper := inside up (i.above * grow)
  if lower && upper then
    if down < up || (down == up && c % 2 == 0) then some ⟨c, place⟩ else some ⟨c + 1, place⟩
  else if lower then some ⟨c, place⟩
  else if upper then some ⟨c + 1, place⟩
  else none

/-- The shortest decimal in the interval. -/
def shortest (i : RoundingInterval) : Decimal :=
  let top := i.leading
  match (List.range 17).findSome? fun (n : Nat) => i.onGrid? (top - n) with
  | some d => d.trimZeros 20
  | none => ⟨0, 0⟩

end RoundingInterval

/-- A number read from 64 bits. -/
inductive Binary where
  /-- `± m · 2 ^ q`, its lower neighbour at half the distance if `narrow`. -/
  | finite (negative : Bool) (m : Nat) (q : Int) (narrow : Bool)
  /-- An infinity. -/
  | infinite (negative : Bool)
  /-- Not a number. -/
  | notANumber
  deriving DecidableEq, Repr

/-- The number that 64 bits stand for. -/
def Binary.ofBits (bits : Nat) : Binary :=
  let negative := bits.testBit 63
  let field : Nat := bits >>> 52 % 2048
  let fraction : Nat := bits % 0x10000000000000
  if field == 2047 then (if fraction == 0 then .infinite negative else .notANumber)
  else if field == 0 then .finite negative fraction (-1074) false
  else .finite negative (0x10000000000000 + fraction) ((field : Int) - 1075) (fraction == 0 && field != 1)

/-- The number that a machine number holds. -/
def Binary.ofFloat (x : Float) : Binary := .ofBits x.toBits.toNat

end StackCode
