import StackCode.Arithmetic

/-!
# Arithmetic of 64-bit binary numbers

The machine instance of `Arithmetic`. Elementary functions are those of the platform; the smaller
and larger of two numbers follow one fixed order of special cases: an infinity that decides the
answer comes first, then a number that is not a number, then the sign of zero.
-/

namespace StackCode

namespace Binary64

/-- Whether the sign bit is set. -/
def signBit (x : Float) : Bool := x.toBits >>> 63 != 0

/-- The positive infinity. -/
def infinity : Float := Float.ofBits 0x7FF0000000000000

/-- A number that is not a number. -/
def notANumber : Float := Float.ofBits 0x7FF8000000000001

/-- The smaller of two numbers; of two zeros the negative one. -/
def least (x y : Float) : Float :=
  if x == -infinity || y == -infinity then -infinity
  else if x.isNaN || y.isNaN then notANumber
  else if x == 0 && x == y then (if signBit x then x else y)
  else if x < y then x else y

/-- The larger of two numbers; of two zeros the positive one. -/
def greatest (x y : Float) : Float :=
  if x == infinity || y == infinity then infinity
  else if x.isNaN || y.isNaN then notANumber
  else if x == 0 && x == y then (if signBit x then y else x)
  else if x > y then x else y

end Binary64

instance : Arithmetic Float where
  ofNat := Float.ofNat
  same x y := x == y
  add x y := x + y
  sub x y := x - y
  mul x y := x * y
  div x y := x / y
  pow := Float.pow
  neg x := -x
  sin := Float.sin
  cos := Float.cos
  tan := Float.tan
  sqrt := Float.sqrt
  exp := Float.exp
  log := Float.log
  abs := Float.abs
  least := Binary64.least
  greatest := Binary64.greatest

end StackCode
