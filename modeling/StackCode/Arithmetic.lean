/-!
# Scalar arithmetic

Programs compute with numbers of an arbitrary type. The class `Arithmetic` lists the operations
that routines and folding rules ask of that type, and nothing else is known about it: no law is
assumed, and the equality test need not be reflexive.

Statements that hold for every instance treat the operations as uninterpreted symbols; the
instance for machine numbers is in `StackCode.Arithmetic.Binary64`.
-/

namespace StackCode

universe u

/-- The operations on the numbers a program computes with. -/
class Arithmetic (α : Type u) where
  /-- The number that a small natural number stands for. -/
  ofNat : Nat → α
  /-- The equality test of the folding rules. -/
  same : α → α → Bool
  /-- Sum. -/
  add : α → α → α
  /-- Difference. -/
  sub : α → α → α
  /-- Product. -/
  mul : α → α → α
  /-- Quotient. -/
  div : α → α → α
  /-- Power. -/
  pow : α → α → α
  /-- Negation. -/
  neg : α → α
  /-- Sine of an angle in radians. -/
  sin : α → α
  /-- Cosine of an angle in radians. -/
  cos : α → α
  /-- Tangent of an angle in radians. -/
  tan : α → α
  /-- Square root. -/
  sqrt : α → α
  /-- Natural exponential. -/
  exp : α → α
  /-- Natural logarithm. -/
  log : α → α
  /-- Absolute value. -/
  abs : α → α
  /-- The smaller of two numbers. -/
  least : α → α → α
  /-- The larger of two numbers. -/
  greatest : α → α → α

namespace Arithmetic

variable {α : Type u} [Arithmetic α]

/-- The number zero. -/
def zero : α := ofNat 0

/-- The number one. -/
def one : α := ofNat 1

/-- Whether a number tests equal to zero. -/
def isZero (x : α) : Bool := same x zero

/-- The exponent from 2 to 5 that a number tests equal to. -/
def smallExponent? (x : α) : Option Nat :=
  [2, 3, 4, 5].find? fun n => same x (ofNat n)

end Arithmetic

end StackCode
