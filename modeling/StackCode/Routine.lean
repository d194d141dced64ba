import StackCode.Arithmetic
import StackCode.Fault

/-!
# Routines

A routine works in place on a run of stack slots: it reads its operands from the first slots and
leaves its result in the first one. What it computes is a `Rule`, which also fixes how many slots
it touches; a routine that runs out of slots faults at the first missing index, and a variadic one
has by then combined the operands that were there.

Builtin routines are an enumeration. A producer's own routine carries its rule, and an identity
that tells it apart from every other routine.
-/

namespace StackCode

universe u

/-- What a routine computes from its slots. -/
inductive Rule (α : Type u) where
  /-- A function of the first slot. -/
  | unary (f : α → α)
  /-- A function of the first two slots. -/
  | binary (f : α → α → α)
  /-- A function of the first three slots. -/
  | ternary (f : α → α → α → α)
  /-- Operands combined from the left, as many as the call says. -/
  | variadic (f : α → α → α)
  /-- A fresh random draw. -/
  | draw
  /-- A function of the operand count and of all slots. -/
  | whole (f : Int → List α → α)

/-- The slots after a call, and the fault that stopped it. -/
structure Frame (α : Type u) where
  slots : List α
  fault : Option Fault := none

namespace Rule

variable {α : Type u}

/-- Applies a rule in place to `slots` for a call with `argc` operands. -/
def run (draw : α) (argc : Int) : Rule α → List α → Frame α
  | .unary f, x :: rest => ⟨f x :: rest, none⟩
  | .binary f, x :: y :: rest => ⟨f x y :: y :: rest, none⟩
  | .ternary f, x :: y :: z :: rest => ⟨f x y z :: y :: z :: rest, none⟩
  | .draw, _ :: rest => ⟨draw :: rest, none⟩
  | .whole f, x :: rest => ⟨f argc (x :: rest) :: rest, none⟩
  | .variadic f, x :: rest =>
    ⟨(rest.take (argc - 1).toNat).foldl f x :: rest,
      if argc - 1 ≤ rest.length then none
      else some (.outOfRange (rest.length + 1) (rest.length + 1))⟩
  | .variadic _, [] => ⟨[], if argc < 2 then none else some (.outOfRange 0 0)⟩
  | _, slots => ⟨slots, some (.outOfRange slots.length slots.length)⟩

/-- Whether a rule uses up a random draw. -/
def isDraw : Rule α → Bool
  | .draw => true
  | _ => false

end Rule

/-- The routines that every producer can use, and those that folding and fusion put in. -/
inductive Builtin where
  | add | sub | mul | div | pow
  | neg | sin | cos | tan | sqrt | exp | log | abs
  | sum | min | max
  | rnd
  | addAdd | subAdd | addMul | mulAdd | mulMul | divDiv
  | divMul | mulDiv | addDiv | divAdd | subDiv | divSub
  | pow2 | pow3 | pow4 | pow5
  | pow2Mul | pow3Mul | pow4Mul
  | pow2Add | pow3Add | pow4Add
  deriving DecidableEq, Repr

namespace Builtin

/-- The name a routine goes by. -/
def name : Builtin → String
  | add => "+" | sub => "-" | mul => "*" | div => "/" | pow => "^"
  | neg => "neg" | sin => "sin" | cos => "cos" | tan => "tan"
  | sqrt => "sqrt" | exp => "exp" | log => "ln" | abs => "abs"
  | sum => "sum" | min => "min" | max => "max"
  | rnd => "rnd"
  | addAdd => "++" | subAdd => "-+" | addMul => "+*" | mulAdd => "*+"
  | mulMul => "**" | divDiv => "//" | divMul => "/*" | mulDiv => "*/"
  | addDiv => "+/" | divAdd => "/+" | subDiv => "-/" | divSub => "/-"
  | pow2 => "^2" | pow3 => "^3" | pow4 => "^4" | pow5 => "^5"
  | pow2Mul => "^2*" | pow3Mul => "^3*" | pow4Mul => "^4*"
  | pow2Add => "^2+" | pow3Add => "^3+" | pow4Add => "^4+"

variable {α : Type u} [Arithmetic α]

/-- The product of `n + 1` copies of a number, grouped from the left. -/
def repeated (x : α) : Nat → α
  | 0 => x
  | n + 1 => Arithmetic.mul (repeated x n) x

/-- What a builtin computes. A fused pair is `a op₁ (b op₂ c)`; a power is its operand times the
product of the remaining copies. -/
def rule : Builtin → Rule α
  | .add => .binary Arithmetic.add
  | .sub => .binary Arithmetic.sub
  | .mul => .binary Arithmetic.mul
  | .div => .binary Arithmetic.div
  | .pow => .binary Arithmetic.pow
  | .neg => .unary Arithmetic.neg
  | .sin => .unary Arithmetic.sin
  | .cos => .unary Arithmetic.cos
  | .tan => .unary Arithmetic.tan
  | .sqrt => .unary Arithmetic.sqrt
  | .exp => .unary Arithmetic.exp
  | .log => .unary Arithmetic.log
  | .abs => .unary Arithmetic.abs
  | .sum => .variadic Arithmetic.add
  | .min => .variadic Arithmetic.least
  | .max => .variadic Arithmetic.greatest
  | .rnd => .draw
  | .addAdd => .ternary fun a b c => Arithmetic.add a (Arithmetic.add b c)
  | .subAdd => .ternary fun a b c => Arithmetic.sub a (Arithmetic.add b c)
  | .addMul => .ternary fun a b c => Arithmetic.add a (Arithmetic.mul b c)
  | .mulAdd => .ternary fun a b c => Arithmetic.mul a (Arithmetic.add b c)
  | .mulMul => .ternary fun a b c => Arithmetic.mul a (Arithmetic.mul b c)
  | .divDiv => .ternary fun a b c => Arithmetic.div a (Arithmetic.div b c)
  | .divMul => .ternary fun a b c => Arithmetic.div a (Arithmetic.mul b c)
  | .mulDiv => .ternary fun a b c => Arithmetic.mul a (Arithmetic.div b c)
  | .addDiv => .ternary fun a b c => Arithmetic.add a (Arithmetic.div b c)
  | .divAdd => .ternary fun a b c => Arithmetic.div a (Arithmetic.add b c)
  | .subDiv => .ternary fun a b c => Arithmetic.sub a (Arithmetic.div b c)
  | .divSub => .ternary fun a b c => Arithmetic.div a (Arithmetic.sub b c)
  | .pow2 => .unary fun a => Arithmetic.mul a (repeated a 0)
  | .pow3 => .unary fun a => Arithmetic.mul a (repeated a 1)
  | .pow4 => .unary fun a => Arithmetic.mul a (repeated a 2)
  | .pow5 => .unary fun a => Arithmetic.mul a (repeated a 3)
  | .pow2Mul => .binary fun a b => Arithmetic.mul a (repeated b 1)
  | .pow3Mul => .binary fun a b => Arithmetic.mul a (repeated b 2)
  | .pow4Mul => .binary fun a b => Arithmetic.mul a (repeated b 3)
  | .pow2Add => .binary fun a b => Arithmetic.add a (repeated b 1)
  | .pow3Add => .binary fun a b => Arithmetic.add a (repeated b 2)
  | .pow4Add => .binary fun a b => Arithmetic.add a (repeated b 3)

/-- The routine for a power with exponent 2 to 5. -/
def ofExponent? : Int → Option Builtin
  | 2 => some pow2
  | 3 => some pow3
  | 4 => some pow4
  | 5 => some pow5
  | _ => none

end Builtin

/-- A routine of the producer's own, told apart from others by its number. -/
structure Extension (α : Type u) where
  name : String
  id : Nat
  rule : Rule α

/-- A routine that a call can refer to. -/
inductive Routine (α : Type u) where
  | builtin (b : Builtin)
  | extension (e : Extension α)

namespace Routine

variable {α : Type u}

/-- The name a routine goes by. -/
def name : Routine α → String
  | .builtin b => b.name
  | .extension e => e.name

/-- Whether a routine is the given builtin. -/
def isBuiltin (b : Builtin) : Routine α → Bool
  | .builtin b' => b' == b
  | .extension _ => false

variable [Arithmetic α]

/-- What a routine computes. -/
def rule : Routine α → Rule α
  | .builtin b => b.rule
  | .extension e => e.rule

/-- Calls a routine in place on a run of slots. -/
def call (r : Routine α) (draw : α) (argc : Int) (slots : List α) : Frame α :=
  r.rule.run draw argc slots

/-- The result of a routine on its operands, computed in a buffer with one spare slot. -/
def apply (r : Routine α) (draw : α) (operands : List α) : Except Fault α :=
  let frame := r.call draw operands.length (operands ++ [Arithmetic.zero])
  match frame.fault with
  | some fault => .error fault
  | none => .ok (frame.slots.headD Arithmetic.zero)

end Routine

end StackCode
