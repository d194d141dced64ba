import StackCode.Routine
import StackCode.Kind

/-!
# Instructions

The instructions of a program. A value is the linear term `slot · coef + offset`, and a literal if
its coefficient tests equal to zero. A call refers to a routine, an assignment to the slot it
writes, and the end instruction closes a program. A stored instruction carries the stack depth
after it, its stack position.
-/

namespace StackCode

universe u

/-- The name of a variable slot. -/
abbrev Slot := String

/-- A linear value. -/
structure Value (α : Type u) where
  name : String
  source : Option Slot
  coef : α
  offset : α

/-- A call of a routine on the top stack slots. -/
structure Call (α : Type u) where
  name : String
  routine : Option (Routine α)
  arity : Int
  /-- Whether this is an operator that has not been stored yet. -/
  binary : Bool := false

/-- A store of the top of the stack. -/
structure Assign where
  name : String
  target : Option Slot
  deriving DecidableEq, Repr

/-- What an instruction does, without its stack position. -/
inductive Operation (α : Type u) where
  | value (v : Value α)
  | call (c : Call α)
  | assign (a : Assign)
  | stop

/-- A stored instruction. -/
structure Instruction (α : Type u) where
  operation : Operation α
  stackPos : Int

namespace Value

variable {α : Type u} [Arithmetic α]

/-- The literal `x`. -/
def literal (x : α) : Value α := ⟨"", none, Arithmetic.zero, x⟩

/-- The variable `name` in the slot `source`; without a slot it is the literal zero. -/
def ofSlot (name : String) (source : Option Slot) : Value α :=
  match source with
  | none => ⟨name, none, Arithmetic.zero, Arithmetic.zero⟩
  | some slot => ⟨name, some slot, Arithmetic.one, Arithmetic.zero⟩

/-- Whether the value does not depend on a variable. -/
def isConstant (v : Value α) : Bool := Arithmetic.isZero v.coef

/-- The number a value stands for, given the contents of the slots. -/
def eval (store : Slot → α) (v : Value α) : Except Fault α :=
  if v.isConstant then .ok v.offset
  else match v.source with
    | none => .error .absent
    | some slot => .ok (Arithmetic.add (Arithmetic.mul (store slot) v.coef) v.offset)

/-- The literal with the same offset. -/
def reset (v : Value α) : Value α := .literal v.offset

/-- The value with the opposite sign; a term that tests equal to zero is kept. -/
def negated (v : Value α) : Value α :=
  { v with
    coef := if Arithmetic.isZero v.coef then v.coef else Arithmetic.neg v.coef
    offset := if Arithmetic.isZero v.offset then v.offset else Arithmetic.neg v.offset }

/-- A value whose variable part has vanished becomes a literal. -/
def normalized (v : Value α) : Value α := if v.isConstant then v.reset else v

/-- The sum of two values of at most one variable. -/
def plus (a b : Value α) : Value α :=
  let offset := Arithmetic.add a.offset b.offset
  let coef := Arithmetic.add a.coef b.coef
  normalized (if b.isConstant then { a with coef, offset } else { b with coef, offset })

/-- The value scaled by `k`, which is the right operand. -/
def timesRight (a : Value α) (k : α) : Value α :=
  normalized { a with coef := Arithmetic.mul a.coef k, offset := Arithmetic.mul a.offset k }

end Value

namespace Call

variable {α : Type u}

/-- A call of the binary operator `symbol`. -/
def operator (symbol : String) (routine : Option (Routine α)) : Call α :=
  ⟨symbol, routine, 2, true⟩

/-- Whether a call refers to the given builtin. -/
def uses (c : Call α) (b : Builtin) : Bool :=
  match c.routine with
  | some r => r.isBuiltin b
  | none => false

end Call

/-- The kind of an operation. -/
def Operation.kind {α : Type u} : Operation α → Kind
  | .value _ => .value
  | .call c => if c.binary then .operator else .call
  | .assign _ => .assign
  | .stop => .stop

/-- The kind of an instruction. -/
def Instruction.kind {α : Type u} (i : Instruction α) : Kind := i.operation.kind

end StackCode
