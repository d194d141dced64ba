import StackCode.Program.Fusion

/-!
# Statistics

Counts of the instructions of a program by what they do.
-/

namespace StackCode

universe u

/-- The statistics of a program. -/
structure Stats where
  instructionCount : Nat
  valueCount : Nat
  variableCount : Nat
  callCount : Nat
  fusedCount : Nat
  assignCount : Nat
  maxStackSize : Int
  deriving DecidableEq, Repr

namespace Instruction

variable {α : Type u}

/-- Whether an instruction is a value. -/
def isValue (i : Instruction α) : Bool :=
  match i.operation with
  | .value _ => true
  | _ => false

/-- Whether an instruction is a value that depends on a variable. -/
def isVariable [Arithmetic α] (i : Instruction α) : Bool :=
  match i.operation with
  | .value v => !v.isConstant
  | _ => false

/-- Whether an instruction is a call. -/
def isCall (i : Instruction α) : Bool :=
  match i.operation with
  | .call _ => true
  | _ => false

/-- Whether an instruction is a call that comes from fusion. -/
def isFusedCall (i : Instruction α) : Bool :=
  match i.operation with
  | .call c => c.isFused
  | _ => false

/-- Whether an instruction is an assignment. -/
def isAssign (i : Instruction α) : Bool :=
  match i.operation with
  | .assign _ => true
  | _ => false

end Instruction

/-- The statistics of a program. -/
def Program.stats {α : Type u} [Arithmetic α] (p : Program α) : Stats where
  instructionCount := p.size
  valueCount := p.latest.countP Instruction.isValue
  variableCount := p.latest.countP Instruction.isVariable
  callCount := p.latest.countP Instruction.isCall
  fusedCount := p.latest.countP Instruction.isFusedCall
  assignCount := p.latest.countP Instruction.isAssign
  maxStackSize := p.maxStackSize

end StackCode
