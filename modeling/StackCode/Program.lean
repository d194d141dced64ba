import StackCode.Instruction
import StackCode.Word

/-!
# Programs under construction

A program is a sequence of instructions in postfix order, together with the stack depth after the
last of them and the high-water mark of that depth. Instructions are kept most recent first,
because every operation works at the end of the sequence; `Program.code` is the sequence in
execution order.

An operation that can be refused returns a `Step`: the program after it, the events it reports,
and the cause of the refusal if there is one.
-/

namespace StackCode

universe u

/-- The settings of a program. -/
structure Config where
  /-- Whether any optimization runs. -/
  optimizer : Bool := true
  /-- Whether calls on literals are computed while they are pushed. -/
  constantFolding : Bool := false
  /-- Whether linear values are merged while calls are pushed. -/
  linearFolding : Bool := false
  /-- The number of instructions to expect. -/
  capacity : Int := 50
  deriving DecidableEq, Repr

/-- A program under construction. -/
structure Program (α : Type u) where
  config : Config := {}
  /-- The draws for random routines that are computed while they are pushed. -/
  draws : Nat → α
  /-- The instructions, most recent first. -/
  latest : List (Instruction α) := []
  /-- The stack depth after the last instruction. -/
  stackPos : Int := 0
  /-- The largest depth so far. -/
  highWater : Int := 0
  /-- The engine selector, absent if none applies or the program was not sealed. -/
  engine : Option Nat := none

/-- Why an operation on a program is refused. -/
inductive Misuse where
  /-- The depth is negative. -/
  | negativeDepth (depth : Int) (kind : Kind)
  /-- There is no instruction to remove. -/
  | nothingToRemove
  /-- There is no first instruction. -/
  | noEntryPoint
  /-- The instruction to push is not an assignment. -/
  | notAssignment (kind : Kind)
  /-- An assignment needs two slots. -/
  | shortAssignment (depth : Int)
  /-- A call has a negative operand count. -/
  | negativeArity (name : String) (arity : Int)
  /-- A call needs more operands than there are. -/
  | missingOperands (name : String) (arity depth : Int)
  /-- An operator stands where only stored instructions are listed. -/
  | unstoredOperator (offset : Nat) (kind : Kind)
  deriving DecidableEq, Repr

/-- What an operation on a program reports. -/
inductive Event (α : Type u) where
  /-- A call on literals became its result. -/
  | foldedConstant (call : String) (result : α)
  /-- Two values became their sum. -/
  | foldedSum (call : String) (value : Value α)
  /-- Two values became their product. -/
  | foldedProduct (value : Value α)
  /-- A power became the routine for its exponent. -/
  | replacedPower (exponent : Nat)
  /-- Two operators became one call. -/
  | fusedOperators (outer inner : String) (stackPos : Int)
  /-- An operator took in a power. -/
  | fusedPower (outer power : String) (stackPos : Int)
  /-- The program was sealed. -/
  | finalized (size : Nat) (maxStackSize engineId : Int)

/-- The outcome of an operation on a program. -/
structure Step (α : Type u) where
  program : Program α
  events : List (Event α) := []
  misuse : Option Misuse := none

/-- The stack position of the most recent instruction, zero if there is none. -/
def topPos {α : Type u} : List (Instruction α) → Int
  | [] => 0
  | i :: _ => i.stackPos

namespace Program

variable {α : Type u}

/-- The instructions in execution order. -/
def code (p : Program α) : List (Instruction α) := p.latest.reverse

/-- The number of instructions. -/
def size (p : Program α) : Nat := p.latest.length

/-- The number of stack slots an evaluator has to provide, one more than the high-water mark. -/
def maxStackSize (p : Program α) : Int := p.highWater + 1

/-- The engine selector, `-1` if there is none. -/
def engineId (p : Program α) : Int :=
  match p.engine with
  | some n => n
  | none => -1

/-- Whether the last instruction is the end instruction. -/
def isFinalized (p : Program α) : Bool :=
  match p.latest with
  | i :: _ => i.kind == .stop
  | [] => false

/-- Moves the depth, raising the high-water mark if needed. The next instruction is counted in. -/
def moveTo (p : Program α) (depth : Int) : Program α :=
  let d := settle (p.size + 1) depth
  { p with stackPos := d, highWater := max p.highWater d }

/-- Stores an operation at the current depth. -/
def appendRaw (p : Program α) (o : Operation α) : Step α :=
  if p.stackPos < 0 then { program := p, misuse := some (.negativeDepth p.stackPos o.kind) }
  else { program := { p with latest := ⟨o, p.stackPos⟩ :: p.latest } }

/-- Stores a value, which takes one more slot. -/
def pushValue (p : Program α) (v : Value α) : Program α :=
  ((p.moveTo (p.stackPos + 1)).appendRaw (.value v)).program

/-- Replaces the instructions and returns to the depth after the last of them. -/
def rewound (p : Program α) (latest : List (Instruction α)) : Program α :=
  { p with latest, stackPos := topPos latest }

/-- Removes the last instruction. -/
def popLast (p : Program α) : Step α :=
  match p.latest with
  | [] => { program := p, misuse := some .nothingToRemove }
  | _ :: rest => { program := p.rewound rest }

/-- Stores an assignment, which takes its destination and its value and leaves the value. -/
def pushAssign (p : Program α) (o : Operation α) : Step α :=
  if o.kind ≠ .assign then { program := p, misuse := some (.notAssignment o.kind) }
  else if p.stackPos < 2 then { program := p, misuse := some (.shortAssignment p.stackPos) }
  else { p with stackPos := p.stackPos - 1 }.appendRaw o

/-- Empties the program. -/
def clear (p : Program α) : Program α :=
  { p with latest := [], stackPos := 0, highWater := 0, engine := none }

/-- The first instruction. -/
def base? (p : Program α) : Except Misuse (Instruction α) :=
  match p.code with
  | [] => .error .noEntryPoint
  | i :: _ => .ok i

/-- The instruction at an index. -/
def at? (p : Program α) (index : Int) : Except Fault (Instruction α) :=
  if index < 0 then .error (.outOfRange index p.size)
  else match p.code[index.toNat]? with
    | some i => .ok i
    | none => .error (.outOfRange index p.size)

/-- Changes the instruction at an index, if there is one. -/
def modifyAt (p : Program α) (index : Nat) (f : Instruction α → Instruction α) : Program α :=
  { p with latest := (p.code.modify index f).reverse }

end Program

namespace Misuse

/-- The code of a misuse. -/
def code : Misuse → String
  | .negativeDepth .. => "E4001"
  | .nothingToRemove => "E4002"
  | .noEntryPoint => "E4002"
  | .notAssignment .. => "E4003"
  | .shortAssignment .. => "E4001"
  | .negativeArity .. => "E4005"
  | .missingOperands .. => "E4001"
  | .unstoredOperator .. => "E4004"

/-- What exactly was wrong. -/
def detail : Misuse → String
  | .negativeDepth depth kind => s!"stack depth {depth} before appending {kind.name}"
  | .nothingToRemove => "cannot remove an instruction"
  | .noEntryPoint => "no entry point"
  | .notAssignment kind => s!"got {kind.name}"
  | .shortAssignment depth => s!"assignment needs 2 stack slots, have {depth}"
  | .negativeArity name arity => s!"{name} has arity {arity}"
  | .missingOperands name arity depth => s!"{name} needs {arity} operands, have {depth}"
  | .unstoredOperator offset kind => s!"offset {offset}: {kind.name}"

end Misuse

end StackCode
