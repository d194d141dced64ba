import StackCode.Program

/-!
# Evaluation

What a program computes, on a stack of any size. A value is pushed; a call takes its operands from
the stack and pushes the result of its routine, a random routine using up the next draw; an
assignment takes its destination and its value, stores the value and pushes it again; the end
instruction stops. Evaluation stops short if operands are missing, or if a routine faults or a
routine or slot is absent.
-/

namespace StackCode

universe u

/-- Why evaluation stops short. -/
inductive Obstacle where
  /-- The stack holds too few operands. -/
  | underflow
  /-- A routine or a reference faults. -/
  | fault (f : Fault)
  deriving DecidableEq, Repr

/-- What evaluation works on: the stack with its top first, the variable slots, and the draws that
are left. -/
structure Machine (α : Type u) where
  stack : List α
  store : Slot → α
  draws : Nat → α

/-- The operands on top of a stack in the order they were pushed, and the stack below them. -/
def takeOperands {α : Type u} (arity : Int) (stack : List α) :
    Except Obstacle (List α × List α) :=
  if arity < 0 then .error (.fault (.outOfRange arity stack.length))
  else if stack.length < arity then .error .underflow
  else .ok ((stack.take arity.toNat).reverse, stack.drop arity.toNat)

namespace Machine

variable {α : Type u} [Arithmetic α]

/-- Pushes a number. -/
def push (m : Machine α) (x : α) : Machine α := { m with stack := x :: m.stack }

/-- Writes a slot. -/
def assign (m : Machine α) (slot : Slot) (x : α) : Machine α :=
  { m with store := fun s => if s = slot then x else m.store s }

/-- The machine after a routine has used its draw. -/
def afterDraw (m : Machine α) (r : Routine α) : Machine α :=
  if r.rule.isDraw then { m with draws := fun n => m.draws (n + 1) } else m

/-- Calls a routine on the top operands. -/
def call (m : Machine α) (c : Call α) : Except Obstacle (Machine α) :=
  match takeOperands c.arity m.stack, c.routine with
  | .error obstacle, _ => .error obstacle
  | .ok _, none => .error (.fault .absent)
  | .ok (operands, below), some r =>
    match r.apply (m.draws 0) operands with
    | .ok x => .ok ({ m.afterDraw r with stack := below }.push x)
    | .error f => .error (.fault f)

/-- Carries out an operation other than the end of a program. -/
def step (m : Machine α) : Operation α → Except Obstacle (Machine α)
  | .value v =>
    match v.eval m.store with
    | .ok x => .ok (m.push x)
    | .error f => .error (.fault f)
  | .call c => m.call c
  | .assign a =>
    match m.stack, a.target with
    | x :: _ :: below, some slot => .ok (({ m with stack := below }.assign slot x).push x)
    | _ :: _ :: _, none => .error (.fault .absent)
    | _, _ => .error .underflow
  | .stop => .ok m

/-- Carries out operations up to the end of a program. -/
def run (m : Machine α) : List (Operation α) → Except Obstacle (Machine α)
  | [] => .ok m
  | .stop :: _ => .ok m
  | o :: rest =>
    match m.step o with
    | .ok next => next.run rest
    | .error obstacle => .error obstacle

end Machine

/-- The operations of instructions that are kept most recent first, in execution order. -/
def operationsOf {α : Type u} (latest : List (Instruction α)) : List (Operation α) :=
  latest.reverse.map Instruction.operation

/-- The operations of a program in execution order. -/
def Program.operations {α : Type u} (p : Program α) : List (Operation α) := operationsOf p.latest

/-- Evaluates a program from a machine state. -/
def Program.evaluate {α : Type u} [Arithmetic α] (p : Program α) (m : Machine α) :
    Except Obstacle (Machine α) :=
  m.run p.operations

end StackCode
