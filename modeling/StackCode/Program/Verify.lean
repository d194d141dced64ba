import StackCode.Program

/-!
# Verification

A program is checked by simulating its stack depth again and comparing it with the recorded stack
positions and the high-water mark. All findings are collected: after an underflow the simulation
goes on as if just enough operands had been there.
-/

namespace StackCode

universe u

/-- What a check of a program may find. -/
inductive Finding (α : Type u) where
  /-- The last instruction is not the end instruction. -/
  | notFinalized
  /-- An operator was not stored as a call. -/
  | unstoredOperator (index : Nat) (name : String)
  /-- A call has too few operands. -/
  | missingOperands (index : Nat) (name : String) (arity depth : Int)
  /-- An assignment has too few operands. -/
  | shortAssignment (index : Nat) (name : String) (depth : Int)
  /-- An end instruction is not the last one. -/
  | earlyEnd (index : Nat)
  /-- A recorded stack position differs from the simulated depth. -/
  | wrongPosition (index : Nat) (instruction : Instruction α) (depth : Int)
  /-- The high-water mark is below a simulated depth. -/
  | lowHighWater (highWater depth : Int)

/-- The outcome of a check. -/
structure Verification (α : Type u) where
  maxDepth : Int
  finalDepth : Int
  findings : List (Finding α)

variable {α : Type u}

/-- The depth after the operation at `index`. Missing operands count as if they were there. -/
def Operation.depthAfter (o : Operation α) (index : Nat) (depth : Int) : Int :=
  match o with
  | .value _ => settle (index + 1) (depth + 1)
  | .call c => if depth < c.arity then 1 else settle (index + 1) (depth - c.arity + 1)
  | .assign _ => if depth < 2 then 1 else depth - 1
  | .stop => depth

/-- What is wrong with the operation at `index` on a stack of the given depth; `last` if no other
operation follows. -/
def Operation.findings (o : Operation α) (index : Nat) (last : Bool) (depth : Int) :
    List (Finding α) :=
  match o with
  | .value _ => []
  | .call c =>
    (if c.binary then [.unstoredOperator index c.name] else []) ++
      (if depth < c.arity then [.missingOperands index c.name c.arity depth] else [])
  | .assign a => if depth < 2 then [.shortAssignment index a.name depth] else []
  | .stop => if last then [] else [.earlyEnd index]

/-- Checks the instructions from `index` on, starting at a depth and the largest depth so far. -/
def verifyFrom (index : Nat) (depth maxDepth : Int) : List (Instruction α) → Verification α
  | [] => ⟨maxDepth, depth, []⟩
  | i :: rest =>
    let d := i.operation.depthAfter index depth
    let more := verifyFrom (index + 1) d (max maxDepth d) rest
    { more with
      findings := i.operation.findings index rest.isEmpty depth ++
        (if i.stackPos = d then [] else [.wrongPosition index i d]) ++ more.findings }

/-- Checks a program. -/
def Program.verify (p : Program α) : Verification α :=
  let v := verifyFrom 0 0 0 p.code
  { v with findings :=
      (if p.isFinalized then [] else [.notFinalized]) ++ v.findings ++
      (if p.highWater < v.maxDepth then [.lowHighWater p.highWater v.maxDepth] else []) }

end StackCode
