import StackCode.Program.Fusion
import StackCode.Program.Engine

/-!
# Sealing a program

A program is sealed by fusing its calls, closing it with an end instruction if it has none, and
computing its engine selector.
-/

namespace StackCode

universe u

namespace Program

variable {α : Type u}

/-- Closes the program with an end instruction, unless it has one. -/
def closed (p : Program α) : Program α :=
  if p.isFinalized then p else { p with latest := ⟨.stop, p.stackPos⟩ :: p.latest }

/-- Computes the engine selector. -/
def classified (p : Program α) : Program α := { p with engine := classify p.code }

/-- Seals the program. -/
def finalize (p : Program α) : Step α :=
  let step := p.substitute
  let sealed := step.program.closed.classified
  { program := sealed
    events := step.events ++ [.finalized sealed.size sealed.maxStackSize sealed.engineId] }

end Program

end StackCode
