import StackCode.Instruction

/-!
# Engine selectors

The shape of a program, one bit for each value or call, selects a specialized evaluator. The bits
are collected in 32 bits, and the last one is dropped, because the last instruction of a program
with more than one is a call. Programs that start with a call, or hold anything but values, calls
and ends, have no selector.
-/

namespace StackCode

universe u

/-- The shape bits after one more instruction. -/
def shapeStep (bits : Nat) : Kind → Option Nat
  | .value => some ((2 * bits + 1) % 0x100000000)
  | .call => some (2 * bits % 0x100000000)
  | .stop => some bits
  | _ => none

/-- The shape bits of a sequence of kinds. -/
def shapeBits? (kinds : List Kind) : Option Nat := kinds.foldlM shapeStep 0

/-- The engine selector of a sequence of kinds. -/
def selector? (kinds : List Kind) : Option Nat :=
  if kinds.head? = some .call then none
  else match shapeBits? kinds with
    | none => none
    | some bits => if bits ≠ 0 ∧ (bits % 2 = 0 ∨ bits = 1) then some (bits / 2) else none

/-- The engine selector of a sequence of instructions. -/
def classify {α : Type u} (code : List (Instruction α)) : Option Nat :=
  selector? (code.map Instruction.kind)

/-- The shape that a selector stands for in a program of `size` instructions, one `V` for a value
and one `C` for a call, or `N/A`. Shapes are read from 64 bits. -/
def engineBits (id size : Int) : String :=
  if id ≤ 0 ∨ size < 2 then "N/A"
  else
    let bits := 2 * id.toNat % 0x10000000000000000
    String.ofList ((List.range (size.toNat - 1)).reverse.map fun i =>
      if bits.testBit i then 'V' else 'C')

end StackCode
