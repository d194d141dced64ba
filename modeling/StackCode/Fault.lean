/-!
# Run-time faults

A routine that meets too few slots, an index outside a program, and a reference to a routine or a
variable slot that is not there stop an operation with a fault.
-/

namespace StackCode

/-- Why an operation stopped. -/
inductive Fault where
  /-- An index outside a sequence of the given length. -/
  | outOfRange (index : Int) (length : Nat)
  /-- A reference to a routine or slot that is absent. -/
  | absent
  deriving DecidableEq, Repr

/-- The text of a fault. -/
def Fault.message : Fault → String
  | .outOfRange index length =>
    if index < 0 then s!"runtime error: index out of range [{index}]"
    else s!"runtime error: index out of range [{index}] with length {length}"
  | .absent => "runtime error: invalid memory address or nil pointer dereference"

end StackCode
