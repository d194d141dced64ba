import StackCode.Instruction
import StackCode.Arithmetic.Binary64
import StackCode.Decimal.Layout

/-!
# Instruction texts

The short text of an instruction, as findings and log lines show it.
-/

namespace StackCode

/-- The text of a value: a literal is its number, and a variable without a name is `?`. -/
def Value.text (v : Value Float) : String :=
  if v.isConstant then general v.offset
  else
    let name := if v.name == "" then "?" else v.name
    if v.offset == 0 then (if v.coef == 1 then name else general v.coef ++ "*" ++ name)
    else general v.coef ++ "*" ++ name ++ generalSigned v.offset

/-- The text of a call: its name and operand count. -/
def Call.text {α : Type} (c : Call α) : String := s!"{c.name}/{c.arity}"

/-- The text of an assignment. -/
def Assign.text (a : Assign) : String := "=" ++ a.name

/-- The text of an operation. -/
def Operation.text : Operation Float → String
  | .value v => v.text
  | .call c => c.text
  | .assign a => a.text
  | .stop => "END"

/-- The text of an instruction. -/
def Instruction.text (i : Instruction Float) : String := i.operation.text

end StackCode
