/-!
# Instruction kinds and operator symbols

The kinds of instructions with their numeric codes and listing names, and the five binary operator
symbols. Codes without a kind are still described, under the name `UNKNOWN`.
-/

namespace StackCode

/-- What an instruction does. -/
inductive Kind where
  /-- Pushes a linear value. -/
  | value
  /-- Applies a routine to the top stack slots. -/
  | call
  /-- Stores the top of the stack into a slot. -/
  | assign
  /-- Ends a program. -/
  | stop
  /-- Applies a binary operator that has not been stored yet. -/
  | operator
  deriving DecidableEq, Repr

/-- The facts listed about an instruction code. -/
structure OpcodeInfo where
  code : Nat
  name : String
  /-- Slots consumed, `-1` if the operand count of the instruction decides. -/
  pops : Int
  /-- Slots produced. -/
  pushes : Int
  deriving DecidableEq, Repr

/-- The facts about code number `code`. -/
def opcodeInfo : (code : Nat) → OpcodeInfo
  | 0 => ⟨0, "INVALID", 0, 0⟩
  | 1 => ⟨1, "VAL", 0, 1⟩
  | 2 => ⟨2, "CALL", -1, 1⟩
  | 3 => ⟨3, "ASSIGN", 2, 1⟩
  | 4 => ⟨4, "END", 0, 0⟩
  | 5 => ⟨5, "OPRT_BIN", 2, 1⟩
  | code => ⟨code, "UNKNOWN", 0, 0⟩

namespace Kind

/-- The numeric code of a kind. -/
def opcode : Kind → Nat
  | value => 1
  | call => 2
  | assign => 3
  | stop => 4
  | operator => 5

/-- The listing name of a kind. -/
def name (k : Kind) : String := (opcodeInfo k.opcode).name

end Kind

/-- A binary operator. -/
inductive Operator where
  | add
  | subtract
  | multiply
  | divide
  | power
  deriving DecidableEq, Repr

namespace Operator

/-- All operators, in the order of their numbers. -/
def all : List Operator := [add, subtract, multiply, divide, power]

/-- The symbol of an operator. -/
def symbol : Operator → String
  | add => "+"
  | subtract => "-"
  | multiply => "*"
  | divide => "/"
  | power => "^"

/-- The number of an operator, counted from one. -/
def number : Operator → Nat
  | add => 1
  | subtract => 2
  | multiply => 3
  | divide => 4
  | power => 5

/-- The operator with the given symbol. -/
def ofSymbol? (s : String) : Option Operator := all.find? fun o => o.symbol == s

/-- The operator with the given number. -/
def ofNumber? (n : Nat) : Option Operator := all.find? fun o => o.number == n

end Operator

end StackCode
