import StackCode.Program.Engine
import StackCode.Program
import StackCode.Arithmetic.Binary64
import StackCode.Decimal.Layout
import StackCode.Text.Styled
import StackCode.Table

/-!
# Listings

A program is listed as rows, one for each instruction. Rows are shown as a table, in colour if
wanted. The dump is a second listing that needs no rows: it writes piece after piece, so that a
destination that stops accepting them keeps what came before.
-/

namespace StackCode

universe u

/-- Where the number of a listed value comes from. -/
inductive Address where
  /-- The instruction is not a value. -/
  | unused
  /-- A literal. -/
  | null
  /-- A variable slot. -/
  | slot
  deriving DecidableEq, Repr

/-- The listing name of an address. -/
def Address.name : Address → String
  | .unused => ""
  | .null => "null"
  | .slot => "slot"

/-- An instruction as it is listed. -/
structure Row (α : Type u) where
  offset : Int
  stackPos : Int
  name : String
  opcode : Nat
  ident : String
  address : Address
  coef : α
  constant : α
  args : Int

/-- The row of the instruction at `offset`. Operators that were not stored are not listed. -/
def Instruction.row {α : Type u} [Arithmetic α] (i : Instruction α) (offset : Nat) :
    Except Misuse (Row α) :=
  let row : Row α :=
    { offset, stackPos := i.stackPos, name := i.kind.name, opcode := i.kind.opcode, ident := "",
      address := .unused, coef := Arithmetic.zero, constant := Arithmetic.zero, args := 0 }
  match i.operation with
  | .value v =>
    if v.isConstant then .ok { row with address := .null, constant := v.offset }
    else .ok { row with address := .slot, ident := v.name, coef := v.coef, constant := v.offset }
  | .call c =>
    if c.binary then .error (.unstoredOperator offset i.kind)
    else .ok { row with ident := c.name, args := c.arity }
  | .assign a => .ok { row with ident := a.name, args := 2 }
  | .stop => .ok row

/-- The rows of a program. -/
def Program.rows {α : Type u} [Arithmetic α] (p : Program α) : Except Misuse (List (Row α)) :=
  p.code.zipIdx.mapM fun (i, offset) => i.row offset

namespace Row

/-- The linear term of a value row: a coefficient other than one, the name, a constant other than
zero. -/
def linear (r : Row Float) : String :=
  (if r.coef == 1 then "" else general r.coef ++ "*") ++ r.ident ++
    (if r.constant == 0 then "" else generalSigned r.constant)

/-- What the last column of the table shows. -/
def info (colors : Bool) (r : Row Float) : String :=
  if r.opcode == Kind.value.opcode then
    if r.address == .slot then Style.cyan.apply colors r.linear
    else Style.yellow.apply colors (general r.constant)
  else if r.opcode == Kind.call.opcode then Style.magenta.apply colors ("func:" ++ r.ident)
  else if r.opcode == Kind.assign.opcode then Style.cyan.apply colors ("=" ++ r.ident)
  else ""

/-- The cells of a row. -/
def cells (colors : Bool) (r : Row Float) : List String :=
  let counted := r.opcode == Kind.call.opcode || r.opcode == Kind.assign.opcode
  [ toString r.offset, toString r.stackPos, Style.bold.apply colors r.name,
    if counted then toString r.args else "", r.info colors ]

end Row

/-- The table of a listing. -/
def listingTable (colors : Bool) (rows : List (Row Float)) : Table where
  header := ["OFFSET", "STACK", "KIND", "ARGS", "INFO"]
  rows := rows.map (Row.cells colors)
  alignment := [.right, .right, .left, .right, .left]
  headerAlignment := [.center, .center, .center, .center, .center]

/-- The pieces that a dump writes for the instruction at `index`. -/
def Instruction.dumpPieces (i : Instruction Float) (index : Nat) : List String :=
  s!"{index} : {i.stackPos}\t" ::
  match i.operation with
  | .value v =>
    [ "VAL \t",
      if v.isConstant then "[ADDR: null]"
      else "[ADDR: slot][IDENT:" ++ v.name ++ "][COEF:" ++ general v.coef ++ "]",
      "[CON:" ++ general v.offset ++ "]\n" ]
  | .call c =>
    if c.binary then ["(unknown code: " ++ i.kind.name ++ ")\n"]
    else ["CALL\t[IDENT:" ++ c.name ++ s!"][ARG:{c.arity}]\n"]
  | .assign a => ["ASSIGN\t[IDENT:" ++ a.name ++ "]\n"]
  | .stop => ["(unknown code: " ++ i.kind.name ++ ")\n"]

namespace Program

/-- The pieces of a dump: a line about the program, its instructions up to the first end, and a
closing line. -/
def dumpPieces (p : Program Float) : List String :=
  if p.size = 0 then ["No bytecode available\n"]
  else
    let body := p.code.takeWhile fun i => i.kind != .stop
    (s!"Engine ID:{p.engineId};  Code: {engineBits p.engineId p.size};  " ++
        s!"Number of tokens:{p.size - 1}\n") ::
      body.zipIdx.flatMap (fun (i, index) => i.dumpPieces index) ++ ["END\n"]

/-- The text of a dump. -/
def dump (p : Program Float) : String := String.join p.dumpPieces

/-- What arrives of a dump at a destination that accepts `limit` pieces, and whether all did. -/
def dumpLimited (p : Program Float) (limit : Nat) : String × Bool :=
  (String.join (p.dumpPieces.take limit), p.dumpPieces.length ≤ limit)

end Program

end StackCode
