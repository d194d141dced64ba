import StackCode.Failure
import StackCode.Text.Blank
import StackCode.Text.Pieces
import StackCode.Decimal.Reading
import StackCode.Routine.Catalog
import StackCode.Program.Folding
import StackCode.Program.Finalize
import StackCode.Report

/-!
# Postfix expressions

A postfix expression is a list of tokens between delimiters, such as `x,2,*,1,+`. A token is a
number, a variable, a routine with or without an operand count (`sum:3`), or an assignment (`=x`).
Tokens are classified by their text alone; whether a token finds its operands on the stack is
checked when it is pushed. An expression leaves exactly one value on the stack.
-/

namespace StackCode

universe u

/-- Why an expression is not assembled. -/
inductive Complaint where
  | emptyExpression
  | emptyToken
  /-- The operand count is not a count. -/
  | badCount (cause : Option ReadError)
  | unknownFunction (name : String)
  | unknownName (name : String)
  /-- A variadic routine without operand count. -/
  | countNeeded (name : String)
  /-- An operand count that differs from the fixed one. -/
  | wrongCount (name : String) (fixed given : Nat)
  | missingOperands (name : String) (arity : Nat) (depth : Int)
  /-- An assignment to a variable that is not bound. -/
  | unboundTarget (name : String)
  | shortAssignment
  /-- The program refused the token. -/
  | refused (misuse : Misuse)
  /-- The expression does not leave one value. -/
  | leftover (depth : Int)
  | reservedDelimiter (delimiter : Char)
  | slotless (name : String)

namespace Complaint

/-- The text of a complaint, without its cause. -/
def text : Complaint → String
  | .emptyExpression => "empty expression"
  | .emptyToken => "empty token"
  | .badCount _ => "invalid operand count"
  | .unknownFunction name => "unknown function " ++ name
  | .unknownName name => "unknown identifier " ++ name
  | .countNeeded name => s!"{name} needs an operand count, e.g. {name}:2"
  | .wrongCount name fixed given => s!"{name} takes {fixed} operands, got {given}"
  | .missingOperands name arity depth => s!"{name} needs {arity} operands, stack has {depth}"
  | .unboundTarget name => "cannot assign to unbound variable " ++ quote name
  | .shortAssignment => "assignment needs a destination and a value"
  | .refused _ => "cannot assemble"
  | .leftover depth => s!"expression leaves {depth} values on the stack"
  | .reservedDelimiter delimiter => "cannot use " ++ quoteSingle delimiter ++ " as delimiter"
  | .slotless name => s!"variable {name} has no slot"

/-- What caused a complaint. -/
def cause : Complaint → Failure
  | .badCount (some e) => [.plain e.message]
  | .refused m => m.failure
  | _ => []

end Complaint

/-- A complaint about an expression, at a token or about the whole. -/
structure SyntaxError where
  position : Option Nat
  token : String
  complaint : Complaint

/-- The failure that a syntax error amounts to. -/
def SyntaxError.failure (e : SyntaxError) : Failure :=
  let position : Int := match e.position with
    | some i => i
    | none => -1
  .complaint position e.token e.complaint.text :: e.complaint.cause

/-- A complaint about the whole expression. -/
def Complaint.overall (c : Complaint) : SyntaxError := ⟨none, "", c⟩

/-- A token, classified. -/
inductive Token (α : Type u) where
  | literal (x : α)
  | slot (name : String) (slot : Slot)
  | call (entry : CatalogEntry) (arity : Nat)
  | assign (name : String) (slot : Slot)

/-- What turns expressions into programs. -/
structure Assembler (α : Type u) where
  delimiter : Char := ','
  /-- The slots of the bound variables. -/
  slots : List (String × Slot) := []
  config : Config := {}
  /-- How a number is read. -/
  number : String → Option α
  /-- The draws of the programs. -/
  draws : Nat → α

/-- What came of an expression: the events on the way, and the program or the error. -/
structure Assembly (α : Type u) where
  events : List (Event α)
  result : Except SyntaxError (Program α)

/-- The parts before and after the last colon. -/
def cutAtColon? : List Char → Option (List Char × List Char)
  | [] => none
  | c :: cs =>
    match cutAtColon? cs with
    | some (before, after) => some (c :: before, after)
    | none => if c == ':' then some ([], cs) else none

/-- The name in a token and its operand count, if it has one. -/
def splitCount (text : String) : Except Complaint (String × Option Nat) :=
  match cutAtColon? text.toList with
  | none => .ok (text, none)
  | some (name, count) =>
    match readCount (String.ofList count) with
    | .error e => .error (.badCount (some e))
    | .ok n => if n < 0 then .error (.badCount none) else .ok (String.ofList name, some n.toNat)

/-- The operand count of a call of a named routine. -/
def CatalogEntry.operands (entry : CatalogEntry) (given : Option Nat) : Except Complaint Nat :=
  match entry.arity, given with
  | none, none => .error (.countNeeded entry.name)
  | none, some n => .ok n
  | some fixed, none => .ok fixed
  | some fixed, some n => if fixed = n then .ok n else .error (.wrongCount entry.name fixed n)

namespace Assembler

variable {α : Type u}

/-- Changes the delimiter. Operators and the marks of assignments and counts are reserved. -/
def withDelimiter (a : Assembler α) (d : Char) : Except SyntaxError (Assembler α) :=
  if (Operator.ofSymbol? (String.singleton d)).isSome || d == '=' || d == ':' then
    .error (Complaint.reservedDelimiter d).overall
  else .ok { a with delimiter := d }

/-- Binds variables, each of which needs a slot. A later binding of a name wins. -/
def withVariables (a : Assembler α) : List (String × Option Slot) → Except SyntaxError (Assembler α)
  | [] => .ok a
  | (name, none) :: _ => .error (Complaint.slotless name).overall
  | (name, some slot) :: rest => withVariables { a with slots := (name, slot) :: a.slots } rest

/-- Classifies a token by its text. -/
def token (a : Assembler α) (text : String) : Except Complaint (Token α) :=
  if text = "" then .error .emptyToken
  else match a.number text with
    | some x => .ok (.literal x)
    | none =>
      match text.toList with
      | '=' :: rest =>
        let name := String.ofList rest
        match a.slots.lookup name with
        | some slot => .ok (.assign name slot)
        | none => .error (.unboundTarget name)
      | _ =>
        match splitCount text with
        | .error c => .error c
        | .ok (name, count) =>
          match lookup? name, count with
          | some entry, _ => (entry.operands count).map (.call entry)
          | none, some _ => .error (.unknownFunction name)
          | none, none =>
            match a.slots.lookup text with
            | some slot => .ok (.slot text slot)
            | none => .error (.unknownName text)

variable [Arithmetic α]

/-- Pushes a token. -/
def pushToken (p : Program α) : Token α → List (Event α) × Except Complaint (Program α)
  | .literal x => ([], .ok (p.pushValue (.literal x)))
  | .slot name slot => ([], .ok (p.pushValue (.ofSlot name (some slot))))
  | .call entry arity =>
    if p.stackPos < arity then ([], .error (.missingOperands entry.name arity p.stackPos))
    else
      let step := p.pushCall
        (if entry.binary then .operator entry.name (some (.builtin entry.routine))
        else ⟨entry.name, some (.builtin entry.routine), arity, false⟩)
      (step.events, match step.misuse with
        | none => .ok step.program
        | some m => .error (.refused m))
  | .assign name slot =>
    if p.stackPos < 2 then ([], .error .shortAssignment)
    else
      let step := p.pushAssign (.assign ⟨name, some slot⟩)
      (step.events, match step.misuse with
        | none => .ok step.program
        | some m => .error (.refused m))

/-- Pushes the tokens from position `index` on. -/
def pushAll (a : Assembler α) (p : Program α) (index : Nat) : List String → Assembly α
  | [] => ⟨[], .ok p⟩
  | text :: rest =>
    match a.token text with
    | .error c => ⟨[], .error ⟨some index, text, c⟩⟩
    | .ok t =>
      match pushToken p t with
      | (events, .error c) => ⟨events, .error ⟨some index, text, c⟩⟩
      | (events, .ok q) =>
        let more := pushAll a q (index + 1) rest
        { more with events := events ++ more.events }

/-- The tokens of an expression, without blanks at their ends. -/
def tokens (a : Assembler α) (source : String) : List String :=
  (splitAt a.delimiter source.toList).map fun cs => String.ofList (trimChars cs)

/-- An empty program with the settings of the assembler. -/
def start (a : Assembler α) : Program α := { config := a.config, draws := a.draws }

/-- Assembles an expression into a sealed program. -/
def assemble (a : Assembler α) (source : String) : Assembly α :=
  if (trimChars source.toList).isEmpty then ⟨[], .error Complaint.emptyExpression.overall⟩
  else
    let pushed := a.pushAll a.start 0 (a.tokens source)
    match pushed.result with
    | .error e => ⟨pushed.events, .error e⟩
    | .ok p =>
      if p.stackPos ≠ 1 then ⟨pushed.events, .error (Complaint.leftover p.stackPos).overall⟩
      else
        let step := p.finalize
        ⟨pushed.events ++ step.events, .ok step.program⟩

end Assembler

end StackCode
