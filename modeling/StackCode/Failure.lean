import StackCode.Text.Quoted

/-!
# Failures

A failure is a chain of layers, outermost first: a plain text, an internal error with its code, a
text put in front of a cause, or a complaint about an expression. The empty chain is the absence
of a failure. A plain text has no cause, so what stands after it is never looked at.
-/

namespace StackCode

/-- One layer of a failure. -/
inductive Layer where
  /-- A text without a cause. -/
  | plain (text : String)
  /-- A broken precondition of the assembler, by code. -/
  | internal (code : String)
  /-- A text in front of a cause. -/
  | context (text : String)
  /-- A complaint about an expression, at a token unless `position` is negative. -/
  | complaint (position : Int) (token text : String)
  deriving DecidableEq, Repr

/-- A chain of layers, outermost first. -/
abbrev Failure := List Layer

/-- The short description of an internal error code. -/
def codeDescription : String → String
  | "E4001" => "stack underflow"
  | "E4002" => "empty program"
  | "E4003" => "not an assignment"
  | "E4004" => "unknown instruction"
  | "E4005" => "invalid arity"
  | "E4006" => "verification failed"
  | _ => "unknown error"

/-- The category of an internal error code, read from its second byte. -/
def codeCategory (code : String) : String :=
  if code.toUTF8.data[1]? == some 0x34 then "internal" else "unknown"

namespace Failure

/-- The text of a failure. -/
def message : Failure → String
  | [] => ""
  | .plain text :: _ => text
  | .internal code :: cause =>
    let head := "internal error " ++ code ++ ": " ++ codeDescription code
    if cause.isEmpty then head else head ++ ": " ++ message cause
  | .context text :: cause =>
    text ++ ": " ++ (if cause.isEmpty then "%!w(<nil>)" else message cause)
  | .complaint position token text :: cause =>
    let place := if position < 0 then ""
      else s!" at token {position} (" ++ quote token ++ ")"
    let head := "syntax error" ++ place ++ ": " ++ text
    if cause.isEmpty then head else head ++ ": " ++ message cause

/-- The layers that can be reached from the outermost one. -/
def reachable : Failure → Failure
  | [] => []
  | .plain text :: _ => [.plain text]
  | layer :: cause => layer :: reachable cause

/-- The code of the first internal error in the chain. -/
def code? (f : Failure) : Option String :=
  f.reachable.findSome? fun
    | .internal code => some code
    | _ => none

/-- Whether the chain holds an internal error. -/
def isInternal (f : Failure) : Bool := f.code?.isSome

/-- Whether the chain holds an internal error with the given code. -/
def hasCode (f : Failure) (code : String) : Bool :=
  f.reachable.any fun
    | .internal c => c == code
    | _ => false

/-- The position, token and text of the first complaint in the chain, and whether it has a
cause. -/
def complaint? (f : Failure) : Option (Int × String × String × Bool) :=
  match f with
  | [] => none
  | .plain _ :: _ => none
  | .complaint position token text :: cause => some (position, token, text, !cause.isEmpty)
  | _ :: cause => complaint? cause

/-- Whether the outermost layer has a cause. -/
def hasCause : Failure → Bool
  | [] => false
  | .plain _ :: _ => false
  | _ :: cause => !cause.isEmpty

/-- Puts a layer around a failure; a plain text replaces it. -/
def wrap (f : Failure) : Layer → Failure
  | .plain text => [.plain text]
  | layer => layer :: f

end Failure

end StackCode
