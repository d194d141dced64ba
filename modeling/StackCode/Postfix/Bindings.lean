import StackCode.Failure
import StackCode.Text.Blank
import StackCode.Decimal.Reading

/-!
# Variable bindings

A binding is written `name=value`, with blanks around either part. A later binding of a name
replaces an earlier one.
-/

namespace StackCode

/-- The parts before and after the first equals sign. -/
def cutAtEquals? (cs : List Char) : Option (List Char × List Char) :=
  match cs.span (· != '=') with
  | (name, _ :: value) => some (name, value)
  | (_, []) => none

/-- The name and value of a binding. -/
def readBinding (pair : String) : Except Failure (String × Float) :=
  let malformed : Failure :=
    [.plain ("invalid variable binding " ++ quote pair ++ ", expected name=value")]
  match cutAtEquals? pair.toList with
  | none => .error malformed
  | some (left, right) =>
    let name := String.ofList (trimChars left)
    if name = "" then .error malformed
    else match readNumber (String.ofList (trimChars right)) with
      | .ok x => .ok (name, x)
      | .error e => .error [.context ("invalid value for variable " ++ name), .plain e.message]

/-- Binds a name, in place of an earlier binding of it. -/
def rebind (name : String) (x : Float) (bindings : List (String × Float)) :
    List (String × Float) :=
  bindings.filter (·.1 != name) ++ [(name, x)]

/-- Reads bindings in turn. -/
def readBindings (pairs : List String) : Except Failure (List (String × Float)) :=
  pairs.foldlM (fun bindings pair => (readBinding pair).map fun (name, x) => rebind name x bindings) []

end StackCode
