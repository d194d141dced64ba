import StackCode.Text.Pieces
import StackCode.Json.Reading
import StackCode.Command.Settings.Scalar

/-!
# Settings as assignments

Lines `key = value`, where a value is a text in quotes, a truth value or a number. A comment starts
with `#`.
-/

namespace StackCode

/-- Why assignments are not read. -/
inductive AssignmentError where
  /-- A character with which no key starts. -/
  | keyStart (c : Char)
  /-- No equals sign after the key. -/
  | noEquals
  /-- The text ends after the key. -/
  | noValue
  /-- A word that starts as the word for a truth value does. -/
  | badTruth (expected : String)
  | badNumber
  /-- More in the line after the value, with its first character. -/
  | noBreak (c : Char)

/-- The text of an error about assignments. -/
def AssignmentError.message : AssignmentError → String
  | .keyStart c =>
    "toml: invalid character at start of key: " ++ String.singleton (Char.ofNat (leadByte c))
  | .noEquals => "toml: expected character ="
  | .noValue => "toml: expected = after a key, but the document ends there"
  | .badTruth expected => "toml: expected '" ++ expected ++ "'"
  | .badNumber => "toml: incomplete number"
  | .noBreak c =>
    let code := String.ofList ((hexDigits 4 (leadByte c)).map Char.toUpper)
    "toml: expected newline but got U+" ++ code ++ " '" ++
      String.singleton (Char.ofNat (leadByte c)) ++ "'"

/-- Whether a character may stand in a key without quotes. -/
def isBareKeyChar (c : Char) : Bool := c.isAlphanum || c == '-' || c == '_'

/-- Whether a character is a blank in a line of assignments. -/
def isAssignmentBlank (c : Char) : Bool := c == ' ' || c == '\t' || c == '\r'

/-- A text in quotes, and the rest. -/
def quotedAssignment? : List Char → Option (String × List Char)
  | '"' :: rest =>
    match Json.readString rest with
    | .ok found => some found
    | .error _ => none
  | '\x27' :: rest =>
    match rest.span (· != '\x27') with
    | (text, _ :: rest) => some (String.ofList text, rest)
    | (_, []) => none
  | _ => none

/-- The key at the start of a line, and the rest. -/
def assignmentKey (cs : List Char) : Except AssignmentError (String × List Char) :=
  match quotedAssignment? cs with
  | some found => .ok found
  | none =>
    match cs.span isBareKeyChar with
    | ([], c :: _) => .error (.keyStart c)
    | (key, rest) => .ok (String.ofList key, rest)

/-- The value at the start of a text, and the rest. -/
def assignmentValue (cs : List Char) : Except AssignmentError (Scalar × List Char) :=
  match quotedAssignment? cs with
  | some (text, rest) => .ok (.text text, rest)
  | none =>
    let word := cs.takeWhile fun c => !isAssignmentBlank c && c != '#'
    let rest := cs.dropWhile fun c => !isAssignmentBlank c && c != '#'
    let plain := word.filter (· != '_')
    if word == "true".toList then .ok (.truth true, rest)
    else if word == "false".toList then .ok (.truth false, rest)
    else if word.head? == some 't' then .error (.badTruth "true")
    else if word.head? == some 'f' then .error (.badTruth "false")
    else match wholeWord? plain, decimalWord? plain with
      | some i, _ => .ok (.whole i, rest)
      | none, some x => .ok (.decimal x, rest)
      | none, none => .error .badNumber

/-- The assignment in a line; `last` if no line follows. -/
def readAssignment (last : Bool) (line : List Char) :
    Except AssignmentError (Option (String × Scalar)) := do
  let cs := line.dropWhile isAssignmentBlank
  if cs.isEmpty || cs.head? == some '#' then return none
  let (key, rest) ← assignmentKey cs
  match rest.dropWhile isAssignmentBlank with
  | '=' :: rest =>
    let (value, rest) ← assignmentValue (rest.dropWhile isAssignmentBlank)
    match rest.dropWhile isAssignmentBlank with
    | [] => return some (key, value)
    | c :: _ => if c == '#' then return some (key, value) else throw (.noBreak c)
  | [] => throw (if last then .noValue else .noEquals)
  | _ => throw .noEquals

/-- The assignments in lines. -/
def readAssignments : List (List Char) → Except AssignmentError (List (String × Scalar))
  | [] => .ok []
  | line :: rest => do
    let found ← readAssignment rest.isEmpty line
    return found.toList ++ (← readAssignments rest)

/-- The settings in a text of assignments. -/
def readToml (text : String) : Except AssignmentError (List (String × Scalar)) :=
  readAssignments (splitAt '\n' text.toList)

end StackCode
