import StackCode.Text.Pieces
import StackCode.Command.Settings.Scalar

/-!
# Settings as variables

Lines `NAME=value` or `NAME: value`. All values are texts, in quotes or up to a comment. Outside
single quotes a name after `$` stands for the value of an earlier line or of the environment. A text
in quotes may run over several lines.
-/

namespace StackCode

/-- Why variables are not read. -/
inductive VariableError where
  | badLine (line : String)
  | unset (line : String)
  | openQuote
  deriving DecidableEq, Repr

/-- The text of an error about variables. -/
def VariableError.message : VariableError → String
  | .badLine line => "line `" ++ line ++ "` doesn't match format"
  | .unset line => "line `" ++ line ++ "` has an unset variable"
  | .openQuote => "missing quotes"

/-- Whether a character is a blank between the parts of a line. -/
def isPartBlank (c : Char) : Bool := ['\t', '\n', '\x0c', '\r', ' '].contains c

/-- Whether a character may stand in the name of a variable. -/
def isNameChar (c : Char) : Bool := c.isAlphanum || c == '_' || c == '.'

/-- Whether only blanks and a comment are left. -/
def isLineRest (cs : List Char) : Bool :=
  match cs.dropWhile isPartBlank with
  | [] => true
  | c :: rest => c == '#' && !rest.contains '\n'

/-- The part up to the last closing quote after which only blanks and a comment are left. -/
def quotedPart? (mark : Char) : List Char → Option (List Char)
  | [] => none
  | c :: rest =>
    match quotedPart? mark rest with
    | some part => some (c :: part)
    | none => if c == mark && isLineRest rest then some [c] else none

/-- The value at the start of a text, if only blanks and a comment follow it. -/
def valuePart? (cs : List Char) : Option (List Char) :=
  let quoted? := match cs with
    | '"' :: rest => (quotedPart? '"' rest).map ('"' :: ·)
    | '\x27' :: rest => (quotedPart? '\x27' rest).map ('\x27' :: ·)
    | _ => none
  match quoted? with
  | some part => some part
  | none =>
    let stop (c : Char) : Bool := c == '#' || c == '\n'
    if isLineRest (cs.dropWhile (!stop ·)) then some (cs.takeWhile (!stop ·)) else none

/-- The name and the value in a line. -/
def namedValue? (cs : List Char) : Option (String × List Char) := do
  let name := cs.takeWhile isNameChar
  let rest := cs.dropWhile isNameChar
  if name.isEmpty then none
  else
    let value ← match rest.dropWhile isPartBlank with
      | '=' :: value => valuePart? (value.dropWhile isPartBlank)
      | _ => match rest with
        | ':' :: blank :: value => if isPartBlank blank then valuePart? value else none
        | _ => none
    some (String.ofList name, trimChars value)

/-- The name and the value in a line that may start with the word `export`. -/
def variableLine? (cs : List Char) : Option (String × List Char) :=
  let exported? := match "export".toList.isPrefixOf? cs with
    | some (blank :: rest) =>
      if isPartBlank blank then namedValue? (rest.dropWhile isPartBlank) else none
    | _ => none
  exported?.or (namedValue? cs)

/-- Puts line breaks and carriage returns for their letters. -/
def breakLetters : List Char → List Char
  | '\\' :: 'n' :: rest => '\n' :: breakLetters rest
  | '\\' :: 'r' :: rest => '\r' :: breakLetters rest
  | c :: rest => c :: breakLetters rest
  | [] => []

/-- Drops the backslash in front of every character but `$`. -/
def dropBackslashes : List Char → List Char
  | '\\' :: '$' :: rest => '\\' :: '$' :: dropBackslashes rest
  | '\\' :: c :: rest => c :: dropBackslashes rest
  | c :: rest => c :: dropBackslashes rest
  | [] => []

/-- Whether a character may stand in a name after `$`. -/
def isReferenceChar (c : Char) : Bool := c.isUpper || c.isDigit || c == '_'

/-- Puts values for the names after `$`. A backslash in front of `$` is dropped and keeps it. -/
def expand (value : String → String) (fuel : Nat) (cs : List Char) : List Char :=
  match fuel, cs with
  | 0, _ => cs
  | _, [] => []
  | fuel + 1, '\\' :: '$' :: rest =>
    let (_, after) := reference rest
    '$' :: rest.take (rest.length - after.length) ++ expand value fuel after
  | fuel + 1, '$' :: rest =>
    let (name, after) := reference rest
    (if name.isEmpty then '$' :: rest.take (rest.length - after.length)
      else (value (String.ofList name)).toList) ++ expand value fuel after
  | fuel + 1, c :: rest => c :: expand value fuel rest
where
  /-- The name after `$`, with or without braces, and the rest. -/
  reference (cs : List Char) : List Char × List Char :=
    let inner := match cs with
      | '\x7b' :: rest => rest
      | _ => cs
    let after := match inner.dropWhile isReferenceChar with
      | '\x7d' :: rest => rest
      | rest => rest
    (inner.takeWhile isReferenceChar, after)

/-- What a written value stands for. -/
def variableValue (value : String → String) (cs : List Char) : String :=
  let mark := cs.head?
  let isQuoted := mark == some '"' || mark == some '\x27'
  let inner := if isQuoted && 2 ≤ cs.length && cs.getLast? == mark then cs.tail.dropLast else cs
  let plain := if mark == some '"' then dropBackslashes (breakLetters inner) else inner
  String.ofList (if mark == some '\x27' then plain else expand value (plain.length + 1) plain)

/-- The quote that a line opens and does not close. -/
def openQuote? (line : List Char) : Option Char :=
  let (name, rest) := line.span (· != '=')
  let (name, rest) := if rest.isEmpty then line.span (· != ':') else (name, rest)
  match trimChars rest.tail with
  | mark :: value =>
    if name.isEmpty || (mark != '"' && mark != '\x27') then none
    else
      let inner := trimChars value
      let before := (inner.reverse.dropWhile (· != mark)).length
      if before = 0 || (mark :: value)[before - 1]? == some '\\' then some mark else none
  | [] => none

/-- Whether a line closes a text in quotes: its last quote has no backslash in front. -/
def closesQuote (mark : Char) (line : List Char) : Bool :=
  match line.reverse.dropWhile (· != mark) with
  | [] => false
  | _ :: before => before.head? != some '\\'

/-- The variables with that of one more line. -/
def addVariable (environment : String → Option String) (known : List (String × String))
    (line : List Char) : Except VariableError (List (String × String)) :=
  match variableLine? line with
  | some (name, value) =>
    let lookup (s : String) : String := ((environment s).or (known.lookup s)).getD ""
    .ok ((name, variableValue lookup value) :: known)
  | none =>
    let exported := String.ofList ((line.dropWhile (· != ' ')).drop 1)
    if "export".toList.isPrefixOf line && line.contains ' ' && (known.lookup exported).isNone then
      .error (.unset (String.ofList line))
    else .error (.badLine (String.ofList line))

/-- The variables in lines, the latest first. A text in quotes that is not closed waits for the lines
that follow. -/
def readVariables (environment : String → Option String) (known : List (String × String)) :
    Option (Char × List Char) → List (List Char) → Except VariableError (List (String × String))
  | none, [] => .ok known
  | some _, [] => .error .openQuote
  | none, line :: rest =>
    let line := trimChars line
    if line.isEmpty || line.head? == some '#' then readVariables environment known none rest
    else match openQuote? line with
      | some mark => readVariables environment known (some (mark, line)) rest
      | none =>
        match addVariable environment known line with
        | .ok known => readVariables environment known none rest
        | .error e => .error e
  | some (mark, waiting), line :: rest =>
    let joined := waiting ++ '\n' :: line
    if closesQuote mark line then
      match addVariable environment known joined with
      | .ok known => readVariables environment known none rest
      | .error e => .error e
    else readVariables environment known (some (mark, joined)) rest

/-- Line breaks for carriage returns. -/
def plainBreaks : List Char → List Char
  | [] => []
  | '\r' :: '\n' :: rest => '\n' :: plainBreaks rest
  | '\r' :: rest => '\n' :: plainBreaks rest
  | c :: rest => c :: plainBreaks rest

/-- The settings in a text of variables. Of two lines for one name the later one counts. -/
def readDotenv (environment : String → Option String) (text : String) :
    Except VariableError (List (String × Scalar)) :=
  let cs := match text.toList with
    | '\ufeff' :: rest => rest
    | cs => cs
  (readVariables environment [] none (splitAt '\n' (plainBreaks cs))).map fun known =>
    known.map fun (name, value) => (name, .text value)

end StackCode
