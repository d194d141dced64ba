import StackCode.Text.Quoted
import StackCode.Command.Settings.Scalar

/-!
# Settings as lines of keys and values

Lines `key: value` with a word or a text in quotes as the value. Blanks are spaces and tabs only. A
comment starts with `#` in front of which there is nothing or a blank. A text in quotes may run over
several lines: the blanks around a line break do not count, a single line break stands for a space,
and of several the first one does not count. No key may be given twice.
-/

namespace StackCode

/-- Whether a character is a blank inside a line. -/
def isLineBlank (c : Char) : Bool := c == ' ' || c == '\t'

/-- Whether a character ends a line. -/
def isLineBreak (c : Char) : Bool :=
  c == '\n' || c == '\r' || c == '\u0085' || c == '\u2028' || c == '\u2029'

/-- A line break as it is kept. -/
def keptBreak (c : Char) : Char := if c == '\r' || c == '\u0085' then '\n' else c

/-- The mark of the byte order, which does not count at the start of a line. -/
def byteOrderMark : Char := '\ufeff'

/-- What stands between two parts of a text in quotes. -/
inductive Gap where
  /-- Blanks inside a line. -/
  | blanks (cs : List Char)
  /-- A line break and those that follow. The first one is none if it is escaped. -/
  | breaks (first : Option Char) (more : List Char)

namespace Gap

/-- A gap with one more blank. -/
def addBlank (c : Char) : Gap → Gap
  | .blanks cs => .blanks (cs ++ [c])
  | gap => gap

/-- A gap with one more line break. -/
def addBreak (c : Char) : Gap → Gap
  | .blanks _ => .breaks (some (keptBreak c)) []
  | .breaks first more => .breaks first (more ++ [keptBreak c])

/-- What a gap stands for. -/
def chars : Gap → List Char
  | .blanks cs => cs
  | .breaks (some '\n') [] => [' ']
  | .breaks (some '\n') more => more
  | .breaks first more => first.toList ++ more

end Gap

/-- The character with the code point in hexadecimal digits. -/
def hexChar (digits : List Char) : Char :=
  Char.ofNat (digits.foldl (fun n c => 16 * n + (digitValue? true c).getD 0) 0)

/-- The character that a letter after a backslash stands for. -/
def escapedChar : Char → Char
  | '0' => '\x00'
  | 'a' => '\x07'
  | 'b' => '\x08'
  | 't' => '\t'
  | 'n' => '\n'
  | 'v' => '\x0b'
  | 'f' => '\x0c'
  | 'r' => '\r'
  | 'e' => '\x1b'
  | 'N' => '\u0085'
  | '_' => '\u00a0'
  | 'L' => '\u2028'
  | 'P' => '\u2029'
  | c => c

/-- The text up to the closing double quote, after the given gap, and the rest. -/
def doubleQuoted? (gap : Gap) : List Char → Option (List Char × List Char)
  | [] => none
  | '"' :: rest => some (gap.chars, rest)
  | '\r' :: '\n' :: rest => doubleQuoted? (gap.addBreak '\n') rest
  | '\\' :: '\r' :: '\n' :: rest => after gap.chars (doubleQuoted? (.breaks none []) rest)
  | '\\' :: 'x' :: a :: b :: rest =>
    after (gap.chars ++ [hexChar [a, b]]) (doubleQuoted? (.blanks []) rest)
  | '\\' :: 'u' :: a :: b :: c :: d :: rest =>
    after (gap.chars ++ [hexChar [a, b, c, d]]) (doubleQuoted? (.blanks []) rest)
  | '\\' :: 'U' :: a :: b :: c :: d :: e :: f :: g :: h :: rest =>
    after (gap.chars ++ [hexChar [a, b, c, d, e, f, g, h]]) (doubleQuoted? (.blanks []) rest)
  | '\\' :: c :: rest =>
    if isLineBreak c then after gap.chars (doubleQuoted? (.breaks none []) rest)
    else after (gap.chars ++ [escapedChar c]) (doubleQuoted? (.blanks []) rest)
  | c :: rest =>
    if isLineBreak c then doubleQuoted? (gap.addBreak c) rest
    else if isLineBlank c then doubleQuoted? (gap.addBlank c) rest
    else after (gap.chars ++ [c]) (doubleQuoted? (.blanks []) rest)
where
  /-- Puts characters in front of a text that is read. -/
  after (cs : List Char) : Option (List Char × List Char) → Option (List Char × List Char) :=
    Option.map fun (text, rest) => (cs ++ text, rest)

/-- The text up to the closing single quote, after the given gap, and the rest. A quote inside is
written twice. -/
def singleQuoted? (gap : Gap) : List Char → Option (List Char × List Char)
  | [] => none
  | '\x27' :: '\x27' :: rest =>
    (singleQuoted? (.blanks []) rest).map fun (text, rest) => (gap.chars ++ '\x27' :: text, rest)
  | '\x27' :: rest => some (gap.chars, rest)
  | '\r' :: '\n' :: rest => singleQuoted? (gap.addBreak '\n') rest
  | c :: rest =>
    if isLineBreak c then singleQuoted? (gap.addBreak c) rest
    else if isLineBlank c then singleQuoted? (gap.addBlank c) rest
    else (singleQuoted? (.blanks []) rest).map fun (text, rest) => (gap.chars ++ c :: text, rest)

/-- The text in quotes at the start, and the rest. -/
def quotedStart? : List Char → Option (String × List Char)
  | '"' :: rest => (doubleQuoted? (.blanks []) rest).map fun (cs, rest) => (String.ofList cs, rest)
  | '\x27' :: rest =>
    (singleQuoted? (.blanks []) rest).map fun (cs, rest) => (String.ofList cs, rest)
  | _ => none

/-- Drops blanks at the end. -/
def dropLastBlanks (cs : List Char) : List Char := (cs.reverse.dropWhile isLineBlank).reverse

/-- What stands in front of a comment or the end of the line. -/
def plainWord : List Char → List Char
  | [] => []
  | c :: rest =>
    if isLineBreak c || (isLineBlank c && rest.head? == some '#') then []
    else c :: plainWord rest

/-- Whether nothing or a blank comes next. -/
def atWordEnd (cs : List Char) : Bool := cs.head?.all fun c => isLineBlank c || isLineBreak c

/-- A key without quotes and what follows its colon. -/
def plainKey? : List Char → Option (List Char × List Char)
  | [] => none
  | c :: rest =>
    if isLineBreak c then none
    else if c == ':' && atWordEnd rest then some ([], rest)
    else (plainKey? rest).map fun (key, rest) => (c :: key, rest)

/-- A key and what follows its colon. -/
def key? (cs : List Char) : Option (String × List Char) :=
  match quotedStart? cs with
  | some (key, rest) =>
    match rest.dropWhile isLineBlank with
    | ':' :: rest => if atWordEnd rest then some (key, rest) else none
    | _ => none
  | none => (plainKey? cs).map fun (key, rest) => (String.ofList (dropLastBlanks key), rest)

/-- Whether a character may stand in the name of a value. -/
def isAnchorChar (c : Char) : Bool := c.isAlphanum || c == '-' || c == '_'

/-- Drops what may stand in front of a value without changing it: a mark `!` alone, and a name after
`&`. -/
def dropMarks (cs : List Char) : List Char :=
  let cs := match cs with
    | '!' :: rest => if atWordEnd rest then rest.dropWhile isLineBlank else cs
    | _ => cs
  match cs with
  | '&' :: c :: rest =>
    let after := rest.dropWhile isAnchorChar
    if isAnchorChar c && atWordEnd after then after.dropWhile isLineBlank else cs
  | _ => cs

/-- The value after a colon, and the rest. -/
def readValue (cs : List Char) : Scalar × List Char :=
  let cs := dropMarks (cs.dropWhile isLineBlank)
  match quotedStart? cs with
  | some (text, rest) => (.text text, rest)
  | none =>
    let value := match cs with
      | '#' :: _ => .null
      | '|' :: _ => .text ""
      | '>' :: _ => .text ""
      | _ => wordScalar (dropLastBlanks (plainWord cs))
    (value, cs)

/-- Where the search for the next key stands. -/
inductive LinePlace where
  /-- At the start of a line. -/
  | start
  /-- After blanks. -/
  | inside
  /-- In a comment. -/
  | comment

/-- Skips blanks, line breaks and comments. -/
def skipLines : LinePlace → List Char → List Char
  | _, [] => []
  | place, c :: rest =>
    if isLineBreak c then skipLines .start rest
    else match place with
      | .comment => skipLines .comment rest
      | .inside => inLine c rest
      | .start => if c == byteOrderMark then skipLines .inside rest else inLine c rest
where
  /-- Skips what starts with a character inside a line. -/
  inLine (c : Char) (rest : List Char) : List Char :=
    if isLineBlank c then skipLines .inside rest
    else if c == '#' then skipLines .comment rest
    else c :: rest

/-- The number of line breaks. -/
def countBreaks : List Char → Nat
  | [] => 0
  | '\r' :: '\n' :: rest => countBreaks rest + 1
  | c :: rest => countBreaks rest + if isLineBreak c then 1 else 0

/-- A key with its line and value. -/
structure SettingLine where
  line : Nat
  key : String
  value : Scalar

/-- The settings in a text, from line `line` on. Lines without a key are skipped. -/
def settingLines (fuel line : Nat) (cs : List Char) : List SettingLine :=
  match fuel with
  | 0 => []
  | fuel + 1 =>
    let start := skipLines .start cs
    let line := line + countBreaks (cs.take (cs.length - start.length))
    let next (rest : List Char) : List SettingLine :=
      let rest := rest.dropWhile (!isLineBreak ·)
      settingLines fuel (line + countBreaks (start.take (start.length - rest.length))) rest
    if start.isEmpty then []
    else match key? start with
      | none => next start
      | some (key, rest) =>
        let (value, rest) := readValue rest
        ⟨line, key, value⟩ :: next rest

/-- The settings that repeat the key of an earlier one, with the line of that one. -/
def repeatedKeys : List SettingLine → List (Nat × SettingLine)
  | [] => []
  | s :: rest => (rest.filter (·.key == s.key)).map (s.line, ·) ++ repeatedKeys rest

/-- The text of the error about repeated keys. -/
def repeatedKeysMessage (repeated : List (Nat × SettingLine)) : String :=
  "yaml: unmarshal errors:" ++ String.join (repeated.map fun (first, s) =>
    s!"\n  line {s.line}: mapping key " ++ quote s.key ++ s!" already defined at line {first}")

/-- The settings in a text. -/
def readYaml (text : String) : Except String (List (String × Scalar)) :=
  let lines := settingLines (text.length + 1) 1 text.toList
  let repeated := repeatedKeys lines
  if repeated.isEmpty then .ok (lines.map fun s => (s.key, s.value))
  else .error (repeatedKeysMessage repeated)

end StackCode
