import StackCode.Text.Blank

/-!
# Comma-separated records

The first record of a text: fields between commas, up to the end of a line. A field in double
quotes may hold commas, line breaks and, doubled, quotes. Empty lines in front of the record are
skipped, and a carriage return in front of a line break is dropped. Errors give the line and the
column, counted in bytes of UTF-8.

A record is written on one line, with quotes around the fields that need them.
-/

namespace StackCode

/-- Why a text does not start with a record. -/
inductive RecordError where
  /-- There is no record. -/
  | missing
  /-- A quote in a field that does not start with one. -/
  | bareQuote (first line column : Nat)
  /-- A quoted field that does not end, or goes on after its end. -/
  | brokenQuote (first line column : Nat)
  deriving DecidableEq, Repr

/-- A position in the record that starts in line `first`. -/
def recordPlace (first line column : Nat) : String :=
  (if first = line then "" else s!"record on line {first}; ") ++
    s!"parse error on line {line}, column {column}: "

/-- The text of a record error. -/
def RecordError.message : RecordError → String
  | .missing => "EOF"
  | .bareQuote first line column =>
    recordPlace first line column ++ "bare \" in non-quoted-field"
  | .brokenQuote first line column =>
    recordPlace first line column ++ "extraneous or missing \" in quoted-field"

/-- Drops carriage returns at the ends of lines and of the text. -/
def unixLines : List Char → List Char
  | [] => []
  | ['\r'] => []
  | '\r' :: '\n' :: rest => '\n' :: unixLines rest
  | c :: rest => c :: unixLines rest

/-- Where the scan of a record stands. -/
inductive RecordState where
  /-- At the start of a field. -/
  | start
  /-- In a field without quotes. -/
  | plain (field : List Char)
  /-- Between the quotes of a field. -/
  | quoted (field : List Char)
  /-- After a quote that may end a field. -/
  | closing (field : List Char)

/-- Scans a record from the given line and column on. Fields are collected in order, the
characters of the current one in reverse. -/
def scanRecord (first : Nat) (line column : Nat) (fields : List String) :
    RecordState → List Char → Except RecordError (List String)
  | .start, [] => .ok (fields ++ [""])
  | .start, c :: cs =>
    if c == '"' then scanRecord first line (column + 1) fields (.quoted []) cs
    else if c == ',' then scanRecord first line (column + 1) (fields ++ [""]) .start cs
    else if c == '\n' then .ok (fields ++ [""])
    else scanRecord first line (column + c.utf8Size) fields (.plain [c]) cs
  | .plain field, [] => .ok (fields ++ [String.ofList field.reverse])
  | .plain field, c :: cs =>
    if c == ',' then
      scanRecord first line (column + 1) (fields ++ [String.ofList field.reverse]) .start cs
    else if c == '\n' then .ok (fields ++ [String.ofList field.reverse])
    else if c == '"' then .error (.bareQuote first line column)
    else scanRecord first line (column + c.utf8Size) fields (.plain (c :: field)) cs
  | .quoted _, [] => .error (.brokenQuote first line column)
  | .quoted field, c :: cs =>
    if c == '"' then scanRecord first line (column + 1) fields (.closing field) cs
    else if c == '\n' && !cs.isEmpty then
      scanRecord first (line + 1) 1 fields (.quoted (c :: field)) cs
    else scanRecord first line (column + c.utf8Size) fields (.quoted (c :: field)) cs
  | .closing field, [] => .ok (fields ++ [String.ofList field.reverse])
  | .closing field, c :: cs =>
    if c == '"' then scanRecord first line (column + 1) fields (.quoted (c :: field)) cs
    else if c == ',' then
      scanRecord first line (column + 1) (fields ++ [String.ofList field.reverse]) .start cs
    else if c == '\n' then .ok (fields ++ [String.ofList field.reverse])
    else .error (.brokenQuote first line (column - 1))

/-- The fields of the first record of a text. -/
def readRecord (s : String) : Except RecordError (List String) :=
  let cs := unixLines s.toList
  let body := cs.dropWhile (· == '\n')
  let first := cs.length - body.length + 1
  if body.isEmpty then .error .missing else scanRecord first first 1 [] .start body

/-- Whether a field is written in quotes: it holds a comma, a quote or a line break, or starts with
a blank, or would be taken for the end of a text. -/
def needsQuotes (field : String) : Bool :=
  field == "\\." || field.toList.any (['\n', '\r', '"', ','].contains ·) ||
    field.toList.head?.any isBlank

/-- A field as it is written. -/
def writeField (field : String) : String :=
  if needsQuotes field then
    String.ofList ('"' :: field.toList.flatMap (fun c => if c == '"' then [c, c] else [c]) ++ ['"'])
  else field

/-- A record as it is written. -/
def writeRecord (fields : List String) : String := String.intercalate "," (fields.map writeField)

/-- The fields that a list holds after it was written as a record and read again. A carriage return
in front of a line break does not survive, and a single empty field leaves none. -/
def storedFields (fields : List String) : List String :=
  match readRecord (writeRecord fields) with
  | .ok stored => stored
  | .error _ => []

end StackCode
