import StackCode.Json
import StackCode.Decimal.Reading

/-!
# Reading JSON texts

One value with blanks around it. The first character that cannot stand where it does is reported by
its first byte of UTF-8, together with what was read there.
-/

namespace StackCode

/-- Why a text is not a JSON value. -/
inductive JsonError where
  /-- The text ends too early. -/
  | ended
  /-- A character that cannot stand where it does. -/
  | unexpected (c : Char) (place : String)

/-- The first byte of a character in UTF-8. -/
def leadByte (c : Char) : Nat := ((String.singleton c).toUTF8.data[0]?.map UInt8.toNat).getD 0

/-- The text of a reading error. -/
def JsonError.message : JsonError → String
  | .ended => "unexpected end of JSON input"
  | .unexpected c place =>
    "invalid character " ++ quoteSingle (Char.ofNat (leadByte c)) ++ " " ++ place

namespace Json

/-- Whether a character is a blank between the parts of a value. -/
def isSpace (c : Char) : Bool := c == ' ' || c == '\t' || c == '\n' || c == '\r'

/-- The error at the start of a rest. -/
def failAt (place : String) : List Char → JsonError
  | [] => .ended
  | c :: _ => .unexpected c place

/-- Where the scan of a string stands. -/
inductive StringPlace where
  | plain
  /-- After a backslash. -/
  | escape
  /-- In front of the given number of hexadecimal digits. -/
  | digits (left : Nat)

/-- The written characters up to the closing quote, and the rest. -/
def writtenString : StringPlace → List Char → Except JsonError (List Char × List Char)
  | _, [] => .error .ended
  | place, c :: rest =>
    let keep (next : StringPlace) : Except JsonError (List Char × List Char) :=
      (writtenString next rest).map fun (cs, rest) => (c :: cs, rest)
    match place with
    | .plain =>
      if c == '"' then .ok ([], rest)
      else if c == '\\' then keep .escape
      else if c.toNat < 0x20 then .error (.unexpected c "in string literal")
      else keep .plain
    | .escape =>
      if c == 'u' then keep (.digits 3)
      else if ['b', 'f', 'n', 'r', 't', '\\', '/', '"'].contains c then keep .plain
      else .error (.unexpected c "in string escape code")
    | .digits left =>
      if (digitValue? true c).isSome then
        match left with
        | 0 => keep .plain
        | left + 1 => keep (.digits left)
      else .error (.unexpected c "in \\u hexadecimal character escape")

/-- The code points and halves of pairs that written characters stand for. -/
def stringUnits : List Char → List Nat
  | [] => []
  | '\\' :: 'u' :: a :: b :: c :: d :: rest =>
    [a, b, c, d].foldl (fun n c => 16 * n + (digitValue? true c).getD 0) 0 :: stringUnits rest
  | '\\' :: c :: rest =>
    (match c with
      | 'b' => 8
      | 'f' => 12
      | 'n' => 10
      | 'r' => 13
      | 't' => 9
      | c => c.toNat) :: stringUnits rest
  | c :: rest => c.toNat :: stringUnits rest

/-- Joins the halves of pairs; a half alone becomes the replacement character. -/
def joinPairs : List Nat → List Char
  | [] => []
  | high :: low :: rest =>
    if 0xD800 ≤ high && high < 0xDC00 && 0xDC00 ≤ low && low < 0xE000 then
      Char.ofNat (0x10000 + (high - 0xD800) * 0x400 + (low - 0xDC00)) :: joinPairs rest
    else single high :: joinPairs (low :: rest)
  | [n] => [single n]
where
  /-- A code point alone. -/
  single (n : Nat) : Char := if 0xD800 ≤ n && n < 0xE000 then '\ufffd' else Char.ofNat n

/-- A string after its opening quote, and the rest. -/
def readString (cs : List Char) : Except JsonError (String × List Char) :=
  (writtenString .plain cs).map fun (written, rest) =>
    (String.ofList (joinPairs (stringUnits written)), rest)

/-- One or more digits, and the rest. -/
def readDigits (place : String) (cs : List Char) : Except JsonError (List Char × List Char) :=
  match cs.span Char.isDigit with
  | ([], rest) => .error (failAt place rest)
  | digits => .ok digits

/-- The digits in front of the point, which do not start with a zero unless it stands alone. -/
def readWholePart : List Char → Except JsonError (List Char × List Char)
  | '0' :: rest => .ok (['0'], rest)
  | cs => readDigits "in numeric literal" cs

/-- A number, and the rest. -/
def readNumeral (cs : List Char) : Except JsonError (String × List Char) := do
  let sign := cs.takeWhile (· == '-')
  let (whole, rest) ← readWholePart (if sign.isEmpty then cs else cs.tail)
  let (fraction, rest) ← match rest with
    | '.' :: rest => do
      let (ds, rest) ← readDigits "after decimal point in numeric literal" rest
      pure ('.' :: ds, rest)
    | rest => pure ([], rest)
  let (exponent, rest) ← match rest with
    | mark :: after =>
      if mark == 'e' || mark == 'E' then do
        let (negative, digits) := takeSign after
        let (ds, rest) ← readDigits "in exponent of numeric literal" digits
        pure (mark :: (if negative then '-' :: ds else ds), rest)
      else pure ([], mark :: after)
    | [] => pure ([], [])
  return (String.ofList (sign.take 1 ++ whole ++ fraction ++ exponent), rest)

/-- Reads the rest of the word `word`. -/
def readWord (word : String) (value : Json) :
    List Char → List Char → Except JsonError (Json × List Char)
  | [], rest => .ok (value, rest)
  | _, [] => .error .ended
  | expected :: more, c :: rest =>
    if c == expected then readWord word value more rest
    else .error (.unexpected c
      ("in literal " ++ word ++ " (expecting " ++ quoteSingle expected ++ ")"))

mutual

/-- A value, and the rest. -/
def readValue (fuel : Nat) (cs : List Char) : Except JsonError (Json × List Char) :=
  match fuel with
  | 0 => .error .ended
  | fuel + 1 =>
    match cs.dropWhile isSpace with
    | [] => .error .ended
    | '\x7b' :: rest =>
      match rest.dropWhile isSpace with
      | '\x7d' :: rest => .ok (.object [], rest)
      | rest => readFields fuel [] rest
    | '[' :: rest =>
      match rest.dropWhile isSpace with
      | ']' :: rest => .ok (.array [], rest)
      | rest => readItems fuel [] rest
    | '"' :: rest => (readString rest).map fun (s, rest) => (.string s, rest)
    | 't' :: rest => readWord "true" (.truth true) ['r', 'u', 'e'] rest
    | 'f' :: rest => readWord "false" (.truth false) ['a', 'l', 's', 'e'] rest
    | 'n' :: rest => readWord "null" .null ['u', 'l', 'l'] rest
    | c :: rest =>
      if c == '-' || c.isDigit then
        (readNumeral (c :: rest)).map fun (s, rest) => (.number s, rest)
      else .error (.unexpected c "looking for beginning of value")

/-- The fields of an object after those read so far, and the rest. -/
def readFields (fuel : Nat) (fields : List (String × Json)) (cs : List Char) :
    Except JsonError (Json × List Char) :=
  match fuel with
  | 0 => .error .ended
  | fuel + 1 => do
    let rest ← match cs.dropWhile isSpace with
      | '"' :: rest => pure rest
      | rest => throw (failAt "looking for beginning of object key string" rest)
    let (key, rest) ← readString rest
    let rest ← match rest.dropWhile isSpace with
      | ':' :: rest => pure rest
      | rest => throw (failAt "after object key" rest)
    let (value, rest) ← readValue fuel rest
    let fields := fields ++ [(key, value)]
    match rest.dropWhile isSpace with
    | ',' :: rest => readFields fuel fields rest
    | '\x7d' :: rest => return (.object fields, rest)
    | rest => throw (failAt "after object key:value pair" rest)

/-- The items of an array after those read so far, and the rest. -/
def readItems (fuel : Nat) (items : List Json) (cs : List Char) :
    Except JsonError (Json × List Char) :=
  match fuel with
  | 0 => .error .ended
  | fuel + 1 => do
    let (value, rest) ← readValue fuel cs
    let items := items ++ [value]
    match rest.dropWhile isSpace with
    | ',' :: rest => readItems fuel items rest
    | ']' :: rest => return (.array items, rest)
    | rest => throw (failAt "after array element" rest)

end

/-- The value that a text is. -/
def parse (text : String) : Except JsonError Json := do
  let (value, rest) ← readValue (2 * text.length + 2) text.toList
  match rest.dropWhile isSpace with
  | [] => return value
  | rest => throw (failAt "after top-level value" rest)

end Json

end StackCode
