import StackCode.Text.Quoted
import StackCode.Text.Styled

/-!
# JSON texts

JSON values and two ways to write them: indented by two spaces, and indented with sorted keys and
colours. Numbers are kept as their texts. In the first way the characters `<`, `>` and `&` are
escaped, in both the two line separators beyond ASCII.
-/

namespace StackCode

/-- A JSON value; a number is kept as its text. -/
inductive Json where
  | null
  | truth (b : Bool)
  | number (text : String)
  | string (text : String)
  | array (items : List Json)
  | object (fields : List (String × Json))

namespace Json

/-- A whole number. -/
def ofInt (i : Int) : Json := .number (toString i)

/-- A character inside a JSON string. -/
def escapeChar (markup : Bool) (c : Char) : List Char :=
  match c.toNat with
  | 0x22 => ['\\', '"']
  | 0x5C => ['\\', '\\']
  | 0x08 => ['\\', 'b']
  | 0x0C => ['\\', 'f']
  | 0x0A => ['\\', 'n']
  | 0x0D => ['\\', 'r']
  | 0x09 => ['\\', 't']
  | n =>
    if n < 0x20 || n == 0x2028 || n == 0x2029 ||
        (markup && (c == '<' || c == '>' || c == '&')) then
      '\\' :: 'u' :: hexDigits 4 n
    else [c]

/-- A JSON string; `markup` if the characters of markup are escaped. -/
def quoted (markup : Bool) (s : String) : String :=
  String.ofList ('"' :: s.toList.flatMap (escapeChar markup) ++ ['"'])

/-- A line break and the indentation of the given depth. -/
def newline (depth : Nat) : String := "\n" ++ String.join (List.replicate depth "  ")

/-- Items between two brackets, each on its own line; nothing between them if there are none. -/
def block (first last : String) (depth : Nat) (items : List String) : String :=
  if items.isEmpty then first ++ last
  else first ++ newline (depth + 1) ++
    String.intercalate ("," ++ newline (depth + 1)) items ++ newline depth ++ last

mutual

/-- Writes a value at the given depth, with fields in their order. -/
def indented (depth : Nat) : Json → String
  | .null => "null"
  | .truth b => if b then "true" else "false"
  | .number text => text
  | .string text => quoted true text
  | .array items => block "[" "]" depth (indentedItems (depth + 1) items)
  | .object fields => block "\x7b" "\x7d" depth (indentedFields (depth + 1) fields)

/-- Writes the items of an array. -/
def indentedItems (depth : Nat) : List Json → List String
  | [] => []
  | j :: rest => indented depth j :: indentedItems depth rest

/-- Writes the fields of an object. -/
def indentedFields (depth : Nat) : List (String × Json) → List String
  | [] => []
  | (key, j) :: rest =>
    (quoted true key ++ ": " ++ indented depth j) :: indentedFields depth rest

end

/-- Inserts a keyed text into a list sorted by key. -/
def insertByKey (key text : String) : List (String × String) → List (String × String)
  | [] => [(key, text)]
  | (k, t) :: rest =>
    if key < k then (key, text) :: (k, t) :: rest else (k, t) :: insertByKey key text rest

mutual

/-- Writes a value at the given depth in colours, with fields sorted by key. -/
def colored (depth : Nat) : Json → String
  | .null => Style.boldBlack.apply true "null"
  | .truth b => Style.boldYellow.apply true (if b then "true" else "false")
  | .number text => Style.boldCyan.apply true text
  | .string text => Style.boldGreen.apply true (quoted false text)
  | .array items => block "[" "]" depth (coloredItems (depth + 1) items)
  | .object fields =>
    block "\x7b" "\x7d" depth ((coloredFields (depth + 1) fields).map Prod.snd)

/-- Writes the items of an array in colours. -/
def coloredItems (depth : Nat) : List Json → List String
  | [] => []
  | j :: rest => colored depth j :: coloredItems depth rest

/-- Writes the fields of an object in colours, sorted by key. -/
def coloredFields (depth : Nat) : List (String × Json) → List (String × String)
  | [] => []
  | (key, j) :: rest =>
    insertByKey key (Style.boldBlue.apply true ("\"" ++ key ++ "\"") ++ ": " ++ colored depth j)
      (coloredFields depth rest)

end

/-- Writes a value, in colours or not. -/
def render (colors : Bool) (j : Json) : String := if colors then colored 0 j else indented 0 j

end Json

end StackCode
