import StackCode.Text.Printable

/-!
# Quoted texts

A quoted text stands between quotation marks. Printable characters stand for themselves, seven
controls have a letter, and the others are written in hexadecimal with the fewest of two, four or
eight digits that their range needs.
-/

namespace StackCode

/-- The lowercase hexadecimal digits of `n`, with zeros in front up to `width`. -/
def hexDigits (width n : Nat) : List Char :=
  let digits := Nat.toDigits 16 n
  List.replicate (width - digits.length) '0' ++ digits

/-- A character inside a text quoted with the mark `mark`. -/
def quoteChar (mark c : Char) : List Char :=
  if c == mark || c == '\\' then ['\\', c]
  else if isPrintable c then [c]
  else match c.toNat with
    | 0x07 => ['\\', 'a']
    | 0x08 => ['\\', 'b']
    | 0x0C => ['\\', 'f']
    | 0x0A => ['\\', 'n']
    | 0x0D => ['\\', 'r']
    | 0x09 => ['\\', 't']
    | 0x0B => ['\\', 'v']
    | n =>
      if n < 0x20 || n == 0x7F then '\\' :: 'x' :: hexDigits 2 n
      else if n < 0x10000 then '\\' :: 'u' :: hexDigits 4 n
      else '\\' :: 'U' :: hexDigits 8 n

/-- Characters between quotation marks. -/
def quoteWith (mark : Char) (cs : List Char) : String :=
  String.ofList (mark :: cs.flatMap (quoteChar mark) ++ [mark])

/-- A text in double quotes. -/
def quote (s : String) : String := quoteWith '"' s.toList

/-- A character in single quotes. -/
def quoteSingle (c : Char) : String := quoteWith '\x27' [c]

end StackCode
