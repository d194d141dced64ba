import StackCode.Text.Blank
import StackCode.Decimal.Layout
import StackCode.Command.Settings.Timestamp

/-!
# Values of settings

A value in a settings file is nothing, a truth value, a number, a point in time or a text. A word
without quotes is read as the first of these that it can be. Each value can be taken as a text, as a
truth value or as a list of texts, whatever its kind.
-/

namespace StackCode

/-- A value in a settings file. -/
inductive Scalar where
  | null
  | truth (b : Bool)
  | whole (i : Int)
  | decimal (x : Float)
  | time (t : Timestamp)
  | text (s : String)

/-- The words of a text between blanks. -/
def wordsOf (cs : List Char) : List String :=
  let (word, words) := cs.foldr
    (fun c (word, words) =>
      if isBlank c then ([], if word.isEmpty then words else String.ofList word :: words)
      else (c :: word, words))
    (([], []) : List Char × List String)
  if word.isEmpty then words else String.ofList word :: words

namespace Scalar

/-- A value as a text. -/
def asText : Scalar → String
  | .null => ""
  | .truth b => if b then "true" else "false"
  | .whole i => toString i
  | .decimal x => numberText .positional x
  | .time t => t.text
  | .text s => s

/-- A value as a truth value; a text that is none and a point in time count as false. -/
def asTruth : Scalar → Bool
  | .null => false
  | .truth b => b
  | .whole i => i != 0
  | .decimal x => x != 0
  | .time _ => false
  | .text s => match readTruth s with
    | .ok b => b
    | .error _ => false

/-- A value as a list of texts; a text is split at blanks. -/
def asList : Scalar → List String
  | .null => []
  | .text s => wordsOf s.toList
  | v => [v.asText]

end Scalar

/-- The number that digits of a base stand for. -/
def numberInBase? (base : Nat) (cs : List Char) : Option Nat :=
  cs.foldlM (fun n c => do
    let v ← digitValue? true c
    if v < base then some (base * n + v) else none) 0

/-- The number that digits stand for, in the base that their start tells: a zero alone in front
means octal. -/
def basedNumber? (cs : List Char) : Option Nat :=
  match cs with
  | [] => none
  | '0' :: rest =>
    match rest with
    | mark :: d :: ds =>
      match mark.toLower with
      | 'b' => numberInBase? 2 (d :: ds)
      | 'o' => numberInBase? 8 (d :: ds)
      | 'x' => numberInBase? 16 (d :: ds)
      | _ => numberInBase? 8 rest
    | _ => numberInBase? 8 rest
  | _ => numberInBase? 10 cs

/-- The whole number that a word without underscores stands for. With a sign it has to be a signed
64-bit number, without one it may be an unsigned one. -/
def wholeWord? (cs : List Char) : Option Int :=
  match cs with
  | '-' :: ds => (basedNumber? ds).bind fun n => if n ≤ 0x8000000000000000 then some (-n) else none
  | '+' :: ds => (basedNumber? ds).bind fun n => if n < 0x8000000000000000 then some n else none
  | ds => (basedNumber? ds).bind fun n => if n < 0x10000000000000000 then some n else none

/-- The whole number of a word with its sign after the mark of its base. -/
def innerSignWord? (cs : List Char) : Option Int :=
  let signed (base : Nat) (cs : List Char) : Option Int :=
    let (negative, ds) := takeSign cs
    if ds.isEmpty then none
    else (numberInBase? base ds).bind fun n =>
      let i : Int := if negative then -n else n
      if fits64 i then some i else none
  match cs with
  | '0' :: 'b' :: rest => signed 2 rest
  | '0' :: 'o' :: rest => signed 8 rest
  | _ => none

/-- The number that a numeral stands for. -/
def numeralWord? (cs : List Char) : Option Float :=
  match readNumber (String.ofList cs) with
  | .ok x => some x
  | .error _ => none

/-- The number that a word of digits, sign, point and exponent stands for. -/
def decimalWord? (cs : List Char) : Option Float :=
  if cs.all fun c => c.isDigit || ['+', '-', '.', 'e', 'E'].contains c then numeralWord? cs else none

/-- The value of a word that starts with a digit or a sign. Underscores count in points in time
only. -/
def numberScalar? (cs : List Char) : Option Scalar :=
  let plain := cs.filter (· != '_')
  ((Timestamp.ofChars? cs).map .time).or <| ((wholeWord? plain).map .whole).or <|
    ((decimalWord? plain).map .decimal).or <| (innerSignWord? plain).map .whole

/-- The words that stand for a value of their own. -/
def namedScalars : List (String × Scalar) :=
  let all (words : List String) (v : Scalar) : List (String × Scalar) := words.map fun w => (w, v)
  let infinity (negative : Bool) : Scalar :=
    let sign := if negative then 0x8000000000000000 else 0
    .decimal (Float.ofBits (UInt64.ofNat (sign + overflowBits)))
  all ["", "~", "null", "Null", "NULL"] .null ++
    all ["true", "True", "TRUE"] (.truth true) ++
    all ["false", "False", "FALSE"] (.truth false) ++
    all [".nan", ".NaN", ".NAN"] (.decimal (Float.ofBits 0x7FF8000000000001)) ++
    all [".inf", ".Inf", ".INF", "+.inf", "+.Inf", "+.INF"] (infinity false) ++
    all ["-.inf", "-.Inf", "-.INF"] (infinity true)

/-- The value that a word stands for. -/
def wordScalar (cs : List Char) : Scalar :=
  let s := String.ofList cs
  match namedScalars.lookup s with
  | some v => v
  | none =>
    let number? : Option Scalar := match cs with
      | '.' :: _ => (numeralWord? cs).map .decimal
      | c :: _ => if c.isDigit || c == '+' || c == '-' then numberScalar? cs else none
      | [] => none
    number?.getD (.text s)

end StackCode
