import StackCode.Text.Quoted
import StackCode.Decimal.Reading
import StackCode.Command.Record

/-!
# Command line flags

Flags stand anywhere among the arguments, up to an argument `--`. A long flag is written
`--name value` or `--name=value`, a short one `-n value`, `-nvalue` or `-n=value`; a switch has a
value only after an equals sign, and short switches may stand together. Values are checked when
they are met, so the first mistake in the order of the arguments is the one reported.
-/

namespace StackCode

/-- What a flag holds. -/
inductive FlagKind where
  /-- A text. -/
  | text
  /-- A truth value, true if the flag is given without one. -/
  | switch
  /-- Texts, given as comma-separated records that add up. -/
  | list
  deriving DecidableEq, Repr

/-- A flag of a command. -/
structure Flag where
  name : String
  short : Option Char := none
  kind : FlagKind := .text
  deriving DecidableEq, Repr

/-- Why arguments are not read. -/
inductive FlagError where
  | badForm (argument : String)
  | unknown (name : String)
  /-- An unknown short flag, with the first byte of its character and the rest of its group. -/
  | unknownShort (byte : Nat) (group : String)
  | valueMissing (argument : String)
  | shortValueMissing (short : Char) (group : String)
  | badValue (flag : Flag) (value reason : String)

/-- The names of a flag as errors show them. -/
def Flag.title (f : Flag) : String :=
  match f.short with
  | some c => "-" ++ String.singleton c ++ ", --" ++ f.name
  | none => "--" ++ f.name

/-- The text of a flag error. -/
def FlagError.message : FlagError → String
  | .badForm argument => "bad flag syntax: " ++ argument
  | .unknown name => "unknown flag: --" ++ name
  | .unknownShort byte group =>
    "unknown shorthand flag: " ++ quoteSingle (Char.ofNat byte) ++ " in -" ++ group
  | .valueMissing argument => "flag needs an argument: " ++ argument
  | .shortValueMissing short group =>
    "flag needs an argument: " ++ quoteSingle short ++ " in -" ++ group
  | .badValue flag value reason =>
    "invalid argument " ++ quote value ++ " for " ++ quote flag.title ++ " flag: " ++ reason

/-- The values given to flags, in order, and the other arguments. -/
structure Arguments where
  given : List (String × String) := []
  words : List String := []

/-- Checks a value for a flag. -/
def Flag.check (f : Flag) (value : String) : Except FlagError Unit :=
  match f.kind with
  | .text => .ok ()
  | .switch =>
    match readTruth value with
    | .ok _ => .ok ()
    | .error e => .error (.badValue f value e.message)
  | .list =>
    if value = "" then .ok ()
    else match readRecord value with
      | .ok _ => .ok ()
      | .error e => .error (.badValue f value e.message)

/-- Adds a checked value. -/
def Arguments.give (a : Arguments) (f : Flag) (value : String) : Except FlagError Arguments :=
  (f.check value).map fun _ => { a with given := a.given ++ [(f.name, value)] }

/-- Reads a group of short flags. Gives back the flag whose value is the next argument, with the
part of the group that ends with it. -/
def readShortGroup (flags : List Flag) (a : Arguments) :
    List Char → Except FlagError (Arguments × Option (Flag × Char))
  | [] => .ok (a, none)
  | c :: rest =>
    if "test.".toList.isPrefixOf (c :: rest) then .ok (a, none)
    else match flags.find? fun f => f.short == some c with
      | none =>
        let group := String.ofList (c :: rest)
        .error (.unknownShort ((group.toUTF8.data[0]?.map UInt8.toNat).getD 0) group)
      | some f =>
        match rest with
        | '=' :: v :: value => (a.give f (String.ofList (v :: value))).map fun a => (a, none)
        | _ =>
          if f.kind == .switch then
            match a.give f "true" with
            | .error e => .error e
            | .ok a => readShortGroup flags a rest
          else if rest.isEmpty then .ok (a, some (f, c))
          else (a.give f (String.ofList rest)).map fun a => (a, none)

/-- The name in a long flag, and the value after an equals sign. -/
def cutLongFlag (cs : List Char) : String × Option String :=
  match cs.span (· != '=') with
  | (name, _ :: value) => (String.ofList name, some (String.ofList value))
  | (name, []) => (String.ofList name, none)

/-- Reads arguments for a command with the given flags. -/
def readArguments (flags : List Flag) (a : Arguments) :
    List String → Except FlagError Arguments
  | [] => .ok a
  | s :: rest =>
    match s.toList with
    | '-' :: '-' :: [] => .ok { a with words := a.words ++ rest }
    | '-' :: '-' :: body =>
      if body.head? == some '-' || body.head? == some '=' then .error (.badForm s)
      else
        let (name, value) := cutLongFlag body
        match flags.find? fun f => f.name == name with
        | none => .error (.unknown name)
        | some f =>
          match value, f.kind == .switch with
          | some v, _ =>
            match a.give f v with
            | .error e => .error e
            | .ok a => readArguments flags a rest
          | none, true =>
            match a.give f "true" with
            | .error e => .error e
            | .ok a => readArguments flags a rest
          | none, false =>
            match rest with
            | [] => .error (.valueMissing s)
            | v :: rest =>
              match a.give f v with
              | .error e => .error e
              | .ok a => readArguments flags a rest
    | '-' :: c :: group =>
      match readShortGroup flags a (c :: group) with
      | .error e => .error e
      | .ok (a, none) => readArguments flags a rest
      | .ok (a, some (f, short)) =>
        match rest with
        | [] => .error (.shortValueMissing short (String.singleton short))
        | v :: rest =>
          match a.give f v with
          | .error e => .error e
          | .ok a => readArguments flags a rest
    | _ => readArguments flags { a with words := a.words ++ [s] } rest

namespace Arguments

/-- Whether a flag is given. -/
def has (a : Arguments) (name : String) : Bool := a.given.any (·.1 == name)

/-- The last value given to a flag. -/
def last? (a : Arguments) (name : String) : Option String := a.given.reverse.lookup name

/-- The fields of all records given to a flag. -/
def fields (a : Arguments) (name : String) : List String :=
  (a.given.filter (·.1 == name)).flatMap fun (_, value) =>
    if value = "" then []
    else match readRecord value with
      | .ok fields => fields
      | .error _ => []

end Arguments

/-- Whether an argument is a flag whose value is the next argument, as far as the command line
without its command can tell. -/
def expectsValue (flags : List Flag) (s : String) : Bool :=
  let switch (p : Flag → Bool) : Bool := flags.any fun f => p f && f.kind == .switch
  !s.toList.contains '=' && match s.toList with
    | ['-', c] => c.utf8Size == 1 && !switch (·.short == some c)
    | '-' :: '-' :: name => !switch (·.name == String.ofList name)
    | _ => false

/-- The arguments that are neither flags nor their values, up to `--`. -/
def commandWords (flags : List Flag) : List String → List String
  | [] => []
  | s :: rest =>
    if s == "--" then []
    else if expectsValue flags s then
      match rest with
      | _ :: next :: rest => commandWords flags (next :: rest)
      | _ => []
    else if s == "" || s.toList.head? == some '-' then commandWords flags rest
    else s :: commandWords flags rest

/-- Removes the first argument that is the word `word` and not the value of a flag. -/
def removeWord (flags : List Flag) (word : String) : List String → List String
  | [] => []
  | s :: rest =>
    if s == "--" then s :: rest
    else if expectsValue flags s then
      match rest with
      | v :: rest => s :: v :: removeWord flags word rest
      | [] => [s]
    else if s == word && s.toList.head? != some '-' then rest
    else s :: removeWord flags word rest

end StackCode
