import StackCode.Command.Flags
import StackCode.Command.Settings.Scalar

/-!
# Settings

A setting comes from the command line, else from the environment, else from a settings file.
-/

namespace StackCode

/-- Where settings come from. -/
structure Settings where
  arguments : Arguments := {}
  environment : List (String × String) := []
  file : List (String × Scalar) := []

namespace Settings

/-- The environment variable for a setting. -/
def variableName (name : String) : String :=
  String.ofList ("NUMEXPR_".toList ++ name.toList.map fun c => if c == '-' then '_' else c.toUpper)

/-- The value of a setting outside the command line; empty environment variables do not count. -/
def stored? (s : Settings) (name : String) : Option Scalar :=
  match s.environment.lookup (variableName name) with
  | some (value : String) => if value = "" then fromFile else some (.text value)
  | none => fromFile
where
  /-- The value in the settings file. -/
  fromFile : Option Scalar :=
    match s.file.lookup name with
    | some .null => none
    | other => other

/-- A setting that is a text. -/
def text (s : Settings) (name default : String) : String :=
  match s.arguments.last? name with
  | some value => value
  | none => ((s.stored? name).map Scalar.asText).getD default

/-- A setting that is a truth value, false if it is not given. -/
def truth (s : Settings) (name : String) : Bool :=
  match s.arguments.last? name with
  | some value => (Scalar.text value).asTruth
  | none => ((s.stored? name).map Scalar.asTruth).getD false

/-- A setting that is a list of texts. -/
def list (s : Settings) (name : String) : List String :=
  if s.arguments.has name then storedFields (s.arguments.fields name)
  else ((s.stored? name).map Scalar.asList).getD []

end Settings

end StackCode
