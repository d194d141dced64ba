import StackCode.Failure
import StackCode.Command.Folder
import StackCode.Command.Settings.Yaml
import StackCode.Command.Settings.Dotenv
import StackCode.Command.Settings.Toml

/-!
# Settings files

A settings file can be named, and its ending then tells how it is written. Otherwise the first file
with a default name counts, if there is one. Keys are read in any case.
-/

namespace StackCode

/-- The file endings of settings files that can be named. -/
def settingsEndings : List String :=
  [ "json", "toml", "yaml", "yml", "properties", "props", "prop", "hcl", "tfvars", "dotenv", "env",
    "ini" ]

/-- The ending of a file name, without its point. -/
def endingOf (path : String) : String :=
  let reversed := path.toList.reverse
  match reversed.span fun c => c != '.' && c != '/' with
  | (ending, '.' :: _) => String.ofList ending.reverse
  | _ => ""

/-- The default paths of settings files, the first one that exists counts. -/
def defaultSettingsPaths (home : String) : List String :=
  let path := home ++ "/.numexpr"
  path :: settingsEndings.map fun ending => path ++ "." ++ ending

/-- Why there are no settings from a file. -/
inductive SettingsFileError where
  | unknownEnding (ending : String)
  | unreadable (path : String) (reason : FileError)
  /-- The text of the file is not written as its ending tells. -/
  | malformed (reason : String)

/-- The text of an error about a settings file. -/
def SettingsFileError.message : SettingsFileError → String
  | .unknownEnding ending => "Unsupported Config Type " ++ quote ending
  | .unreadable path reason => reason.message path
  | .malformed reason => "While parsing config: " ++ reason

/-- An error about a settings file as a failure. -/
def SettingsFileError.failure (e : SettingsFileError) : Failure :=
  [.context "reading config", .plain e.message]

/-- The lower case of a character of a key. Two characters beyond ASCII have one in ASCII. -/
def lowerKeyChar (c : Char) : Char :=
  if c == '\u0130' then 'i' else if c == '\u212a' then 'k' else c.toLower

/-- Settings with their keys in lower case. -/
def lowerKeys (settings : List (String × Scalar)) : List (String × Scalar) :=
  settings.map fun (key, value) => (String.ofList (key.toList.map lowerKeyChar), value)

/-- A single JSON value as a setting. -/
def Json.scalar? : Json → Option Scalar
  | .null => some .null
  | .truth b => some (.truth b)
  | .number text => (numeralWord? text.toList).map .decimal
  | .string text => some (.text text)
  | _ => none

/-- What a JSON value is called where an object is expected. -/
def Json.kindName : Json → String
  | .null => "null"
  | .truth _ => "bool"
  | .number _ => "number"
  | .string _ => "string"
  | .array _ => "array"
  | .object _ => "object"

/-- The settings in a JSON text. Of two fields with one key the later one counts. -/
def readJsonSettings (text : String) : Except String (List (String × Scalar)) :=
  match Json.parse text with
  | .error e => .error e.message
  | .ok (.object fields) =>
    .ok (fields.reverse.filterMap fun (key, j) => j.scalar?.map (key, ·))
  | .ok .null => .ok []
  | .ok j =>
    .error ("json: cannot unmarshal " ++ j.kindName ++
      " into Go value of type map[string]interface \x7b\x7d")

/-- The settings in a text that is written as the ending of its file tells. -/
def decodeSettings (environment : String → Option String) (ending text : String) :
    Except String (List (String × Scalar)) :=
  if ["yaml", "yml"].contains ending then readYaml text
  else if ["dotenv", "env"].contains ending then
    match readDotenv environment text with
    | .ok settings => .ok settings
    | .error e => .error e.message
  else if ending = "json" then readJsonSettings text
  else if ending = "toml" then
    match readToml text with
    | .ok settings => .ok settings
    | .error e => .error e.message
  else .error "decoder not found for this format"

/-- The settings in a text with keys in lower case. -/
def readSettings (environment : String → Option String) (ending text : String) :
    Except SettingsFileError (List (String × Scalar)) :=
  match decodeSettings environment ending text with
  | .ok settings => .ok (lowerKeys settings)
  | .error reason => .error (.malformed reason)

/-- The settings in the file at a path that was named. -/
def namedSettings (environment : String → Option String)
    (contents : String → Except FileError String) (path : String) :
    Except SettingsFileError (List (String × Scalar)) :=
  if !settingsEndings.contains (endingOf path) then .error (.unknownEnding (endingOf path))
  else match contents path with
    | .error reason => .error (.unreadable path reason)
    | .ok text => readSettings environment (endingOf path) text

/-- The settings in the first file that can be read, none if there is no such file. Under a default
name every file is written as lines of keys and values. -/
def defaultSettings (environment : String → Option String)
    (contents : String → Except FileError String) :
    List String → Except SettingsFileError (List (String × Scalar))
  | [] => .ok []
  | path :: rest =>
    match contents path with
    | .error _ => defaultSettings environment contents rest
    | .ok text => readSettings environment "yaml" text

end StackCode
