import StackCode.Command.Settings
import StackCode.Command.Settings.File
import StackCode.Postfix
import StackCode.Postfix.Bindings
import StackCode.Report

/-!
# The command line

Two commands: `compile` assembles a postfix expression and prints the program, `version` prints
the version. Everything outside is handed in: the environment, the files, the identifier that the
program gets, the text that stands for the time in log lines, and the terminal.
-/

namespace StackCode

/-- What a run of the command line sees of the outside. -/
structure Surroundings where
  /-- The directory with the default settings file. -/
  home : String
  environment : List (String × String)
  /-- The contents of files. -/
  contents : String → Except FileError String
  /-- The identifier of the program. -/
  programId : String
  /-- The time in front of log lines. -/
  clock : String
  /-- The terminal that tables are laid out for. -/
  terminal : Terminal
  draws : Nat → Float

/-- What a run of the command line leaves. -/
structure Outcome where
  stdout : String := ""
  stderr : String := ""
  /-- The failure, empty if there is none. -/
  failure : Failure := []

/-- The flags of every command. -/
def commonFlags : List Flag :=
  [ { name := "config" }, { name := "no-color", kind := .switch },
    { name := "verbose", short := some 'v', kind := .switch },
    { name := "output", short := some 'o' } ]

/-- The flags of the command `compile`. -/
def compileFlags : List Flag :=
  commonFlags ++
    [ { name := "delimiter", short := some 'd' }, { name := "var", kind := .list },
      { name := "no-optimizer", kind := .switch }, { name := "constant-folding", kind := .switch },
      { name := "linear-folding", kind := .switch } ]

/-- The settings file that the arguments name. -/
def Arguments.settingsPath? (a : Arguments) : Option String :=
  match a.last? "config" with
  | some "" => none
  | path => path

/-- The paths at which a settings file is looked for. -/
def Arguments.settingsPaths (a : Arguments) (home : String) : List String :=
  match a.settingsPath? with
  | some path => [path]
  | none => defaultSettingsPaths home

/-- The settings in the file: a named file has to exist, the default one may be missing. -/
def settingsFile (s : Surroundings) (arguments : Arguments) :
    Except Failure (List (String × Scalar)) :=
  let environment (name : String) : Option String := s.environment.lookup name
  let settings := match arguments.settingsPath? with
    | some path => namedSettings environment s.contents path
    | none => defaultSettings environment s.contents (defaultSettingsPaths s.home)
  match settings with
  | .ok settings => .ok settings
  | .error e => .error e.failure

/-- A value in a log line, quoted if it could be misread. -/
def logValue (s : String) : String :=
  if s.toList.all fun c => 0x20 < c.toNat && c.toNat ≤ 0x7E && c != '\\' && c != '"' then s
  else quote s

/-- Inserts a field among fields sorted by key. -/
def insertField (f : LogField) : List LogField → List LogField
  | [] => [f]
  | g :: rest => if f.key < g.key then f :: g :: rest else g :: insertField f rest

/-- A log line about a program. -/
def logLine (s : Surroundings) (message : String) (fields : List LogField) : String :=
  s.clock ++ " DBG " ++ message ++
    String.join ((insertField ⟨"program", s.programId⟩ fields).map fun f =>
      " " ++ f.key ++ "=" ++ logValue f.value) ++ "\n"

/-- The log lines of events. -/
def logEvents (s : Surroundings) (events : List (Event Float)) : String :=
  String.join (events.map fun e => logLine s e.message e.fields)

/-- The settings of a program from the command line. -/
def Settings.config (s : Settings) : Config :=
  { optimizer := !s.truth "no-optimizer"
    constantFolding := s.truth "constant-folding"
    linearFolding := s.truth "linear-folding" }

/-- The single character of a delimiter. -/
def readDelimiter (text : String) : Except Failure Char :=
  match text.toList with
  | [c] => .ok c
  | _ => .error [.plain ("delimiter must be a single character, got " ++ quote text)]

/-- An assembler for machine numbers with the given delimiter, variables and settings. -/
def machineAssembler (delimiter : Char) (names : List String) (config : Config)
    (draws : Nat → Float) : Except SyntaxError (Assembler Float) := do
  let number (s : String) : Option Float :=
    match readNumber s with
    | .ok x => some x
    | .error _ => none
  let a ← Assembler.withDelimiter { number, draws, config } delimiter
  a.withVariables (names.map fun name => (name, some name))

/-- Assembles the expression `source` and prints the program. -/
def runCompile (s : Surroundings) (settings : Settings) (source : String) : Outcome :=
  let prepared : Except Failure (Assembler Float) := do
    let delimiter ← readDelimiter (settings.text "delimiter" ",")
    let bindings ← readBindings (settings.list "var")
    match machineAssembler delimiter (bindings.map Prod.fst) settings.config s.draws with
    | .ok a => .ok a
    | .error e => .error e.failure
  match prepared with
  | .error failure => { failure }
  | .ok a =>
    let assembly := a.assemble source
    let log (text : String) : String := if settings.truth "verbose" then text else ""
    let events := log (logEvents s assembly.events)
    match assembly.result with
    | .error e => { stderr := events, failure := e.failure }
    | .ok p =>
      let checked := p.verify.failure
      if !checked.isEmpty then { stderr := events, failure := checked }
      else
        let stderr := events ++ log (logLine s "assembled" [⟨"size", toString p.size⟩])
        match p.report s.terminal s.programId false (settings.text "output" "text") with
        | .ok stdout => { stdout, stderr }
        | .error failure => { stderr, failure }

/-- Prints the version. -/
def runVersion (settings : Settings) : Outcome :=
  match String.ofList ((settings.text "output" "text").toList.map Char.toLower) with
  | "json" =>
    let facts := Json.object
      [("commit", .string "unknown"), ("date", .string "unknown"), ("version", .string "dev")]
    { stdout := facts.render false ++ "\n" }
  | _ => { stdout := "numexpr dev (commit unknown, built unknown)\n" }

/-- What the command line asks for. -/
inductive Command where
  /-- Assemble an expression. -/
  | compile (source : String)
  /-- Print the version. -/
  | version
  /-- Nothing, because no command is named. -/
  | nothing

/-- A command with its arguments. -/
structure Request where
  command : Command
  arguments : Arguments

/-- Reads the arguments of a command with the given flags. -/
def readFlags (flags : List Flag) (args : List String) : Except Failure Arguments :=
  match readArguments flags {} args with
  | .ok arguments => .ok arguments
  | .error e => .error [.plain e.message]

/-- Finds the command and reads its arguments. -/
def readRequest (args : List String) : Except Failure Request :=
  match commandWords commonFlags args with
  | [] => do return ⟨.nothing, ← readFlags commonFlags args⟩
  | "compile" :: _ => do
    let arguments ← readFlags compileFlags (removeWord commonFlags "compile" args)
    match arguments.words with
    | [source] => return ⟨.compile source, arguments⟩
    | words => .error [.plain s!"accepts 1 arg(s), received {words.length}"]
  | "version" :: _ => do
    let arguments ← readFlags commonFlags (removeWord commonFlags "version" args)
    match arguments.words with
    | [] => return ⟨.version, arguments⟩
    | word :: _ =>
      .error [.plain ("unknown command " ++ quote word ++ " for \"numexpr version\"")]
  | word :: _ => .error [.plain ("unknown command " ++ quote word ++ " for \"numexpr\"")]

/-- Runs a command with the settings that its arguments and the surroundings give. -/
def withSettings (s : Surroundings) (arguments : Arguments) (run : Settings → Outcome) : Outcome :=
  match settingsFile s arguments with
  | .error failure => { failure }
  | .ok file => run { arguments, environment := s.environment, file }

/-- Carries out a request. -/
def Request.run (r : Request) (s : Surroundings) : Outcome :=
  match r.command with
  | .compile source => withSettings s r.arguments fun settings => runCompile s settings source
  | .version => withSettings s r.arguments runVersion
  | .nothing => {}

/-- Runs the command line. -/
def runCommandLine (s : Surroundings) (args : List String) : Outcome :=
  match readRequest args with
  | .ok request => request.run s
  | .error failure => { failure }

end StackCode
