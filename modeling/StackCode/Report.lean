import StackCode.Failure
import StackCode.Json
import StackCode.Listing
import StackCode.Program.Stats
import StackCode.Program.Verify
import StackCode.Instruction.Text

/-!
# Reports about programs

What a program looks like from outside: the text of a check's findings, the fields of a log event,
and the three output formats, which are the dump, the table and a JSON report.
-/

namespace StackCode

/-- The failure that a misuse amounts to. -/
def Misuse.failure (m : Misuse) : Failure := [.internal m.code, .plain m.detail]

/-- The text of a finding. -/
def Finding.message : Finding Float → String
  | .notFinalized => "program is not finalized"
  | .unstoredOperator index name => s!"instruction {index}: operator {name} was not retagged"
  | .missingOperands index name arity depth =>
    s!"instruction {index}: {name} needs {arity} operands, stack has {depth}"
  | .shortAssignment index name depth =>
    s!"instruction {index}: assignment to {name} needs 2 operands, stack has {depth}"
  | .earlyEnd index => s!"instruction {index}: END before the end of the program"
  | .wrongPosition index i depth =>
    s!"instruction {index} ({i.text}): recorded stack position {i.stackPos}, simulated {depth}"
  | .lowHighWater highWater depth =>
    s!"max stack size {highWater} is below the simulated depth {depth}"

/-- A list of findings as one text. -/
def findingsText (findings : List String) : String :=
  let head := match findings.length with
    | 1 => "1 error occurred:"
    | n => s!"{n} errors occurred:"
  head ++ String.join (findings.map fun f => "\n\t* " ++ f) ++ "\n\n"

/-- The failure that a check amounts to, empty if it found nothing. -/
def Verification.failure (v : Verification Float) : Failure :=
  if v.findings.isEmpty then []
  else [.internal "E4006", .plain (findingsText (v.findings.map Finding.message))]

/-- A field of a log event. -/
structure LogField where
  key : String
  value : String

/-- The message of a log event. -/
def Event.message {α : Type} : Event α → String
  | .foldedConstant .. => "folded constant call"
  | .foldedSum .. => "folded linear values"
  | .foldedProduct .. => "folded linear product"
  | .replacedPower .. => "replaced power call"
  | .fusedOperators .. => "fused operators"
  | .fusedPower .. => "fused power"
  | .finalized .. => "finalized program"

/-- The fields of a log event, sorted by key. -/
def Event.fields : Event Float → List LogField
  | .foldedConstant call result =>
    [⟨"call", call⟩, ⟨"result", numberText .positional result⟩]
  | .foldedSum call value => [⟨"call", call⟩, ⟨"value", value.text⟩]
  | .foldedProduct value => [⟨"value", value.text⟩]
  | .replacedPower exponent => [⟨"exponent", toString exponent⟩]
  | .fusedOperators outer inner stackPos =>
    [⟨"inner", inner⟩, ⟨"outer", outer⟩, ⟨"stack_pos", toString stackPos⟩]
  | .fusedPower outer power stackPos =>
    [⟨"outer", outer⟩, ⟨"power", power⟩, ⟨"stack_pos", toString stackPos⟩]
  | .finalized size maxStackSize engineId =>
    [⟨"engine_id", toString engineId⟩, ⟨"max_stack_size", toString (wrap64 maxStackSize)⟩,
      ⟨"size", toString size⟩]

/-- The JSON form of statistics. -/
def Stats.json (s : Stats) : Json :=
  .object
    [ ("instruction_count", .ofInt s.instructionCount),
      ("value_count", .ofInt s.valueCount),
      ("variable_count", .ofInt s.variableCount),
      ("call_count", .ofInt s.callCount),
      ("fused_count", .ofInt s.fusedCount),
      ("assign_count", .ofInt s.assignCount),
      ("max_stack_size", .ofInt (wrap64 s.maxStackSize)) ]

/-- The JSON form of a number; infinities and what is not a number have none. -/
def numberJson (x : Float) : Except Failure Json :=
  if x.isFinite then .ok (.number (numberText .report x))
  else .error [.plain ("json: unsupported value: " ++ general x)]

/-- The field of a number, unless it is left out. -/
def numberField (key : String) (omitted : Bool) (x : Float) :
    Except Failure (List (String × Json)) :=
  if omitted then .ok [] else (numberJson x).map fun number => [(key, number)]

/-- The JSON form of a row. Empty texts and zeros are left out; a value always has a constant. -/
def Row.json (r : Row Float) : Except Failure Json := do
  let coef ← numberField "coef" (r.coef == 0) r.coef
  let constant ← numberField "constant" (r.address == .unused) r.constant
  return .object <|
    [("offset", .ofInt r.offset), ("stack_pos", .ofInt r.stackPos), ("kind", .string r.name)] ++
    (if r.ident == "" then [] else [("ident", .string r.ident)]) ++
    (if r.address == .unused then [] else [("addr", .string r.address.name)]) ++
    coef ++ constant ++
    (if r.args == 0 then [] else [("args", .ofInt r.args)])

/-- The JSON report of a program known as `id`. -/
def Program.json (p : Program Float) (id : String) (rows : List (Row Float)) :
    Except Failure Json := do
  let instructions ← rows.mapM Row.json
  return .object
    [ ("id", .string id),
      ("size", .ofInt p.size),
      ("max_stack_size", .ofInt (wrap64 p.maxStackSize)),
      ("engine_id", .ofInt p.engineId),
      ("engine_bits", .string (engineBits p.engineId p.size)),
      ("stats", p.stats.json),
      ("instructions", if instructions.isEmpty then .null else .array instructions) ]

/-- The rows of a program, or the failure of listing it. -/
def Program.rowsOrFailure (p : Program Float) : Except Failure (List (Row Float)) :=
  match p.rows with
  | .ok rows => .ok rows
  | .error m => .error m.failure

/-- A program known as `id` in an output format, whose name is read in any case. Tables are laid out
for the terminal. -/
def Program.report (p : Program Float) (terminal : Terminal) (id : String) (colors : Bool)
    (format : String) : Except Failure String :=
  match String.ofList (format.toList.map Char.toLower) with
  | "" => .ok p.dump
  | "text" => .ok p.dump
  | "table" => return (listingTable colors (← p.rowsOrFailure)).render terminal
  | "json" => do
    let rows ← p.rowsOrFailure
    return (← p.json id rows).render colors ++ "\n"
  | _ => .error [.plain ("unknown output format: " ++ format)]

end StackCode
