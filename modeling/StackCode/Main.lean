import Std.Time
import StackCode.Command.Identifier
import StackCode.Command.Run
import StackCode.Text.Unicode

/-!
# The program

Collects what a run of the command line sees of the outside, runs it, and prints what it leaves.
-/

namespace StackCode

/-- The environment variables that hold settings. -/
def settingVariables : IO (List (String × String)) :=
  compileFlags.filterMapM fun flag => do
    let name := Settings.variableName flag.name
    return (← IO.getEnv name).map fun value => (name, value)

/-- The text of a file, or why it cannot be read. -/
def fileContents (path : String) : IO (Except FileError String) := do
  try
    return .ok (← IO.FS.readFile path)
  catch
    | .noFileOrDirectory .. => return .error .missing
    | .permissionDenied .. => return .error .forbidden
    | .inappropriateType _ code _ =>
      return .error (if code = 21 then .isFolder else .notFolder)
    | _ => return .error .badName

/-- The surroundings of a run with the given arguments. -/
def surroundings (args : List String) : IO Surroundings := do
  let home := (← IO.getEnv "HOME").getD ""
  let paths := match readRequest args with
    | .ok request => request.arguments.settingsPaths home
    | .error _ => []
  let files ← paths.mapM fun path => return (path, ← fileContents path)
  let bytes := (← IO.getRandomBytes 16).data.toList.map UInt8.toNat
  let drawn ← IO.rand 0 0x1FFFFFFFFFFFFF
  return {
    home
    environment := ← settingVariables
    contents := fun path => (files.lookup path).getD (.error .missing)
    programId := identifierText bytes
    clock := (← Std.Time.PlainTime.now).format "HH:mm:ss"
    terminal := .unicode
    draws := fun _ => Float.ofNat drawn / Float.ofNat 0x20000000000000 }

end StackCode

open StackCode in
/-- Runs the command line; the exit code tells whether it failed. -/
def main (args : List String) : IO UInt32 := do
  let outcome := runCommandLine (← surroundings args) args
  IO.print outcome.stdout
  IO.eprint outcome.stderr
  if outcome.failure.isEmpty then return 0
  IO.eprintln outcome.failure.message
  return 1
