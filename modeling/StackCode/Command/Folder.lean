import StackCode.Text.Pieces

/-!
# Files

Why a file cannot be read, and a folder of files whose contents are known. A path leads into the
folder if it starts with the path of the folder; empty steps and steps to the same place do not
count.
-/

namespace StackCode

/-- Why a file cannot be read. -/
inductive FileError where
  | missing
  /-- A step of the path leads into a file. -/
  | notFolder
  /-- The path leads to a folder. -/
  | isFolder
  /-- The path holds a zero character. -/
  | badName
  /-- A name in the path is longer than 255 bytes. -/
  | longName
  /-- The file may not be read. -/
  | forbidden
  deriving DecidableEq, Repr

/-- The text of the failure to read the file at `path`. A folder can be opened and then not be
read. -/
def FileError.message (path : String) : FileError → String
  | .missing => "open " ++ path ++ ": no such file or directory"
  | .notFolder => "open " ++ path ++ ": not a directory"
  | .isFolder => "read " ++ path ++ ": is a directory"
  | .badName => "open " ++ path ++ ": invalid argument"
  | .longName => "open " ++ path ++ ": file name too long"
  | .forbidden => "open " ++ path ++ ": permission denied"

/-- A folder with the names and texts of its files. -/
structure Folder where
  path : String
  files : List (String × String)

/-- The steps of a path. -/
def pathSteps (path : String) : List String :=
  ((splitAt '/' path.toList).map String.ofList).filter fun step => step != "" && step != "."

namespace Folder

/-- The steps from the folder to a path, if the path leads into it. -/
def stepsTo? (f : Folder) (path : String) : Option (List String) :=
  if "/".toList.isPrefixOf path.toList || f.path.toList.isPrefixOf path.toList then
    (pathSteps f.path).isPrefixOf? (pathSteps path)
  else none

/-- The text of the file at a path. -/
def contents (f : Folder) (path : String) : Except FileError String :=
  if path.toList.contains '\x00' then .error .badName
  else match f.stepsTo? path with
    | none => .error .missing
    | some [] => .error .isFolder
    | some (name :: rest) =>
      if 255 < name.utf8ByteSize then .error .longName
      else match f.files.lookup name with
        | none => .error .missing
        | some text => if rest.isEmpty then .ok text else .error .notFolder

end Folder

end StackCode
