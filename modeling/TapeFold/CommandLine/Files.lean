import TapeFold.Text.Quoted

/-!
# Files

What comes of reading a file: its bytes, or the reason why it cannot be read.
-/

namespace TapeFold.CommandLine

inductive FileError
  | notFound
  | isDirectory
  | unreadable
deriving DecidableEq

namespace FileError

def message (path : String) : FileError → String
  | notFound => "[Errno 2] No such file or directory: " ++ Text.quoted path
  | isDirectory => "[Errno 21] Is a directory: " ++ Text.quoted path
  | unreadable => "[Errno 5] Input/output error: " ++ Text.quoted path

end FileError

/-- What stands in a directory: files with their bytes, and other directories. -/
abbrev Directory := List (String × Option (List UInt8))

namespace Directory

/-- Drops the steps into the current directory that a path starts with. -/
def dropCurrent : List Char → List Char
  | '.' :: '/' :: cs => dropCurrent cs
  | cs => cs

/-- Reads the file at `path`. The current directory, those above it and the root can be named too.
-/
def read (d : Directory) (path : String) : Except FileError (List UInt8) :=
  let name := String.ofList (dropCurrent path.toList)
  match d.lookup name with
  | some (some bytes) => .ok bytes
  | some none => .error .isDirectory
  | none => if name ∈ ["", ".", "..", "/"] then .error .isDirectory else .error .notFound

end Directory

end TapeFold.CommandLine
