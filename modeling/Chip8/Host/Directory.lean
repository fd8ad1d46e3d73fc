import Chip8.Memory.Program

/-!
Opening a rom by its path. The files are those of one flat working directory; of the places outside
it only that they are directories is known.
-/

namespace Chip8.Host

structure Directory where
  /-- File names with contents. -/
  files : List (String × List UInt8)

/-- Why a path leads to nothing that can be opened. -/
inductive OpenError where
  | notFound
  | notADirectory
  | nameTooLong
  /-- A path with a zero character in it is no path. -/
  | zeroInName
  deriving DecidableEq, Repr

def OpenError.message : OpenError → String
  | .notFound => "No such file or directory (os error 2)"
  | .notADirectory => "Not a directory (os error 20)"
  | .nameTooLong => "File name too long (os error 36)"
  | .zeroInName => "file name contained an unexpected NUL byte"

/-- Why reading from a directory fails. -/
def readsAsDirectory : String := "Is a directory (os error 21)"

/-- Where a path has led so far. -/
inductive Place where
  | working
  | outside
  | file (bytes : List UInt8)
  deriving DecidableEq, Repr

namespace Directory

def maxName : Nat := 255

def maxPath : Nat := 4095

/-- Follows one component of a path. An empty one and a dot stay in a directory. -/
def follow (d : Directory) (place : Place) (name : String) : Except OpenError Place :=
  match place with
  | .file _ => .error .notADirectory
  | .working =>
    if name = "" ∨ name = "." then .ok .working
    else if name = ".." then .ok .outside
    else if maxName < name.utf8ByteSize then .error .nameTooLong
    else match d.files.lookup name with
      | some bytes => .ok (.file bytes)
      | none => .error .notFound
  | .outside =>
    if name = "" ∨ name = "." ∨ name = ".." then .ok .outside
    else if maxName < name.utf8ByteSize then .error .nameTooLong
    else .error .notFound

def place (d : Directory) (path : String) : Except OpenError Place :=
  if path.toList.contains '\x00' then .error .zeroInName
  else if maxPath < path.utf8ByteSize then .error .nameTooLong
  else if path = "" then .error .notFound
  else (path.splitOn "/").foldlM d.follow (if path.startsWith "/" then .outside else .working)

/-- A reader for what the path leads to. -/
def openPath (d : Directory) (path : String) : Except OpenError Reader :=
  (d.place path).map fun
    | .file bytes => .ofPieces [bytes] .finished
    | _ => .ofPieces [] (.failed readsAsDirectory)

end Directory

end Chip8.Host
