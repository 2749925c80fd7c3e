/-!
# Directories

A working directory as the program sees it: files with their bytes, and directories
without contents. A path is a list of parts with slashes between them; empty parts
and single dots do not count.
-/
namespace Lox

/-- Why a file cannot be read. -/
inductive ReadError where
  | noSuchFile
  | isDirectory
  | notDirectory
  | nameTooLong
  | other (reason : String)
deriving DecidableEq, Repr

/-- The reason in words. -/
def ReadError.reason : ReadError → String
  | noSuchFile => "No such file or directory"
  | isDirectory => "Is a directory"
  | notDirectory => "Not a directory"
  | nameTooLong => "File name too long"
  | other reason => reason

/-- Something in a directory. -/
inductive Item where
  | file (bytes : ByteArray)
  | folder

/-- A directory with named items. -/
structure Directory where
  items : List (String × Item)

namespace Directory

/-- The item with a name. -/
def get? (directory : Directory) (name : String) : Option Item := directory.items.lookup name

/-- Writes a file, in place of one with the same name. -/
def write (directory : Directory) (name : String) (bytes : ByteArray) : Directory :=
  ⟨(name, .file bytes) :: directory.items.filter (·.1 != name)⟩

/-- The parts of a path that count. -/
def parts (path : String) : List String :=
  (path.splitOn "/").filter fun part => part != "" && part != "."

/-- A path written with the parts that count; with none of them it is the directory itself. -/
def canonical (path : String) : String :=
  let relative := "/".intercalate (parts path)
  if path.toList.head? = some '/' then "/" ++ relative
  else if relative.isEmpty then "." else relative

/-- Bytes that a name may have. -/
def nameLimit : Nat := 255

/-- Bytes that a path may have. -/
def pathLimit : Nat := 4095

/-- What reading meets where nothing has the name. -/
def absent (name : String) : ReadError :=
  if nameLimit < name.utf8ByteSize then .nameTooLong else .noSuchFile

/-- What reading meets outside the directory, where only the directories above it are known. -/
def outside (parts : List String) : ReadError :=
  match parts.dropWhile (· == "..") with
  | [] => .isDirectory
  | name :: _ => absent name

/-- Reads the file that the parts of a path lead to. -/
def readParts (directory : Directory) : List String → Except ReadError ByteArray
  | [] => .error .isDirectory
  | ".." :: rest => .error (outside rest)
  | name :: rest =>
    match directory.get? name with
    | none => .error (absent name)
    | some (.file bytes) => if rest.isEmpty then .ok bytes else .error .notDirectory
    | some .folder =>
      match rest with
      | [] => .error .isDirectory
      | ".." :: rest => readParts directory rest
      | name :: _ => .error (absent name)

/-- Reads the file at a path, which starts from this directory unless a slash comes first. -/
def read (directory : Directory) (path : String) : Except ReadError ByteArray :=
  if pathLimit < (canonical path).utf8ByteSize then .error .nameTooLong
  else if path.toList.head? = some '/' then .error (outside (parts path))
  else directory.readParts (parts path)

end Directory

end Lox
