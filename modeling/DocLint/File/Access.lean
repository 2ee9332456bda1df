import DocLint.Failure
import DocLint.File.Name
import DocLint.Text.Lines
import DocLint.Text.Quoted

/-!
# Access to files

What the program needs of a file system, for any way to get at one. Texts are read as UTF-8, every line
end as a line feed.
-/
namespace DocLint

/-- What stands under a name. -/
inductive FileKind where
  | file
  | directory
  deriving DecidableEq, Inhabited

/-- Why a file cannot be read. -/
inductive FileError where
  | notFound
  | isDirectory
  | notDirectory
  | other (reason : String)
  deriving DecidableEq, Inhabited

/-- Why a file of a name cannot be read. -/
def FileError.message (name : String) : FileError → String
  | .notFound => s!"[Errno 2] No such file or directory: {Text.quoted name}"
  | .isDirectory => s!"[Errno 21] Is a directory: {Text.quoted name}"
  | .notDirectory => s!"[Errno 20] Not a directory: {Text.quoted name}"
  | .other reason => s!"{reason}: {Text.quoted name}"

/-- A file system seen from a working directory. -/
structure FileAccess (m : Type → Type) where
  workingDir : String
  kind : String → m (Option FileKind)
  read : String → m (Except FileError (List UInt8))

namespace FileAccess

variable {m : Type → Type} [Monad m]

/-- Whether a file stands under a name. -/
def isFile (files : FileAccess m) (name : String) : m Bool := do
  return (← files.kind name) == some .file

/-- The text of bytes. -/
def textOf (bytes : List UInt8) : Except Utf8Error String := do
  return String.ofList (Text.unifyLineEnds (← Utf8.decode bytes))

end FileAccess
end DocLint
