import Stencil.Path

/-!
# Reading files

What a rendering knows of the world outside: a path leads to the content of a file, or to the
reason why it cannot be read.
-/

namespace Stencil

/-- Why a path cannot be read or written. -/
inductive FileFault where
  | notFound
  | isFolder
  | notFolder
  | nameTooLong
  /-- The path has a zero octet. -/
  | zeroInPath
  /-- The content was to be text and is not. -/
  | notText
  deriving DecidableEq, Repr

/-- What is wrong, in words. -/
def FileFault.message : FileFault → String
  | .notFound => "No such file or directory (os error 2)"
  | .isFolder => "Is a directory (os error 21)"
  | .notFolder => "Not a directory (os error 20)"
  | .nameTooLong => "File name too long (os error 36)"
  | .zeroInPath => "file name contained an unexpected NUL byte"
  | .notText => "stream did not contain valid UTF-8"

/-- The content of the file at each path. -/
abbrev Files := Path → Except FileFault Bytes

/-- The content of a text file. -/
def Files.readText (files : Files) (p : Path) : Except FileFault String :=
  match files p with
  | .ok bs => (Utf8.decode bs).mapError fun _ => .notText
  | .error e => .error e

end Stencil
