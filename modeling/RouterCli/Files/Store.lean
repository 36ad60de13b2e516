import RouterCli.Text.Utf8

/-!
  RouterCli.Files.Store

  What the command line needs of the files around it. Every step either takes
  its whole effect or fails with a cause and changes nothing.
-/

namespace RouterCli

/-- Why a step on files failed. -/
inductive FileError where
  | notPermitted
  | notFound
  | alreadyExists
  | notDirectory
  | isDirectory
  | nameTooLong
  | tooManyLinks
  | nulInName
  | invalidUtf8
deriving DecidableEq, Repr

namespace FileError

/-- The words for a cause. -/
def message : FileError → String
  | notPermitted => "Operation not permitted (os error 1)"
  | notFound => "No such file or directory (os error 2)"
  | alreadyExists => "File exists (os error 17)"
  | notDirectory => "Not a directory (os error 20)"
  | isDirectory => "Is a directory (os error 21)"
  | nameTooLong => "File name too long (os error 36)"
  | tooManyLinks => "Too many levels of symbolic links (os error 40)"
  | nulInName => "file name contained an unexpected NUL byte"
  | invalidUtf8 => "stream did not contain valid UTF-8"

end FileError

/-- An open file. It stays the same file whatever becomes of its name. -/
structure FileHandle where
  file : Nat
deriving DecidableEq, Repr

/-- Files as the command line uses them. -/
class FileStore (φ : Type) where
  openRead : φ → String → Except FileError FileHandle
  /-- What an open file holds from a position on. -/
  readFrom : φ → FileHandle → Nat → Except FileError (List UInt8)
  present : φ → String → Bool
  /-- Open a file for appending, and create it where there is none. -/
  openAppend : φ → String → Except FileError (FileHandle × φ)
  append : φ → FileHandle → List UInt8 → φ
  /-- Create a file of a new name in a directory; the name begins as given. -/
  createFresh : φ → String → String → Except FileError (String × φ)
  write : φ → String → List UInt8 → Except FileError φ
  remove : φ → String → Except FileError φ
  /-- Give the file of the first name a second one. -/
  link : φ → String → String → Except FileError φ
  setMode : φ → String → Nat → Except FileError φ

namespace FileStore

variable {φ : Type} [FileStore φ]

/-- The bytes of a file. -/
def read (files : φ) (path : String) : Except FileError (List UInt8) := do
  readFrom files (← openRead files path) 0

/-- The text of a file. -/
def readText (files : φ) (path : String) : Except FileError String := do
  match Text.decode? (← read files path) with
  | some s => return s
  | none => throw .invalidUtf8

end FileStore

end RouterCli
