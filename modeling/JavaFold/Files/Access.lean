/-!
# Access to files

Reading a text and writing one are the only operations on files that folding needs. They are taken
as a record over any monad, so that the same program runs on the files of the machine and on a store
held in memory.
-/

namespace JavaFold

/-- Why a file could not be read or written. -/
inductive FileFailure where
  /-- The file or a directory on the way to it does not exist. -/
  | notFound
  /-- Something on the way is not a directory. -/
  | notDirectory
  /-- A directory stands where a file was expected. -/
  | isDirectory
  /-- The path, or a component of it, is longer than the system allows. -/
  | nameTooLong
  /-- The file is not encoded in UTF-8. -/
  | notText
  /-- The path has a NUL character in it. -/
  | nulInName
  /-- Another failure that the system reports. -/
  | system (description : String) (code : Nat)
  deriving DecidableEq, Repr

namespace FileFailure

/-- The wording of a failure that the system reports with an error code. -/
def systemMessage (description : String) (code : Nat) : String :=
  s!"{description} (os error {code})"

/-- The wording of a failure. -/
def message : FileFailure → String
  | notFound => systemMessage "No such file or directory" 2
  | notDirectory => systemMessage "Not a directory" 20
  | isDirectory => systemMessage "Is a directory" 21
  | nameTooLong => systemMessage "File name too long" 36
  | notText => "stream did not contain valid UTF-8"
  | nulInName => "file name contained an unexpected NUL byte"
  | system description code => systemMessage description code

end FileFailure

/-- How to read and write files in a monad `m`. -/
structure FileAccess (m : Type → Type) where
  /-- The text of the file at a path. -/
  read : String → m (Except FileFailure String)
  /-- Make a text the content of the file at a path. -/
  write : String → String → m (Except FileFailure Unit)

end JavaFold
