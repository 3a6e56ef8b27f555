/-!
# Errors of file operations

- `OsError`: why an operation of the file system failed.
- `OsError.text`: the wording, with the number of the system's error.
- `OsError.isDenied`: the operation was not permitted.
-/

namespace ProjectConsistency

/-- Why an operation of the file system failed. -/
inductive OsError where
  | notFound
  | permissionDenied
  | busy
  | exists
  | notDirectory
  | isDirectory
  | invalidArgument
  | nameTooLong
  | notEmpty
  | tooManyLinks
  | nulInName
  | notUtf8
  /-- An error that comes with its own wording. -/
  | other (denied : Bool) (text : String)
  deriving DecidableEq, Repr

namespace OsError

def numbered (text : String) (number : Nat) : String :=
  text ++ " (os error " ++ toString number ++ ")"

def text : OsError → String
  | notFound => numbered "No such file or directory" 2
  | permissionDenied => numbered "Permission denied" 13
  | busy => numbered "Device or resource busy" 16
  | .exists => numbered "File exists" 17
  | notDirectory => numbered "Not a directory" 20
  | isDirectory => numbered "Is a directory" 21
  | invalidArgument => numbered "Invalid argument" 22
  | nameTooLong => numbered "File name too long" 36
  | notEmpty => numbered "Directory not empty" 39
  | tooManyLinks => numbered "Too many levels of symbolic links" 40
  | nulInName => "file name contained an unexpected NUL byte"
  | notUtf8 => "stream did not contain valid UTF-8"
  | other _ text => text

/-- The operation was not permitted. -/
def isDenied : OsError → Bool
  | permissionDenied => true
  | other denied _ => denied
  | _ => false

end OsError

end ProjectConsistency
