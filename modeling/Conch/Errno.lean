/-!
# Reasons of the system to refuse a request

## Main definitions

* `Conch.Errno` — the reasons, with their numbers and the system's wording.
* `Conch.IoError` — a refused request as the shell reports it.
-/

set_option autoImplicit false

namespace Conch

/-- Why the system refused a request. -/
inductive Errno where
  | noEntry
  | noProcess
  | tooManyArguments
  | execFormat
  | noChild
  | access
  | fileExists
  | notDirectory
  | isDirectory
  | invalid
  | noSpace
  | brokenPipe
  | nameTooLong
  | notEmpty
  | loop
  deriving DecidableEq, Repr, Inhabited

namespace Errno

/-- The system's number. -/
def code : Errno → Nat
  | noEntry => 2
  | noProcess => 3
  | tooManyArguments => 7
  | execFormat => 8
  | noChild => 10
  | access => 13
  | fileExists => 17
  | notDirectory => 20
  | isDirectory => 21
  | invalid => 22
  | noSpace => 28
  | brokenPipe => 32
  | nameTooLong => 36
  | notEmpty => 39
  | loop => 40

/-- The system's wording. -/
def describe : Errno → String
  | noEntry => "No such file or directory"
  | noProcess => "No such process"
  | tooManyArguments => "Argument list too long"
  | execFormat => "Exec format error"
  | noChild => "No child processes"
  | access => "Permission denied"
  | fileExists => "File exists"
  | notDirectory => "Not a directory"
  | isDirectory => "Is a directory"
  | invalid => "Invalid argument"
  | noSpace => "No space left on device"
  | brokenPipe => "Broken pipe"
  | nameTooLong => "File name too long"
  | notEmpty => "Directory not empty"
  | loop => "Too many levels of symbolic links"

/-- The wording for a directory that cannot be entered. -/
def reason : Errno → String
  | loop => "Too many symbolic links encountered"
  | e => e.describe

/-- The symbol of a refused signal, in front of its wording. -/
def symbolic : Errno → String
  | noProcess => "ESRCH: No such process"
  | e => e.describe

end Errno

/-- A refused request as the shell reports it. -/
inductive IoError where
  /-- The system refused. -/
  | os (e : Errno)
  /-- A path holds a NUL character. -/
  | nulInPath
  /-- An argument holds a NUL character. -/
  | nulInArgument
  /-- The target of a change of directory is no directory. -/
  | notADirectory
  deriving DecidableEq, Repr, Inhabited

/-- The text of a refused request; a refusal of the system carries its number. -/
def IoError.message : IoError → String
  | .os e => e.describe ++ " (os error " ++ toString e.code ++ ")"
  | .nulInPath => "file name contained an unexpected NUL byte"
  | .nulInArgument => "nul byte found in provided data"
  | .notADirectory => "Not a directory"

/-- The text for a directory that cannot be entered: a refusal of the system shows no number. -/
def IoError.reason : IoError → String
  | .os e => e.reason
  | e => e.message

end Conch
