import Conch.Errno
import Conch.Session
import Conch.SyntaxError

/-!
# Why a command fails

## Main definitions

* `Conch.ShellError` — the causes.
* `ShellError.describe` — the text shown to the user.
-/

set_option autoImplicit false

namespace Conch

/-- Why a command fails. -/
inductive ShellError where
  /-- A program cannot be started. -/
  | execution (name : String) (cause : IoError)
  /-- The file of a redirection cannot be opened. -/
  | redirection (path : String) (cause : IoError)
  /-- A directory cannot be entered. -/
  | changeDir (path : String) (cause : IoError)
  /-- The word behind a redirection stands for no file or for several. -/
  | ambiguousRedirect (word : String)
  /-- A job cannot be signalled. -/
  | signalDelivery (id : JobId) (cause : Errno)
  | jobNotFound (id : JobId)
  /-- A builtin was called in the wrong way. -/
  | usage (message : String)
  /-- A builtin cannot write. -/
  | io (cause : IoError)
  deriving DecidableEq, Repr, Inhabited

namespace ShellError

/-- The text shown to the user; a program that is not there is not found. -/
def describe : ShellError → String
  | execution name (.os .noEntry) => name ++ ": command not found"
  | execution name cause => name ++ ": " ++ cause.message
  | redirection path cause => path ++ ": " ++ cause.message
  | changeDir path cause => path ++ ": " ++ cause.reason
  | ambiguousRedirect word => word ++ ": ambiguous redirect"
  | signalDelivery id cause => "job " ++ toString id ++ ": " ++ cause.symbolic
  | jobNotFound id => "job " ++ toString id ++ " not found"
  | usage message => message
  | io cause => cause.message

end ShellError

end Conch
