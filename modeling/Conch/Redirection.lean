import Conch.Command
import Conch.Stream

/-!
# Redirections of a command

The redirections of one command, opened, and what they make of the streams that the pipeline
supplies.  A later redirection of a stream replaces an earlier one; `2>&1` takes the standard
output as it is at that point.

## Main definitions

* `Conch.Redirections` — the opened redirections.
* `Redirections.add` — one more redirection, from left to right.
* `Redirections.apply` — the streams of the command.
-/

set_option autoImplicit false

namespace Conch

/-- Where a redirected standard error goes. -/
inductive ErrorTarget where
  | file (f : FileId)
  /-- The standard output that the pipeline supplies. -/
  | pipelineOutput
  deriving DecidableEq, Repr, Inhabited

/-- The opened redirections of a command; `none` keeps what the pipeline supplies. -/
structure Redirections where
  stdin : Option FileId
  stdout : Option FileId
  stderr : Option ErrorTarget
  deriving DecidableEq, Repr, Inhabited

namespace Redirections

/-- No redirection. -/
def none : Redirections := ⟨.none, .none, .none⟩

/-- One more redirection, whose file has been opened as `f`. -/
def add (r : Redirections) (op : RedirectOp) (f : FileId) : Redirections :=
  match op with
  | .input => { r with stdin := some f }
  | .output | .append => { r with stdout := some f }
  | .error | .errorAppend => { r with stderr := some (.file f) }
  | .both | .bothAlt => { r with stdout := some f, stderr := some (.file f) }
  | .errorToOutput => r

/-- `2>&1`: standard error goes where standard output goes now. -/
def joinError (r : Redirections) : Redirections :=
  { r with stderr := some (match r.stdout with
      | some f => .file f
      | .none => .pipelineOutput) }

/-- The streams of a command to which the pipeline supplies `s`. -/
def apply (r : Redirections) (s : Streams) : Streams where
  stdin := match r.stdin with
    | some f => .file f
    | .none => s.stdin
  stdout := match r.stdout with
    | some f => .file f
    | .none => s.stdout
  stderr := match r.stderr with
    | some (.file f) => .file f
    | some .pipelineOutput => s.stdout
    | .none => s.stderr

end Redirections

/-- The operator opens its file behind what is there. -/
def RedirectOp.appends : RedirectOp → Bool
  | .append | .errorAppend => true
  | _ => false

end Conch
