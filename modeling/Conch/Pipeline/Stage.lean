import Conch.Builtin.Name
import Conch.Redirection

/-!
# Stages of a pipeline

## Main definitions

* `Conch.Action` — what a stage runs, with its words expanded.
* `Conch.Stage` — an action with its opened redirections.
-/

set_option autoImplicit false

namespace Conch

/-- What a stage runs. -/
inductive Action where
  /-- A program, with variables that only it sees. -/
  | program (argv : List String) (vars : List (String × String))
  | builtin (b : Builtin) (argv : List String)
  /-- Assignments and nothing else. -/
  | assign (vars : List (String × String))
  /-- A group, or with `copy` a subshell. -/
  | nested (body : Command) (copy : Bool)
  deriving Inhabited

/-- The action is a program. -/
def Action.isProgram : Action → Bool
  | .program .. => true
  | _ => false

/-- One stage of a pipeline, ready to run. -/
structure Stage where
  action : Action
  redirects : Redirections
  deriving Inhabited

end Conch
