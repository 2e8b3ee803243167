/-!
# Builtins

The commands that the shell runs itself.

## Main definitions

* `Conch.Builtin` — the builtins, with their names and usage lines.
-/

set_option autoImplicit false

namespace Conch

/-- The commands that the shell runs itself. -/
inductive Builtin where
  | bg
  | cd
  | echo
  | exit
  | exportVars
  | fail
  | fg
  | help
  | jobs
  | pwd
  | succeed
  | typeOf
  | unset
  deriving DecidableEq, Repr, Inhabited

namespace Builtin

/-- All builtins, by name. -/
def all : List Builtin :=
  [bg, cd, echo, exit, exportVars, fail, fg, help, jobs, pwd, succeed, typeOf, unset]

/-- The name of a builtin. -/
def name : Builtin → String
  | bg => "bg"
  | cd => "cd"
  | echo => "echo"
  | exit => "exit"
  | exportVars => "export"
  | fail => "false"
  | fg => "fg"
  | help => "help"
  | jobs => "jobs"
  | pwd => "pwd"
  | succeed => "true"
  | typeOf => "type"
  | unset => "unset"

/-- The names of all builtins. -/
def names : List String := all.map name

/-- The builtin with a name. -/
def ofName? (word : String) : Option Builtin := all.find? (·.name = word)

/-- How to call a builtin, and what it does. -/
def usage : Builtin → String
  | bg => "bg [%id]         - Resume a stopped job in the background"
  | cd => "cd [dir|-]       - Change directory"
  | echo => "echo [-n] [args] - Print arguments"
  | exit => "exit [n]         - Exit the shell"
  | exportVars => "export NAME[=v]  - Set or list variables"
  | fail => "false            - Return 1"
  | fg => "fg [%id]         - Bring a job to the foreground"
  | help => "help             - Show this list"
  | jobs => "jobs             - List jobs"
  | pwd => "pwd              - Print working directory"
  | succeed => "true             - Return 0"
  | typeOf => "type name...     - Describe how a name resolves"
  | unset => "unset NAME...    - Remove variables"

end Builtin

end Conch
