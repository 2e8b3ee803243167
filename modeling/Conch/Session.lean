import Conch.FileTree

/-!
# The state of a shell session

Everything a command can observe or change about the shell: its directory, its variables, the
last status, and a request to exit.  A subshell works on a copy.

## Main definitions

* `Conch.Env` — variables, sorted by name.
* `Conch.Session` — the state; `Session.changeDir` — moving to another directory.
-/

set_option autoImplicit false

namespace Conch

/-- Variables and their values, sorted by name, each name once. -/
structure Env where
  pairs : List (String × String)
  deriving DecidableEq, Repr, Inhabited

namespace Env

/-- No variables. -/
def empty : Env := ⟨[]⟩

/-- The value of a variable. -/
def get? (e : Env) (name : String) : Option String := e.pairs.lookup name

/-- Insert a pair into a sorted list, in place of one with the same name. -/
def insertPair (name value : String) : List (String × String) → List (String × String)
  | [] => [(name, value)]
  | (n, v) :: rest =>
    if name < n then (name, value) :: (n, v) :: rest
    else if name = n then (name, value) :: rest
    else (n, v) :: insertPair name value rest

/-- Set a variable. -/
def set (e : Env) (name value : String) : Env := ⟨insertPair name value e.pairs⟩

/-- Remove a variable. -/
def unset (e : Env) (name : String) : Env := ⟨e.pairs.filter fun (n, _) => n ≠ name⟩

/-- The entries `name=value` that a program finds in its environment. -/
def entries (e : Env) : List Text.Octets :=
  e.pairs.map fun (name, value) => Text.Octets.ofText (name ++ "=" ++ value)

/-- Set several variables in turn. -/
def setAll (e : Env) (pairs : List (String × String)) : Env :=
  pairs.foldl (fun e (name, value) => e.set name value) e

end Env

/-- The number of a job. -/
abbrev JobId := Nat

/-- The number of a process. -/
abbrev Pid := Nat

/-- The state of a shell session. -/
structure Session where
  /-- The working directory, an absolute path. -/
  cwd : String
  env : Env
  /-- The status of the last pipeline, shown by `$?`. -/
  status : Int
  /-- The last process started in the background, shown by `$!`. -/
  backgroundPid : Option Pid
  /-- A pipeline fails if any of its stages does. -/
  pipefail : Bool
  /-- The status that `exit` asked to end with. -/
  exitRequested : Option Int
  /-- The background job that runs this state on a thread of the shell. -/
  job : Option JobId
  deriving DecidableEq, Repr, Inhabited

namespace Session

/-- A session in `cwd` with the variables `env`, and `PWD` set to the directory. -/
def new (cwd : String) (env : Env) : Session :=
  { cwd, env := env.set "PWD" cwd, status := 0, backgroundPid := none, pipefail := false,
    exitRequested := none, job := none }

/-- The value of a variable. -/
def var? (s : Session) (name : String) : Option String := s.env.get? name

/-- Set a variable. -/
def setVar (s : Session) (name value : String) : Session := { s with env := s.env.set name value }

/-- Remove a variable. -/
def unsetVar (s : Session) (name : String) : Session := { s with env := s.env.unset name }

/-- Set several variables in turn. -/
def setVars (s : Session) (pairs : List (String × String)) : Session :=
  { s with env := s.env.setAll pairs }

/-- The home directory. -/
def home? (s : Session) : Option String := s.var? "HOME"

/-- A path seen from the working directory. -/
def resolve (s : Session) (path : String) : String := Path.join s.cwd path

/-- Move to another directory; `PWD` and `OLDPWD` follow. -/
def changeDir (s : Session) (t : FileTree) (target : String) : Except IoError Session := do
  let dir ← t.canonical (s.resolve target)
  return { s with cwd := dir, env := (s.env.set "OLDPWD" s.cwd).set "PWD" dir }

/-- Where the program `name` is found: a name with a slash is a path, any other is searched for
in the directories of `PATH`.  A relative directory of `PATH` counts from `start`, where the
shell itself was started. -/
def findProgram? (s : Session) (t : FileTree) (start name : String) : Option String :=
  if name.contains '/' then
    let path := s.resolve name
    if t.isExecutable path then some path else none
  else do
    let dirs := ((← s.var? "PATH").splitOn ":").filter (· ≠ "")
    (dirs.map (Path.join · name)).find? fun path => t.isExecutable (Path.join start path)

end Session

end Conch
