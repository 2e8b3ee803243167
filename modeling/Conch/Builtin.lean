import Conch.Builtin.Name
import Conch.Job.Control
import Conch.Name

/-!
# Running builtins

Most builtins are functions of the session: they tell what to write, how they end and what
becomes of the session.  Only those that deal with jobs make requests of their own.

## Main definitions

* `Conch.Builtin.Outcome` — what a builtin does.
* `Conch.Builtin.outcome` — the builtins that do not deal with jobs.
* `Conch.Builtin.run` — all builtins.
-/

set_option autoImplicit false

namespace Conch.Builtin

open Act (ask)

/-- The two outputs of a builtin. -/
inductive Outlet where
  | out
  | err
  deriving DecidableEq, Repr

/-- A text to write, and the session at that point, which stays if the text cannot be written. -/
structure Write where
  outlet : Outlet
  text : String
  session : Session
  deriving DecidableEq, Repr

/-- What a builtin does: it writes, ends with a result and leaves a session. -/
structure Outcome where
  writes : List Write
  result : Except ShellError Int
  session : Session

/-- Write nothing. -/
def silent (s : Session) (result : Except ShellError Int) : Outcome := ⟨[], result, s⟩

/-- Write one text and succeed. -/
def prints (s : Session) (text : String) : Outcome := ⟨[⟨.out, text, s⟩], .ok 0, s⟩

/-! ## The builtins -/

/-- Move to a directory. -/
def moveTo (s : Session) (v : View) (target : String) : Outcome :=
  match s.changeDir v.tree target with
  | .ok s => silent s (.ok 0)
  | .error e => silent s (.error (.changeDir target e))

/-- `cd`: to the home directory, with `-` to the previous one, or to a given one. -/
def runCd (s : Session) (v : View) : List String → Outcome
  | [] => match s.home? with
    | some home => moveTo s v home
    | none => silent s (.error (.usage "HOME not set"))
  | "-" :: _ => match s.var? "OLDPWD" with
    | some previous =>
      let o := moveTo s v previous
      { o with writes := [⟨.out, previous ++ "\n", s⟩] }
    | none => silent s (.error (.usage "OLDPWD not set"))
  | dir :: _ => moveTo s v dir

/-- `echo`: the arguments, with `-n` in front of them without a newline. -/
def runEcho (s : Session) : List String → Outcome
  | "-n" :: args => prints s (" ".intercalate args)
  | args => prints s (" ".intercalate args ++ "\n")

/-- `exit`: ask for the end, with the last status or the low byte of a given one. -/
def runExit (s : Session) : List String → Outcome
  | [] => silent { s with exitRequested := some s.status } (.ok s.status)
  | arg :: _ => match Text.readInt arg with
    | some n =>
      let code := n % 256
      silent { s with exitRequested := some code } (.ok code)
    | none => silent s (.error (.usage (arg ++ ": numeric argument required")))

/-- The session after `export` of one argument; none if it has no valid name. -/
def exportOne (s : Session) (arg : String) : Option Session :=
  match Name.splitAtEquals arg with
  | some (name, value) => if Name.isName name then some (s.setVar name value) else none
  | none =>
    if Name.isName arg then some (if (s.var? arg).isNone then s.setVar arg "" else s) else none

/-- `export` of arguments, in turn. -/
def exportAll (s : Session) (status : Int) : List String → Outcome
  | [] => silent s (.ok status)
  | arg :: rest => match exportOne s arg with
    | some s => exportAll s status rest
    | none =>
      let message := "export: `" ++ arg ++ "': not a valid identifier\n"
      let o := exportAll s 1 rest
      { o with writes := ⟨.err, message, s⟩ :: o.writes }

/-- `export`: set variables, or list them all. -/
def runExport (s : Session) (args : List String) : Outcome :=
  if args.isEmpty then
    prints s (String.join (s.env.pairs.map fun (name, value) =>
      "export " ++ name ++ "=\"" ++ value ++ "\"\n"))
  else exportAll s 0 args

/-- How a name resolves, as a text for one of the outputs. -/
def describeName (s : Session) (v : View) (name : String) : Outlet × String :=
  if (ofName? name).isSome then (.out, name ++ " is a shell builtin\n")
  else match s.findProgram? v.tree v.start name with
    | some path => (.out, name ++ " is " ++ path ++ "\n")
    | none => (.err, "type: " ++ name ++ ": not found\n")

/-- `type`: how names resolve; it fails if one of them does not. -/
def runType (s : Session) (v : View) (names : List String) : Outcome :=
  let described := names.map (describeName s v)
  ⟨described.map fun (outlet, text) => ⟨outlet, text, s⟩,
    .ok (if described.any (·.1 = .err) then 1 else 0), s⟩

/-- The text of `help`. -/
def helpText : String :=
  "Available commands:\n" ++ String.join (all.map fun b => "  " ++ b.usage ++ "\n") ++
    "\nAdd '&' at the end of a command to run it in background\n"

/-- What a builtin does that does not deal with jobs; those that do have no outcome. -/
def outcome (b : Builtin) (args : List String) (s : Session) (v : View) : Option Outcome :=
  match b with
  | cd => some (runCd s v args)
  | echo => some (runEcho s args)
  | exit => some (runExit s args)
  | exportVars => some (runExport s args)
  | fail => some (silent s (.ok 1))
  | help => some (prints s helpText)
  | pwd => some (prints s (s.cwd ++ "\n"))
  | succeed => some (silent s (.ok 0))
  | typeOf => some (runType s v args)
  | unset => some (silent (args.foldl Session.unsetVar s) (.ok 0))
  | bg | fg | jobs => none

/-! ## Requests -/

/-- Write a text to one of the outputs. -/
def writeTo (streams : Streams) (outlet : Outlet) (text : String) :
    Act (Except ShellError Unit) := do
  if text.isEmpty then return .ok ()
  let sink := match outlet with
    | .out => streams.stdout
    | .err => streams.stderr
  match ← Act.tell sink text with
  | .ok () => return .ok ()
  | .error e => return .error (.io (.os e))

/-- Write the texts of an outcome in turn, as long as they can be written. -/
def perform (streams : Streams) (o : Outcome) :
    List Write → Act (Except ShellError Int × Session)
  | [] => pure (o.result, o.session)
  | w :: rest => do
    match ← writeTo streams w.outlet w.text with
    | .ok () => perform streams o rest
    | .error e => return (.error e, w.session)

/-- The job that the first argument names, or the most recent one. -/
def jobOperand : List String → Act (Except ShellError JobId)
  | arg :: _ => pure <| match Job.parseId? arg with
    | some id => .ok id
    | none => .error (.usage (arg ++ ": no such job"))
  | [] => do
    match ← Act.jobs .current with
    | some id => return .ok id
    | none => return .error (.usage "current: no such job")

/-- The lines of `jobs`. -/
def listing (self : Pid) (js : List (JobId × Job)) : String :=
  String.join (js.map fun (id, j) => "[" ++ toString id ++ "] " ++ j.status.text ++ " " ++
    toString (j.pidShown self) ++ " " ++ j.command ++ "\n")

/-- `jobs`: look at the jobs and list them. -/
def runJobs (streams : Streams) : Act (Except ShellError Int) := do
  ask .reap
  let v ← ask .view
  match ← writeTo streams .out (listing v.self (← Act.jobs .list)) with
  | .ok () => return .ok 0
  | .error e => return .error e

/-- `fg`: show the command of a job and wait for it. -/
def runFg (streams : Streams) (args : List String) : Act (Except ShellError Int) := do
  match ← jobOperand args with
  | .error e => return .error e
  | .ok id => match ← Act.jobs (.get id) with
    | none => return .error (.jobNotFound id)
    | some job => match ← writeTo streams .out (job.command ++ "\n") with
      | .error e => return .error e
      | .ok () => Jobs.foreground id

/-- `bg`: continue a job and say so. -/
def runBg (streams : Streams) (args : List String) : Act (Except ShellError Int) := do
  match ← jobOperand args with
  | .error e => return .error e
  | .ok id => match ← Act.jobs (.get id) with
    | none => return .error (.jobNotFound id)
    | some job => match ← Jobs.background id with
      | .error e => return .error e
      | .ok () =>
        let line := "[" ++ toString id ++ "]+ Running " ++ job.command ++ " &\n"
        match ← writeTo streams .out line with
        | .error e => return .error e
        | .ok () => return .ok 0

/-- Run a builtin with its arguments. -/
def run (b : Builtin) (args : List String) (streams : Streams) (s : Session) :
    Act (Except ShellError Int × Session) := do
  match b with
  | jobs => return (← runJobs streams, s)
  | fg => return (← runFg streams args, s)
  | bg => return (← runBg streams args, s)
  | _ =>
    let v ← ask .view
    match b.outcome args s v with
    | some o => perform streams o o.writes
    | none => return (.ok 0, s)

end Conch.Builtin
