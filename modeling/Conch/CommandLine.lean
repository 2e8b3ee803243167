import Conch.Shell

/-!
# The command line

## Main definitions

* `Conch.Request` — what the arguments ask for.
* `Conch.Log.prepare` — make the log file.
* `Conch.Host.startShell` — a shell with its settings.
* `Conch.Request.run` — do what the arguments ask for.
-/

set_option autoImplicit false

namespace Conch

open Act (ask)

/-- What the arguments ask for. -/
inductive Request where
  | help
  | version
  /-- `-c` without a command. -/
  | missingCommand
  /-- Run one line. -/
  | command (line : String)
  /-- Read lines from the standard input. -/
  | session
  deriving DecidableEq, Repr, Inhabited

/-- How much the log tells, and where. -/
structure Log where
  level : Level
  file : String
  deriving DecidableEq, Repr, Inhabited

namespace Log

/-- The log that settings and variables ask for: `RSHELL_LOG` comes first. -/
def of (config : Config) (env : Env) (start : String) : Log :=
  { level := ((env.get? "RSHELL_LOG").bind Level.parse?).getD config.level
    file := Path.join start (Config.expandHome (env.get? "HOME") config.logFile) }

/-- Make the log file, with the directories above it.  It does not matter if that fails. -/
def prepare (l : Log) : Act Unit := do
  if l.level = .off then return ()
  match Path.parent? l.file with
  | some above => let _ ← ask (.edit (.mkdirAll above))
  | none => pure ()
  let _ ← ask (.edit (.create l.file))

end Log

/-- The shell of a host with its settings; with `logging` its log file is made. -/
def Host.startShell (h : Host) (logging : Bool) : Act Shell := do
  let v ← ask .view
  let config := Config.load v.tree v.start h.env
  if logging then (Log.of config h.env v.start).prepare
  return Shell.new h (← ask .view) config

namespace Request

/-- The text of `--help`. -/
def helpText : String :=
  "rshell - custom shell\n\nUsage: rshell [OPTIONS]\n  -h, --help       Print this help\n" ++
    "  -v, --version    Print version\n  -c COMMAND       Run COMMAND and exit with its status\n"

/-- The text of `--version`. -/
def versionText : String := "RShell v 0.2.0\n"

/-- The request needs the standard input. -/
def readsInput : Request → Bool
  | .command _ | .session => true
  | .help | .version | .missingCommand => false

/-- What arguments ask for.  Help comes first, then the version, wherever they stand. -/
def ofArgs (args : List String) : Request :=
  if args.any (· ∈ ["-h", "--help"]) then .help
  else if args.any (· ∈ ["-v", "--version", "-V", "-version"]) then .version
  else match args.dropWhile (· ≠ "-c") with
    | [] => .session
    | [_] => .missingCommand
    | _ :: line :: _ => .command line

/-- Write a text and end with a status. -/
def tell (dst : Sink) (text : String) (status : Int) : Act (Option Int) := do
  let _ ← Act.tell dst text
  return some status

/-- Do what the arguments ask for; the status of the shell.  A session takes at most `turns`
turns.  Nothing comes back if the editor cannot go on. -/
def run (r : Request) (h : Host) (turns : Nat) : Act (Option Int) := do
  match r with
  | .help => tell .out helpText 0
  | .version => tell .out versionText 0
  | .missingCommand => tell .err "rshell: -c: option requires an argument\n" 2
  | .command line => return some (← (← h.startShell true).runCommand line)
  | .session => (← h.startShell true).run turns

end Request

end Conch
