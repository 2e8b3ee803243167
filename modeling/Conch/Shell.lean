import Conch.Config
import Conch.Editor
import Conch.Interpreter
import Conch.Prompt

/-!
# The shell

A shell reads lines from a terminal or from its standard input and runs them.  A line goes on
when it ends in a backslash, or when it could be completed: inside a quote or a group, or behind
an operator.

## Main definitions

* `Conch.Host` — what a shell finds when it starts.
* `Conch.Shell` — a shell between two lines.
* `Shell.turn` — read once and do what follows.
* `Shell.run`, `Shell.runCommand` — a whole session.
-/

set_option autoImplicit false

namespace Conch

open Act (ask)
open Text (Octets)

/-- What a shell finds when it starts. -/
structure Host where
  env : Env
  /-- The path of the shell itself. -/
  executable : String
  /-- `user@host`. -/
  identity : String
  /-- The terminal shows colours. -/
  colors : Bool
  /-- The keys typed into the terminal; none if the standard input is no terminal. -/
  keys : Option (List Key)
  deriving Inhabited

/-- Where lines come from. -/
inductive LineSource where
  /-- The standard input; these bytes have been read and not used. -/
  | script (buffered : Octets)
  /-- A terminal; these keys are still to come. -/
  | terminal (keys : List Key)
  deriving Inhabited

/-- A shell between two lines. -/
structure Shell where
  session : Session
  source : LineSource
  prompt : Prompt
  colors : Bool
  history : History
  historyFile : String
  /-- The lines of a command that is not complete. -/
  entered : String
  /-- The last line asked for another one. -/
  continued : Bool
  /-- A new command starts. -/
  fresh : Bool
  deriving Inhabited

namespace Shell

/-- A shell at its start. -/
def new (h : Host) (v : View) (config : Config) : Shell :=
  let file := Path.join v.start (Config.expandHome (h.env.get? "HOME") config.historyFile)
  let session := (Session.new v.start h.env).setVar "SHELL" h.executable
  { session := { session with pipefail := config.pipefail }
    source := match h.keys with
      | some keys => .terminal keys
      | none => .script ""
    prompt := ⟨h.identity, config.promptSymbol, config.promptColor⟩
    colors := h.colors
    history := .ofFile config.historyBound (v.tree.read? file)
    historyFile := file
    entered := ""
    continued := false
    fresh := true }

/-- The shell talks to a user. -/
def isInteractive (sh : Shell) : Bool :=
  match sh.source with
  | .terminal _ => true
  | .script _ => false

/-! ## Reading -/

/-- How much of the standard input is read at once. -/
def blockSize : Nat := 8192

/-- The prompt for a line that goes on. -/
def continuationPrompt : String := "> "

/-- The prompt for the next line. -/
def nextPrompt (sh : Shell) : String :=
  if sh.continued then continuationPrompt
  else sh.prompt.render sh.colors sh.session.cwd sh.session.home?

/-- A line without the newlines and carriage returns at its end. -/
def chomp (line : List Char) : String :=
  String.ofList (line.reverse.dropWhile fun c => c = '\n' || c = '\r').reverse

/-- What reading once leads to. -/
inductive Read where
  /-- A line, an interrupt, or the end. -/
  | outcome (o : Editor.Outcome) (sh : Shell)
  /-- Some bytes, but no line yet. -/
  | more (sh : Shell)
  /-- The input cannot be read. -/
  | broken (sh : Shell)
  /-- The editor cannot go on. -/
  | failed

/-- A line of the standard input; it has to encode a text. -/
def takeLine (sh : Shell) (line rest : List Char) : Read :=
  match Octets.toText? (String.ofList line) with
  | some text =>
    .outcome (.line (chomp text.toList)) { sh with source := .script (String.ofList rest) }
  | none => .broken sh

/-- Read a line of the bytes that have been read, or else some more bytes. -/
def readScript (sh : Shell) (buffered : Octets) : Act Read := do
  let bytes := buffered.toList
  let line := bytes.takeWhile (· ≠ '\n')
  match bytes.drop line.length with
  | _ :: rest => return sh.takeLine line rest
  | [] => match ← ask (.read .inherit blockSize) with
    | .ok "" | .error _ =>
      if buffered.isEmpty then return .outcome .eof sh else return sh.takeLine line []
    | .ok data => return .more { sh with source := .script (buffered ++ data) }

/-- Read a line from the terminal. -/
def readTerminal (sh : Shell) (keys : List Key) : Act Read := do
  let v ← ask .view
  let src : Completion.Sources :=
    { tree := v.tree, builtins := Builtin.names, cwd := sh.session.cwd,
      path := sh.session.var? "PATH", start := v.start }
  match Editor.readLine sh.nextPrompt src sh.history keys with
  | .read o screen history rest =>
    let _ ← Act.tell .out screen
    return .outcome o { sh with history, source := .terminal rest }
  | .waiting => return .outcome .eof { sh with source := .terminal [] }
  | .failed => return .failed

/-- Read once. -/
def read (sh : Shell) : Act Read :=
  match sh.source with
  | .script buffered => sh.readScript buffered
  | .terminal keys => sh.readTerminal keys

/-! ## Lines that go on -/

/-- The line without the backslash at its end, if that backslash joins it with the next line: the
number of backslashes is odd, and no quote is open. -/
def joined? (line : String) : Option String :=
  let backslashes := line.toList.reverse.takeWhile (· = '\\')
  let quoted := match Token.tokenize line with
    | .ok _ => false
    | .error _ => true
  if backslashes.length % 2 = 1 && !quoted then some (String.ofList line.toList.dropLast) else none

/-- What a line makes of the lines in front of it: a command, or a text that goes on. -/
def enter (entered line : String) : Except String String :=
  match joined? line with
  | some front => .error (entered ++ front)
  | none =>
    let text := entered ++ line
    if Command.needsContinuation text then .error (text ++ "\n") else .ok text

/-! ## Turns -/

/-- The status of a line that the user has given up. -/
def interruptedStatus : Int := 130

/-- What a turn leads to. -/
inductive Turn where
  | next (sh : Shell)
  /-- The session is over. -/
  | over (sh : Shell)
  /-- The editor cannot go on. -/
  | failed

/-- The lines of a command as one, with blanks between them. -/
def oneLine (command : String) : String := command.map fun c => if c = '\n' then ' ' else c

/-- Put a command into the history of a user. -/
def remember (sh : Shell) (command : String) : Act Shell := do
  if sh.isInteractive then
    let (history, edit) := sh.history.add (oneLine command)
    match edit.at? sh.historyFile with
    | some e => let _ ← ask (.edit e)
    | none => pure ()
    return { sh with history }
  else return sh

/-- Run a complete command; blanks are no command. -/
def submit (sh : Shell) (command : String) : Act Turn := do
  if (Text.trim command.toList).isEmpty then return .next { sh with fresh := true }
  let sh ← sh.remember command
  let (_, session) ← sh.session.runLine command .inherit
  let sh := { sh with session, fresh := true }
  return if session.exitRequested.isSome then .over sh else .next sh

/-- Tell about jobs and start a new command. -/
def begin (sh : Shell) : Act Shell := do
  if !sh.fresh then return sh
  let news ← Jobs.report
  if !news.isEmpty then
    let _ ← Act.tell .out news
  return { sh with entered := "", continued := false, fresh := false }

/-- What to say about a line of the standard input that encodes no text. -/
def brokenInput : String :=
  "rshell: error reading input: stream did not contain valid UTF-8\n"

/-- Read once and do what follows. -/
def turn (sh : Shell) : Act Turn := do
  let sh ← sh.begin
  match ← sh.read with
  | .failed => return .failed
  | .more sh => return .next sh
  | .broken sh =>
    let _ ← Act.tell .err brokenInput
    return .over sh
  | .outcome .interrupted sh =>
    let session := { sh.session with status := interruptedStatus }
    return .next { sh with session, entered := "", continued := false }
  | .outcome .eof sh => if sh.entered.isEmpty then return .over sh else sh.submit sh.entered
  | .outcome (.line line) sh => match enter sh.entered line with
    | .error text => return .next { sh with entered := text, continued := true }
    | .ok command => sh.submit command

/-- The end of a session with a status: a user's jobs end with it. -/
def finish (sh : Shell) (status : Int) : Act Int := do
  if sh.isInteractive then Jobs.terminateAll
  Jobs.stopListening
  return sh.session.exitRequested.getD status

/-- Take turns, at most `turns` of them.  Nothing comes back if the editor cannot go on. -/
def loop : (turns : Nat) → Shell → Act (Option Int)
  | 0, sh => do return some (← sh.finish sh.session.status)
  | turns + 1, sh => do
    match ← sh.turn with
    | .failed => return none
    | .over sh => return some (← sh.finish sh.session.status)
    | .next sh => loop turns sh

/-- What a user sees first. -/
def banner : String := "Type 'help' for available commands\n\n"

/-- Read and run commands to the end. -/
def run (turns : Nat) (sh : Shell) : Act (Option Int) := do
  Jobs.listen
  if sh.isInteractive then
    let _ ← Act.tell .out banner
  sh.loop turns

/-- Run a single line. -/
def runCommand (line : String) (sh : Shell) : Act Int := do
  Jobs.listen
  let (status, session) ← sh.session.runLine line .inherit
  { sh with session }.finish status

end Shell

end Conch
