import Conch.Act
import Conch.Name
import Conch.Program.Executable
import Conch.Program.Script.Word
import Conch.Program.Text

/-!
# Running scripts

The installed shell runs scripts.  The last command of a script takes over its process, unless
something is left to do behind it.

## Main definitions

* `Conch.Program.Script.builtin` — the commands that the installed shell runs itself.
* `Conch.Program.Script.runList` — run a list of commands.
* `Conch.Program.Script.runText` — run a text as a script.
-/

set_option autoImplicit false

namespace Conch.Program.Script

open Act (ask become)
open Text (Octets)

/-! ## Messages and streams -/

/-- A message of the script. -/
def complain (s : ScriptState) (streams : Streams) (message : Octets) : Act Unit := do
  let _ ← ask (.write streams.stderr (s.name ++ ": " ++ toString s.line ++ ": " ++ message ++ "\n"))

/-- The streams with another sink for a numbered stream. -/
def withSink (streams : Streams) (stream : Nat) (sink : Sink) : Streams :=
  match stream with
  | 1 => { streams with stdout := sink }
  | 2 => { streams with stderr := sink }
  | _ => streams

/-- Open a file for writing, in a directory that has to exist. -/
def openSink (s : ScriptState) (name : Octets) (append : Bool) : Act (Except Octets Sink) := do
  let path := Path.ofOctets s.cwd name
  let v ← ask .view
  if ((Path.parent? path).map v.tree.pathIsDirectory) = some true then
    match ← ask (.openOutput path append) with
    | .ok f => return .ok (.file f)
    | .error e => return .error ("cannot create " ++ name ++ ": " ++ e.reason)
  else return .error ("cannot create " ++ name ++ ": Directory nonexistent")

/-- Open the file of one redirection. -/
def redirect (s : ScriptState) (streams : Streams) (d : StreamRedirect) :
    Act (Except Octets Streams) := do
  let name := single s d.word
  match d.kind with
  | .input => match ← ask (.openInput (Path.ofOctets s.cwd name)) with
    | .ok f => return .ok { streams with stdin := .file f }
    | .error _ => return .error ("cannot open " ++ name ++ ": No such file")
  | .output => return (← openSink s name false).map (withSink streams d.stream)
  | .append => return (← openSink s name true).map (withSink streams d.stream)
  | .duplicate => match name with
    | "1" => return .ok (withSink streams d.stream streams.stdout)
    | "2" => return .ok (withSink streams d.stream streams.stderr)
    | _ => return .ok streams

/-- Open redirections from left to right. -/
def redirectAll (s : ScriptState) (streams : Streams) :
    List StreamRedirect → Act (Except Octets Streams)
  | [] => pure (.ok streams)
  | d :: rest => do
    match ← redirect s streams d with
    | .ok streams => redirectAll s streams rest
    | .error e => return .error e

/-! ## Builtins -/

/-- What comes behind a command. -/
inductive Onward where
  /-- The next command. -/
  | next
  /-- The end of the script. -/
  | leave
  /-- The end of the loop. -/
  | stopLoop
  /-- The next round of the loop. -/
  | nextRound
  deriving DecidableEq, Repr, Inhabited

/-- What a step of a script leads to. -/
structure Flow where
  state : ScriptState
  onward : Onward
  deriving Inhabited

/-- Go on with a status. -/
def proceed (s : ScriptState) (status : Int) : Act Flow := pure ⟨{ s with status }, .next⟩

/-- Write what the command `name` writes, its messages first, and go on with its status. -/
def present (s : ScriptState) (streams : Streams) (name : Octets) (o : Output) : Act Flow := do
  if !o.err.isEmpty then
    let _ ← ask (.write streams.stderr o.err)
  let written ← if o.out.isEmpty then pure (.ok ()) else ask (.write streams.stdout o.out)
  match written with
  | .ok () => proceed s o.code
  | .error _ => complain s streams (name ++ ": " ++ name ++ ": I/O error"); proceed s 1

/-- What `echo` writes: escapes are replaced, and `\c` ends the text. -/
def echoText (args : List Octets) : Octets :=
  let (newline, args) := match args with
    | "-n" :: rest => (false, rest)
    | args => (true, args)
  let (text, stopped) := unescape true 0 (" ".intercalate args).toList
  String.ofList text ++ (if newline && !stopped then "\n" else "")

/-- The signal that a command is told: a number, or a name in any case.  Number zero stands for
no signal. -/
def signal? (text : Octets) : Option Signal :=
  match Text.digitsValue? text.toList with
  | some n => if n = 0 then some (.unnamed 0) else Signal.ofNumber? n
  | none =>
    let name := String.ofList (text.toList.map Char.toUpper)
    Signal.named.find? fun s => s.name = name && s ≠ .stackFault

/-- How `kill` wants to be called. -/
def killUsage : Octets :=
  "kill: Usage: kill [-s sigspec | -signum | -sigspec] [pid | job]... or\nkill -l [exitstatus]"

/-- The processes that arguments of `kill` name, or what is wrong with them. -/
def pidsOf (args : List Octets) : Except Octets (List Pid) :=
  if args.isEmpty then .error killUsage
  else args.mapM fun arg => match Text.digitsValue? arg.toList with
    | some pid => .ok pid
    | none => .error ("kill: Illegal number: " ++ arg)

/-- Signal and processes of `kill`, or what is wrong with its arguments. -/
def killOperands : List Octets → Except Octets (Signal × List Pid)
  | "-s" :: name :: pids => match signal? name with
    | some s => return (s, ← pidsOf pids)
    | none => .error ("kill: invalid signal number or name: " ++ name)
  | arg :: rest => match arg.toList with
    | '-' :: c :: cs => match signal? (String.ofList (c :: cs)) with
      | some s => return (s, ← pidsOf rest)
      | none => .error ("kill: Illegal option -" ++ c.toString)
    | _ => return (.terminate, ← pidsOf (arg :: rest))
  | [] => .error killUsage

/-- Send a signal to processes in turn; those that cannot be reached, and why. -/
def killAll (sig : Signal) : List Pid → Act (List (Pid × Errno))
  | [] => pure []
  | pid :: rest => do
    match ← ask (.kill (.processes [pid]) sig) with
    | .ok () => killAll sig rest
    | .error e => return (pid, e) :: (← killAll sig rest)

/-- Set the names of a line that `read` has read; the last name takes the rest. -/
def readInto (s : ScriptState) : List String → List String → ScriptState
  | [], _ => s
  | [name], words => { s with vars := s.vars.set name (" ".intercalate words) }
  | name :: names, words =>
    readInto { s with vars := s.vars.set name (words.headD "") } names words.tail

/-- Set or only mark variables for programs. -/
def exportOne (s : ScriptState) (arg : String) : ScriptState :=
  match Name.splitAtEquals arg with
  | some (name, value) =>
    { s with vars := s.vars.set name value, exported := name :: s.exported }
  | none => { s with exported := arg :: s.exported }

/-- What the shell says about a process that has ended.  Only signals are worth a word, and
neither interrupts nor broken pipes. -/
def notice? : Ending → Option Octets
  | .exited _ | .killed .interrupt | .killed .pipe => none
  | .killed s => some (s.describe ++ "\n")

/-- Wait for processes; the status of the last one.  What there is to say about them goes to
`notices`. -/
def waitAll (notices : Sink) (status : Int) : List Pid → Act Int
  | [] => pure status
  | pid :: rest => do
    match ← ask (.waitExit pid) with
    | .ok e =>
      match notice? e with
      | some text => let _ ← ask (.write notices text)
      | none => pure ()
      waitAll notices e.status rest
    | .error _ => waitAll notices 127 rest

/-- Wait for processes and say nothing. -/
def waitSilently : List Pid → Act Unit
  | [] => pure ()
  | pid :: rest => do
    let _ ← ask (.waitExit pid)
    waitSilently rest

/-- What the end of the script is called among the signals. -/
def exitTrap : String := "EXIT"

/-- Remember what to do about signals, or at the end; an empty action ignores them, a dash forgets
them. -/
def setTraps (action : Octets) (streams : Streams) (s : ScriptState) : List Octets → Act Flow
  | [] => proceed s 0
  | name :: rest => do
    let remember (key : String) : ScriptState :=
      let others := s.traps.filter (·.1 ≠ key)
      { s with
        traps := if action = "-" || action.isEmpty then others else (key, action) :: others }
    if name = exitTrap || name = "0" then setTraps action streams (remember exitTrap) rest
    else match signal? name with
      | none =>
        let _ ← ask (.write streams.stderr ("trap: " ++ name ++ ": bad trap\n"))
        proceed s 1
      | some sig =>
        ask (.dispose sig (if action = "-" then .default else if action.isEmpty then .ignored
          else .caught))
        setTraps action streams (remember sig.name) rest

/-- A path without dots: `..` takes back the name in front of it, whatever that leads to. -/
def withoutDots (path : String) : String :=
  "/" ++ "/".intercalate ((Path.names path).foldl
    (fun front name => if name = ".." then front.dropLast else front ++ [name]) [])

/-- Move the script to another directory.  A dash stands for the one it has come from, which is
shown then. -/
def changeDir (s : ScriptState) (streams : Streams) (dir : Octets) : Act Flow := do
  let v ← ask .view
  let back := dir = "-"
  let dir := if back then (s.vars.get? "OLDPWD").getD "" else dir
  let path := withoutDots (if dir.isEmpty then s.cwd else Path.ofOctets s.cwd dir)
  if v.tree.pathIsDirectory path then
    let pairs := [("OLDPWD", Octets.ofText s.cwd), ("PWD", Octets.ofText path)]
    let s := { s with
      cwd := path, vars := s.vars.setAll pairs, exported := pairs.map Prod.fst ++ s.exported }
    present s streams "cd" ⟨if back then Octets.ofText path ++ "\n" else "", "", 0⟩
  else
    complain s streams ("cd: can't cd to " ++ dir)
    proceed s 2

/-- The value of a condition as the output of a command. -/
def condition (v : View) (cwd : String) (name : Octets) (args : List Octets) : Output :=
  match Condition.eval v.tree cwd args with
  | .ok true => ⟨"", "", 0⟩
  | .ok false => ⟨"", "", 1⟩
  | .error e => .failure (name ++ ": " ++ e.message) 2

/-- A condition as a command of the script. -/
def runCondition (s : ScriptState) (streams : Streams) (name : Octets) (args : List Octets) :
    Act Flow := do
  let v ← ask .view
  match Condition.eval v.tree s.cwd args with
  | .ok b => proceed s (if b then 0 else 1)
  | .error (.invalidInteger arg) =>
    complain s streams (name ++ ": Illegal number: " ++ arg); proceed s 2
  | .error (.missingAfter arg _) | .error (.unaryExpected arg) | .error (.binaryExpected arg) =>
    complain s streams (name ++ ": " ++ arg ++ ": unexpected operator"); proceed s 2

/-- The commands that the installed shell runs itself; nothing if the name is not one of them. -/
def builtin (s : ScriptState) (streams : Streams) (name : Octets) (args : List Octets) :
    Option (Act Flow) :=
  match name with
  | ":" | "true" => some (proceed s 0)
  | "false" => some (proceed s 1)
  | "echo" => some (present s streams name ⟨echoText args, "", 0⟩)
  | "printf" => some <| match args with
    | [] => do complain s streams "printf: usage: printf format [arg ...]"; proceed s 2
    | fmt :: args => present s streams name (format (fun arg partly => s.name ++ ": " ++
        toString s.line ++ ": printf: " ++ arg ++
        (if partly then ": not completely converted" else ": expected numeric value")) fmt args)
  | "test" => some (runCondition s streams name args)
  | "[" => some (runCondition s streams name args.dropLast)
  | "pwd" => some (present s streams name ⟨Octets.ofText s.cwd ++ "\n", "", 0⟩)
  | "cd" => some (changeDir s streams (args.headD ((s.vars.get? "HOME").getD "")))
  | "exit" => some <| match args with
    | [] => pure ⟨s, .leave⟩
    | arg :: _ => match Text.digitsValue? arg.toList with
      | some n => pure ⟨{ s with status := (n % 256 : Nat) }, .leave⟩
      | none => do
        complain s streams ("exit: Illegal number: " ++ arg)
        return ⟨{ s with status := 2 }, .leave⟩
  | "break" => some (pure ⟨{ s with status := 0 }, .stopLoop⟩)
  | "continue" => some (pure ⟨{ s with status := 0 }, .nextRound⟩)
  | "export" => some (proceed (args.foldl exportOne s) 0)
  | "unset" => some (proceed { s with vars := args.foldl Env.unset s.vars } 0)
  | "shift" => some (proceed { s with args := s.args.tail } 0)
  | "set" => some (proceed (match args with
    | "--" :: args => { s with args }
    | _ => s) 0)
  | "umask" => some (proceed s 0)
  | "trap" => some <| match args with
    | action :: names => setTraps action streams s names
    | [] => proceed s 0
  | "wait" => some do
    if args.isEmpty then
      waitSilently s.background.reverse
      proceed s 0
    else proceed s (← waitAll streams.stderr 0 (args.filterMap fun a => Text.digitsValue? a.toList))
  | "kill" => some do
    match killOperands args with
    | .error message => complain s streams message; proceed s 2
    | .ok (sig, pids) =>
      let refused ← killAll sig pids
      for (_, e) in refused do complain s streams ("kill: " ++ e.describe ++ "\n")
      proceed s (if refused.isEmpty then 0 else 1)
  | "read" => some do
    match ← ask (.readLine streams.stdin) with
    | .ok line =>
      let words := ((line.split fun c => c = ' ' || c = '\t' || c = '\n').toList.map
        (·.toString)).filter (· ≠ "")
      proceed (readInto s (args.filter (· ≠ "-r")) words) (if line.endsWith "\n" then 0 else 1)
    | .error _ => proceed s 1
  | _ => none

/-! ## Programs -/

/-- The environment of a program: the variables that programs see, and those set for it. -/
def environment (s : ScriptState) (vars : List (Octets × Octets)) : List Octets :=
  let seen : Env := ⟨s.vars.pairs.filter fun (name, _) => name ∈ s.exported⟩
  (seen.setAll vars).pairs.map fun (name, value) => name ++ "=" ++ value

/-- What to say about a program that cannot be started, and the status. -/
def refusal (name : Octets) : IoError → Octets × Int
  | .os .noEntry | .os .notDirectory =>
    (name ++ (if name.isEmpty then ": Permission denied" else ": not found"), 127)
  | e => (name ++ ": " ++ e.reason, 126)

/-- Run a program: in a process of its own, or with `tail` in place of the script.  `front`
starts the messages about it, and what the shell says about its end goes to `notices`. -/
def runProgram (c : Context) (tail : Bool) (s : ScriptState) (notices : Sink) (streams : Streams)
    (env : List Octets) (front : Octets) (argv : List Octets) : Act Flow := do
  let refuse (e : IoError) : Act Flow := do
    let (message, status) := refusal (argv.headD "") e
    complain s streams (front ++ message)
    proceed s status
  if tail && s.traps.isEmpty then
    let v ← ask .view
    match resolve v.tree true s.cwd env argv with
    | .ok image =>
      become (.program { c with argv := image.argv, env, cwd := s.cwd, streams }
        (.start image.name))
    | .error e => refuse e
  else match ← ask (.spawn
      { argv, env, cwd := s.cwd, streams, group := none, asScript := true }) with
    | .ok (pid, _) => proceed s (← waitAll notices 0 [pid])
    | .error e => refuse e

/-- How often a pipe is read at most. -/
def maxReads : Nat := 100000

/-- Read a pipe to its end. -/
def readAll (p : PipeId) : (reads : Nat) → Octets → Act Octets
  | 0, data => pure data
  | reads + 1, data => do
    match ← ask (.read (.pipe p) 65536) with
    | .ok "" => return data
    | .ok more => readAll p reads (data ++ more)
    | .error _ => return data

/-- Run a command inside a word in a process of its own: what it writes, and its status. -/
def outputOfCommand (c : Context) (s : ScriptState) (streams : Streams) (text : Octets) :
    Act (Octets × Int) := do
  match parse text with
  | none => return ("", 2)
  | some body =>
    let p ← ask .pipe
    let own := { streams with stdout := .pipe p }
    let pid ← ask (.clone { c with streams := own } (.script body { s with traps := [] }))
    ask (.close (.writer p))
    let out ← readAll p maxReads ""
    ask (.close (.reader p))
    return (out, ← waitAll streams.stderr 0 [pid])

/-- Run the commands inside words; their outputs are kept for the expansion of the words. -/
def substitute (c : Context) (streams : Streams) (s : ScriptState) :
    List Octets → Act ScriptState
  | [] => pure s
  | text :: rest => do
    let (out, status) ← outputOfCommand c s streams text
    substitute c streams { s with outputs := (text, out) :: s.outputs, status } rest

/-! ## Compound commands -/

/-- A list of one pipeline. -/
def listOf (stages : List Stage) : List Entry := [.mk [.mk none false stages] false]

/-- Start the stages of a pipeline in processes of their own, the first reading from `input`. -/
def startStages (c : Context) (streams : Streams) (s : ScriptState) :
    Option PipeId → List Stage → Act (List Pid)
  | _, [] => pure []
  | input, stage :: rest => do
    let next ← if rest.isEmpty then pure none else do
      let p ← ask .pipe
      pure (some p)
    let own : Streams :=
      { stdin := (input.map Source.pipe).getD streams.stdin
        stdout := (next.map Sink.pipe).getD streams.stdout
        stderr := streams.stderr }
    let pid ← ask (.clone { c with streams := own }
      (.script (listOf [stage]) { s with traps := [] }))
    match input with
    | some p => ask (.close (.reader p))
    | none => pure ()
    match next with
    | some p => ask (.close (.writer p))
    | none => pure ()
    return pid :: (← startStages c streams s next rest)

/-- The connector asks for the next pipeline after this status. -/
def wants (connector : Option Connector) (status : Int) : Bool :=
  match connector with
  | none => true
  | some .and => status == 0
  | some .or => status != 0

mutual

/-- Run a list of commands.  With `tail` nothing comes behind it.  `fuel` bounds how many rounds
and levels a script may have. -/
def runList (c : Context) : (fuel : Nat) → List Entry → Bool → Streams → ScriptState → Act Flow
  | 0, _, _, _, s => pure ⟨s, .leave⟩
  | _, [], _, _, s => pure ⟨s, .next⟩
  | fuel + 1, .mk steps background :: rest, tail, streams, s => do
    let f ← if background then do
        let pid ← ask (.clone { c with streams := { streams with stdin := .null } }
          (.script [.mk steps false] { s with traps := [] }))
        proceed { s with background := pid :: s.background } 0
      else runSteps c fuel steps (tail && rest.isEmpty) streams s
    let f ← runTraps c fuel streams f
    match f.onward with
    | .next => runList c fuel rest tail streams f.state
    | _ => return f

/-- Run the pipelines of a chain that are wanted. -/
def runSteps (c : Context) : (fuel : Nat) → List Step → Bool → Streams → ScriptState → Act Flow
  | 0, _, _, _, s => pure ⟨s, .leave⟩
  | _, [], _, _, s => pure ⟨s, .next⟩
  | fuel + 1, .mk connector negated stages :: rest, tail, streams, s =>
    if wants connector s.status then do
      let f ← runStages c fuel stages (tail && rest.isEmpty && !negated) streams s
      match f.onward with
      | .next =>
        let status := if negated then (if f.state.status = 0 then 1 else 0) else f.state.status
        runSteps c fuel rest tail streams { f.state with status }
      | _ => return f
    else runSteps c fuel rest tail streams s

/-- Run a simple command. -/
def runSimple (c : Context) : (fuel : Nat) → Bool → Nat → List String → List StreamRedirect →
    Streams → ScriptState → Act Flow
  | 0, _, _, _, _, _, s => pure ⟨s, .leave⟩
  | fuel + 1, tail, line, words, redirects, streams, s => do
    let s := { s with line, outputs := [] }
    let inner := (words ++ redirects.map StreamRedirect.word).flatMap substitutions
    let s ← substitute c streams s inner
    let isAssignment (w : String) := (Name.splitAssignment w).isSome
    let vars := ((words.takeWhile isAssignment).filterMap Name.splitAssignment).map
      fun (name, value) => (name, single s value)
    let v ← ask .view
    let argv := (words.dropWhile isAssignment).flatMap (fields s v.tree)
    match ← redirectAll s streams redirects with
    | .error message => complain s streams message; proceed s 2
    | .ok own => match argv with
      | [] => proceed { s with vars := s.vars.setAll vars } (if inner.isEmpty then 0 else s.status)
      | "exec" :: argv =>
        if argv.isEmpty then proceed s 0
        else runProgram c true s streams.stderr own (environment s vars) "exec: " argv
      | "eval" :: args => match parse (" ".intercalate args) with
        | some body => runList c fuel body false own s
        | none => complain s own "Syntax error"; proceed s 2
      | name :: args => match s.functions.lookup name, builtin s own name args with
        | some body, _ => do
          let f ← runStages c fuel [body] false own { s with args }
          return { f with state := { f.state with args := s.args } }
        | none, some act => act
        | none, none =>
          runProgram c tail s streams.stderr own (environment s vars) "" (name :: args)

/-- Run a pipeline. -/
def runStages (c : Context) : (fuel : Nat) → List Stage → Bool → Streams → ScriptState → Act Flow
  | 0, _, _, _, s => pure ⟨s, .leave⟩
  | fuel + 1, [.mk form redirects], tail, streams, s => match form with
    | .simple line words => runSimple c fuel tail line words redirects streams s
    | _ => do
      match ← redirectAll s streams redirects with
      | .error message => complain s streams message; proceed s 2
      | .ok streams => runForm c fuel form tail streams s
  | _, stages, _, streams, s => do
    let pids ← startStages c streams s none stages
    proceed s (← waitAll streams.stderr 0 pids)

/-- Run a command that is no simple one. -/
def runForm (c : Context) : (fuel : Nat) → Form → Bool → Streams → ScriptState → Act Flow
  | 0, _, _, _, s => pure ⟨s, .leave⟩
  | fuel + 1, form, tail, streams, s => match form with
    | .simple line words => runSimple c fuel tail line words [] streams s
    | .group body => runList c fuel body tail streams s
    | .subshell body => do
      let pid ← ask (.clone { c with streams } (.script body { s with traps := [] }))
      proceed s (← waitAll streams.stderr 0 [pid])
    | .branch condition body otherwise => do
      let f ← runList c fuel condition false streams s
      match f.onward with
      | .next =>
        if f.state.status = 0 then runList c fuel body tail streams f.state
        else if otherwise.isEmpty then proceed f.state 0
        else runList c fuel otherwise tail streams f.state
      | _ => return f
    | .loop negated condition body => runLoop c fuel negated condition body 0 streams s
    | .each name words body => do
      let s ← substitute c streams { s with outputs := [] } ((words.getD []).flatMap substitutions)
      let v ← ask .view
      let values := match words with
        | some words => words.flatMap (fields s v.tree)
        | none => s.args
      runEach c fuel name values body 0 streams s
    | .choose word arms => do
      let s ← substitute c streams { s with outputs := [] } (substitutions word)
      runArms c fuel (single s word) arms tail streams s
    | .define name body => proceed { s with functions := (name, body) :: s.functions } 0

/-- Run a loop as long as its condition says. -/
def runLoop (c : Context) : (fuel : Nat) → Bool → List Entry → List Entry → Int → Streams →
    ScriptState → Act Flow
  | 0, _, _, _, _, _, s => pure ⟨s, .leave⟩
  | fuel + 1, negated, condition, body, status, streams, s => do
    let f ← runList c fuel condition false streams s
    match f.onward with
    | .leave => return f
    | .stopLoop => proceed f.state 0
    | _ =>
      if (f.state.status == 0) == negated then proceed f.state status
      else
        let f ← runList c fuel body false streams f.state
        match f.onward with
        | .leave => return f
        | .stopLoop => proceed f.state 0
        | _ => runLoop c fuel negated condition body f.state.status streams f.state

/-- Run a loop over values. -/
def runEach (c : Context) : (fuel : Nat) → String → List String → List Entry → Int → Streams →
    ScriptState → Act Flow
  | 0, _, _, _, _, _, s => pure ⟨s, .leave⟩
  | _, _, [], _, status, _, s => proceed s status
  | fuel + 1, name, value :: values, body, _, streams, s => do
    let f ← runList c fuel body false streams { s with vars := s.vars.set name value }
    match f.onward with
    | .leave => return f
    | .stopLoop => proceed f.state 0
    | _ => runEach c fuel name values body f.state.status streams f.state

/-- Run the first arm with a pattern that matches. -/
def runArms (c : Context) : (fuel : Nat) → String → List Arm → Bool → Streams → ScriptState →
    Act Flow
  | 0, _, _, _, _, s => pure ⟨s, .leave⟩
  | _, _, [], _, _, s => proceed s 0
  | fuel + 1, text, .mk patterns body :: arms, tail, streams, s =>
    if patterns.any (matchesWord s · text) then do
      let f ← runList c fuel body tail streams { s with status := 0 }
      return f
    else runArms c fuel text arms tail streams s

/-- Do what the script wants to do about signals that have arrived. -/
def runTraps (c : Context) : (fuel : Nat) → Streams → Flow → Act Flow
  | 0, _, f => pure f
  | fuel + 1, streams, f => do
    if f.state.traps.isEmpty then return f
    match (← ask .caught).filterMap (f.state.traps.lookup ·.name) with
    | [] => return f
    | actions =>
      match parse ("\n".intercalate actions) with
      | none => return f
      | some body =>
        let g ← runList c fuel body false streams f.state
        match g.onward with
        | .leave => return g
        | _ => return ⟨{ g.state with status := f.state.status }, f.onward⟩

end

/-- How many rounds and levels a script may have. -/
def maxRounds : Nat := 10000000

/-- Run a list to its end, and then what the script wants to do at the end; its status. -/
def runToEnd (c : Context) (tail : Bool) (body : List Entry) (s : ScriptState) : Act Int := do
  let f ← runList c maxRounds body tail c.streams s
  match (f.state.traps.lookup exitTrap).bind parse with
  | none => return f.state.status
  | some action =>
    let g ← runList c maxRounds action false c.streams f.state
    return if g.onward = .leave then g.state.status else f.state.status

/-- Run a text as a script; the status of the process. -/
def runText (c : Context) (tail : Bool) (text : Octets) (s : ScriptState) : Act Int := do
  match parse text with
  | some body => runToEnd c tail body s
  | none => complain s c.streams "Syntax error"; return 2

/-- Where a process is: what `PWD` says, if that is an absolute path of its directory. -/
def whereabouts (t : FileTree) (c : Context) (vars : Env) : String :=
  let said := Octets.toText ((vars.get? "PWD").getD "")
  let same := match t.find said true, t.find c.cwd true with
    | .ok i, .ok j => i = j
    | _, _ => false
  if Path.isAbsolute said && same then said else (t.canonical c.cwd).toOption.getD c.cwd

/-- The state at the start of a script.  Of the entries of the environment that set a variable,
the last one with a name counts. -/
def initial (t : FileTree) (c : Context) (name : Octets) (args : List Octets) : ScriptState :=
  let given := c.env.filterMap Name.splitAssignment
  let cwd := whereabouts t c (Env.empty.setAll given)
  let given := given ++ [("PWD", Octets.ofText cwd)]
  { name, line := 1, args, vars := Env.empty.setAll given, exported := given.map Prod.fst
    cwd, status := 0, background := [], self := c.pid, traps := [], outputs := []
    functions := [] }

/-- The installed shell: a script on the command line or in a file. -/
def start (c : Context) : Act Int := do
  let v ← ask .view
  match c.args.dropWhile fun arg => arg.startsWith "-" && arg ≠ "-c" with
  | ["-c"] =>
    let _ ← ask (.write c.streams.stderr (c.called ++ ": 0: -c requires an argument\n"))
    return 2
  | "-c" :: text :: rest =>
    runText c true text (initial v.tree c (rest.headD c.called) rest.tail)
  | path :: args =>
    match v.tree.read? (c.path path) with
    | some text => runText c false text (initial v.tree c path args)
    | none =>
      if v.tree.pathIsDirectory (c.path path) then return 0
      let _ ← ask (.write c.streams.stderr
        (c.called ++ ": 0: cannot open " ++ path ++ ": No such file\n"))
      return 2
  | [] => become (.program c (.gather "sh" ""))

end Conch.Program.Script
