import Conch.Builtin
import Conch.Pipeline.Plan

/-!
# Running a pipeline

All stages are started from left to right before any is waited for; neighbours are linked by
pipes.  A stage that the shell runs itself runs on a thread of its own, unless it is the last
one, which runs on the spot.  Only a pipeline of a single stage works on the session itself; any
other stage works on a copy.

A pipeline in the background runs in a process group of its own.  If the shell has to run one of
its stages, the whole pipeline runs on a thread as a job of the shell itself.

## Main definitions

* `Conch.Stage.runInside` — a stage that the shell runs itself.
* `Conch.Pipeline.launch` — start every stage.
* `Conch.Pipeline.runStages` — start every stage and wait for the pipeline.
* `Conch.Pipeline.execute` — plan and run a pipeline.
-/

set_option autoImplicit false

namespace Conch

open Act (ask jobs)

/-- A nested command, given the streams and the session it runs on. -/
abbrev Nested := Streams → Session → Act (Int × Session)

/-- Tell the user about a failure, as far as possible. -/
def Sink.report (stderr : Sink) (message : String) : Act Unit := do
  let _ ← Act.tell stderr ("rshell: " ++ message ++ "\n")

/-- Close ends that the caller holds. -/
def closeAll : List End → Act Unit
  | [] => pure ()
  | e :: rest => do ask (.close e); closeAll rest

namespace Stage

/-- A source that several commands can share: a given text becomes a pipe with a thread that
fills it.  Also what to close and to wait for in the end. -/
def share : Source → Act (Source × List End × List Helper)
  | .text s => do
    let p ← ask .pipe
    let t ← ask (.fork (.feed p s))
    ask (.close (.writer p))
    return (.pipe p, [.reader p], [.thread t])
  | src => pure (src, [], [])

/-- Run a builtin; what goes wrong is reported under its name. -/
def runBuiltin (b : Builtin) (argv : List String) (streams : Streams) (s : Session) :
    Act (Int × Session) := do
  match ← b.run argv.tail streams s with
  | (.ok code, s) => return (code, s)
  | (.error e, s) =>
    let _ ← Act.tell streams.stderr (b.name ++ ": " ++ e.describe ++ "\n")
    return (1, s)

/-- Run a stage on the calling thread.  With `copied` it works on a copy of the session; so does
a subshell.  `nested` runs the body of a group or subshell. -/
def runInside (action : Action) (copied : Bool) (nested : Nested) (streams : Streams)
    (s : Session) : Act (Int × Session) := do
  match action with
  | .program .. => return (1, s)
  | .builtin b argv =>
    let (code, after) ← runBuiltin b argv streams s
    return (code, if copied then s else after)
  | .assign vars => return (0, if copied then s else s.setVars vars)
  | .nested _ copy =>
    let (stdin, ends, helpers) ← share streams.stdin
    let (code, after) ← nested { streams with stdin } s
    closeAll ends
    Jobs.joinAll helpers
    return (code, if copied || copy then s else after)

end Stage

namespace Pipeline

/-- What has become of a stage. -/
inductive Running where
  | process (pid : Pid)
  | thread (t : TaskId)
  | finished (code : Int)
  deriving DecidableEq, Repr

/-- The stages that have been started, in order. -/
structure Launched where
  stages : List Running
  /-- What moves data for them, threads of stages included. -/
  helpers : List Helper
  /-- The process group that the processes share. -/
  group : Option Pid
  session : Session

namespace Launched

/-- The processes that have been started, in order. -/
def pids (l : Launched) : List Pid :=
  l.stages.filterMap fun
    | .process pid => some pid
    | _ => none

/-- One more stage. -/
def add (l : Launched) (r : Running) (helpers : List Helper) : Launched :=
  { l with stages := l.stages ++ [r], helpers := l.helpers ++ helpers }

end Launched

/-- The words of a program as it is called: a name with a slash counts from the directory of the
session. -/
def called (s : Session) : List String → List String
  | [] => []
  | name :: args => (if name.contains '/' then s.resolve name else name) :: args

/-- Start a program; a given text is fed to it by a thread. -/
def startProgram (argv : List String) (vars : List (String × String)) (streams : Streams)
    (group : Option (Option Pid)) (s : Session) : Act (Except IoError (Pid × List Helper)) := do
  let spawn (stdin : Source) : Spawn :=
    { argv := (called s argv).map Text.Octets.ofText, env := (s.env.setAll vars).entries
      cwd := s.cwd, streams := { streams with stdin }, group, asScript := false }
  match streams.stdin with
  | .text given =>
    let p ← ask .pipe
    let started ← ask (.spawn (spawn (.pipe p)))
    ask (.close (.reader p))
    match started with
    | .error e => ask (.close (.writer p)); return .error e
    | .ok (pid, helpers) =>
      let t ← ask (.fork (.feed p given))
      ask (.close (.writer p))
      return .ok (pid, .thread t :: helpers)
  | stdin => ask (.spawn (spawn stdin))

/-- Start one stage on its streams.  The last stage runs on the spot, if the shell runs it. -/
def launchOne (isolate copied isLast : Bool) (nested : Nested) (stage : Stage)
    (streams : Streams) (l : Launched) : Act Launched := do
  match stage.action with
  | .program argv vars =>
    let group := if isolate then some l.group else none
    match ← startProgram argv vars streams group l.session with
    | .error e =>
      streams.stderr.report (ShellError.execution (argv.headD "") e).describe
      return l.add (.finished 1) []
    | .ok (pid, helpers) =>
      let group := if isolate then some (l.group.getD pid) else l.group
      return { l.add (.process pid) helpers with group }
  | action =>
    if isLast then
      let (code, s) ← Stage.runInside action copied nested streams l.session
      return { l.add (.finished code) [] with session := s }
    else
      let t ← ask (.fork (.stage stage streams l.session))
      return l.add (.thread t) [.thread t]

/-- Start the stages behind `l`, which read from `input` first.  The pipes link neighbours; the
shell closes its own ends of a pipe when the stages beside it have got theirs. -/
def launchFrom (isolate copied : Bool) (nested : Nested) (streams : Streams) :
    List Stage → List PipeId → Option PipeId → Launched → Act Launched
  | [], _, _, l => pure l
  | stage :: rest, pipes, input, l => do
    let supplied : Streams :=
      { stdin := (input.map Source.pipe).getD streams.stdin
        stdout := (pipes.head?.map Sink.pipe).getD streams.stdout
        stderr := streams.stderr }
    let l ← launchOne isolate copied rest.isEmpty nested stage (stage.redirects.apply supplied) l
    closeAll ((input.map End.reader).toList ++ (pipes.head?.map End.writer).toList)
    launchFrom isolate copied nested streams rest pipes.tail pipes.head? l

/-- Make pipes. -/
def makePipes : Nat → Act (List PipeId)
  | 0 => pure []
  | n + 1 => do
    let p ← ask .pipe
    return p :: (← makePipes n)

/-- Start every stage.  With `isolate` the processes share a new process group. -/
def launch (isolate : Bool) (nested : Nested) (stages : List Stage) (streams : Streams)
    (s : Session) : Act Launched := do
  let pipes ← makePipes (stages.length - 1)
  launchFrom isolate (1 < stages.length) nested streams stages pipes none ⟨[], [], none, s⟩

/-- The status of a pipeline: that of its last stage, or with `pipefail` the last one that is
not zero. -/
def exitCode (pipefail : Bool) (codes : List Int) : Int :=
  if pipefail then (codes.filter (· ≠ 0)).getLast?.getD 0 else codes.getLast?.getD 0

/-- The code of each stage, given those of the processes in order.  A code that nobody has
reported counts as 1. -/
def stageCodes : List Running → List Int → Act (List Int)
  | [], _ => pure []
  | .process _ :: rest, codes => do return codes.headD 1 :: (← stageCodes rest codes.tail)
  | .thread t :: rest, codes => do
    let code := (← ask (.result t)).getD 1
    return code :: (← stageCodes rest codes)
  | .finished code :: rest, codes => do return code :: (← stageCodes rest codes)

/-- Start every stage and wait for the pipeline.  In a job of the shell itself the processes
belong to that job, else to the foreground. -/
def runStages (line : String) (nested : Nested) (stages : List Stage) (streams : Streams)
    (s : Session) : Act (Int × Session) := do
  let l ← launch s.job.isSome nested stages streams s
  match l.pids.getLast? with
  | none =>
    Jobs.joinAll l.helpers
    return (exitCode s.pipefail (← stageCodes l.stages []), l.session)
  | some primary =>
    let started : Jobs.Started := ⟨primary, l.pids.dropLast, l.helpers⟩
    let completion ← match s.job with
      | some id => Jobs.runInJob id started
      | none => Jobs.runForeground line started
    match completion with
    | .stopped _ => return (JobTable.stoppedCode, l.session)
    | .exited code siblings =>
      let unknown := List.replicate (started.siblings.length - siblings.length) 1
      let codes := siblings ++ unknown ++ [code]
      return (exitCode s.pipefail (← stageCodes l.stages codes), l.session)

/-- Start a pipeline of programs in the background, announce it and remember its last process.
Without a process there is no job. -/
def startBackground (line : String) (nested : Nested) (stages : List Stage) (streams : Streams)
    (s : Session) : Act Session := do
  let l ← launch true nested stages { streams with stdin := .null } s
  match l.pids.getLast? with
  | none => Jobs.joinAll l.helpers; return s
  | some primary =>
    let id ← Jobs.register line ⟨primary, l.pids.dropLast, l.helpers⟩ .running l.group
    let _ ← Act.tell streams.stdout ("[" ++ toString id ++ "] " ++ toString primary ++ "\n")
    return { s with backgroundPid := some primary }

/-- Run a pipeline on a thread as a job of the shell itself.  It is announced with the shell's
own process. -/
def startWorker (line : String) (stages : List Stage) (streams : Streams) (s : Session) :
    Act Unit := do
  let id ← jobs (.register (.ofWorker line))
  let v ← ask .view
  let _ ← Act.tell streams.stdout ("[" ++ toString id ++ "] " ++ toString v.self ++ "\n")
  let _ ← ask (.fork (.worker id line stages { streams with stdin := .null }
    { s with job := some id }))

/-- Run a pipeline: its status and the session behind it.  `nested` runs the body of the last
element, if that is a group or a subshell. -/
def execute (p : Pipeline) (nested : Nested) (streams : Streams) (s : Session) :
    Act (Int × Session) := do
  match ← Element.planAll s p.elements with
  | .error e => streams.stderr.report e.describe; return (1, s)
  | .ok [] => return (0, s)
  | .ok stages =>
    let line := p.commandLine
    if p.background then
      if stages.all (·.action.isProgram) then
        return (0, ← startBackground line nested stages streams s)
      else
        startWorker line stages streams s
        return (0, s)
    else if s.job.isSome then runStages line nested stages streams s
    else
      let hold ← jobs (.seize none [])
      let r ← runStages line nested stages streams s
      jobs (.yieldBack hold)
      return r

end Pipeline

end Conch
