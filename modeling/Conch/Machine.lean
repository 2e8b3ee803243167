import Conch.Act

/-!
# A machine that runs a shell

The machine holds what the shell and its processes share: files, pipes, captured texts, the
table of jobs, and the processes with their signals.  Time is counted in microseconds; a task
that has done something goes on a little later, so the order of events follows from the machine
alone.

## Main definitions

* `Conch.Task` — a thread of the shell, or the program of a process.
* `Conch.Process` — a process as its parent sees it.
* `Conch.Machine` — the state of everything.
* `Machine.finishProcess`, `Machine.deliver` — how processes end, stop and go on.
-/

set_option autoImplicit false

namespace Conch

open Text (Octets)

/-- A thread of the shell, or the program of a process. -/
structure Task where
  id : TaskId
  /-- The process whose program it is; none for a thread of the shell. -/
  pid : Option Pid
  act : Act Int
  /-- When it goes on. -/
  readyAt : Nat

/-- What a process is doing. -/
inductive Phase where
  | running
  | stopped
  /-- It has ended, and its parent has not asked yet. -/
  | ended (e : Ending)
  deriving DecidableEq, Repr, Inhabited

/-- A process as its parent sees it. -/
structure Process where
  pid : Pid
  group : Pid
  /-- The parent, as long as it lives. -/
  parent : Option Pid
  phase : Phase
  /-- A stop or a continuation that the parent has not asked about. -/
  news : Option Transition
  /-- Signals that wait until the process goes on. -/
  pending : List Signal
  ignored : List Signal
  /-- Signals that the process catches. -/
  catches : List Signal
  /-- Signals that it has caught and not looked at, oldest first. -/
  arrived : List Signal
  /-- Signals that never reach the process. -/
  blocked : List Signal
  deriving DecidableEq, Repr, Inhabited

/-- The process with another disposition of a signal. -/
def Process.dispose (p : Process) (s : Signal) (d : Signal.Disposition) : Process :=
  let ignored := p.ignored.filter (· ≠ s)
  let catches := p.catches.filter (· ≠ s)
  match d with
  | .default => { p with ignored, catches }
  | .ignored => { p with ignored := s :: ignored, catches }
  | .caught => { p with ignored, catches := s :: catches }

/-- An opened file. -/
structure Opened where
  node : NodeId
  offset : Nat
  append : Bool
  deriving DecidableEq, Repr, Inhabited

/-- The state of everything. -/
structure Machine where
  tree : FileTree
  /-- The shell's own process. -/
  self : Pid
  /-- The directory in which the shell was started. -/
  start : String
  /-- What is left of the shell's standard input. -/
  input : Octets
  /-- What the shell's standard output has got. -/
  out : Octets
  /-- What the shell's standard error has got. -/
  err : Octets
  /-- The time in microseconds. -/
  clock : Nat
  /-- When the main thread of the shell goes on. -/
  mainReady : Nat
  tasks : List Task
  /-- The ends that tasks keep open. -/
  holds : List (TaskId × End)
  /-- How threads have ended. -/
  results : List (TaskId × Int)
  processes : List Process
  /-- What is in the pipes. -/
  pipes : List (PipeId × Octets)
  files : List (FileId × Opened)
  /-- What has been captured. -/
  buffers : List (BufferId × Octets)
  jobs : JobTable
  /-- Since when the listener has waited for a signal, if the shell takes signals. -/
  listening : Option Nat
  /-- Signals that the shell has got and not taken yet. -/
  signals : List Signal
  /-- The next number for a task, a pipe, a file or a connection. -/
  fresh : Nat
  nextPid : Pid

namespace Machine

/-- A machine with files on which nothing runs. -/
def new (tree : FileTree) (self : Pid) (start : String) : Machine :=
  { tree, self, start, input := "", out := "", err := "", clock := 0, mainReady := 0, tasks := [],
    holds := [], results := [], processes := [], pipes := [], files := [], buffers := [],
    jobs := .empty, listening := none, signals := [], fresh := 1, nextPid := 1001 }

/-- The number of the main thread, which is no task of its own. -/
def mainTask : TaskId := 0

/-! ## Tables -/

/-- Set an entry of a table. -/
def assign {α : Type} (table : List (Nat × α)) (key : Nat) (value : α) : List (Nat × α) :=
  (key, value) :: table.filter (·.1 ≠ key)

/-- Somebody keeps an end open. -/
def isHeld (m : Machine) (e : End) : Bool := m.holds.any (·.2 = e)

/-- Remember the ends that a task keeps open. -/
def hold (m : Machine) (t : TaskId) (ends : List End) : Machine :=
  { m with holds := ends.map (t, ·) ++ m.holds }

/-- A task keeps these ends open and no others. -/
def holdOnly (m : Machine) (t : TaskId) (ends : List End) : Machine :=
  { m with holds := ends.map (t, ·) ++ m.holds.filter (·.1 ≠ t) }

/-- A task closes an end. -/
def release (m : Machine) (t : TaskId) (e : End) : Machine :=
  { m with holds := m.holds.filter (· ≠ (t, e)) }

/-- A new number. -/
def newId (m : Machine) : Nat × Machine := (m.fresh, { m with fresh := m.fresh + 1 })

/-! ## Processes -/

/-- The process with a number. -/
def process? (m : Machine) (pid : Pid) : Option Process := m.processes.find? (·.pid = pid)

/-- Change a process. -/
def updateProcess (m : Machine) (pid : Pid) (f : Process → Process) : Machine :=
  { m with processes := m.processes.map fun p => if p.pid = pid then f p else p }

/-- The signals that a shell with a listener takes.  Processes that it starts meanwhile do not
get them. -/
def handledSignals : List Signal := [.interrupt, .terminate, .child, .resume, .terminalStop]

/-- The shell gets a signal; equal signals count once. -/
def notify (m : Machine) (s : Signal) : Machine :=
  if m.listening.isSome && s ∈ handledSignals && s ∉ m.signals then
    { m with signals := s :: m.signals }
  else m

/-- The shell is told that one of its processes has changed. -/
def notifyParent (m : Machine) (p : Process) : Machine :=
  if p.parent = some m.self then m.notify .child else m

/-- Forget processes that have ended and have no parent. -/
def dropOrphans (m : Machine) : Machine :=
  { m with processes := m.processes.filter fun p => match p.parent, p.phase with
      | none, .ended _ => false
      | _, _ => true }

/-- A process ends: its task is gone, it closes what it held, and its children lose their
parent. -/
def finishProcess (m : Machine) (pid : Pid) (e : Ending) : Machine :=
  match m.process? pid with
  | none => m
  | some p =>
    let gone := (m.tasks.filter (·.pid = some pid)).map Task.id
    let m := { m with
      tasks := m.tasks.filter (·.pid ≠ some pid)
      holds := m.holds.filter (·.1 ∉ gone)
      processes := m.processes.map fun (q : Process) =>
        if q.pid = pid then { q with phase := .ended e, news := none }
        else if q.parent = some pid then { q with parent := none }
        else q }
    (m.notifyParent p).dropOrphans

/-- A process stops. -/
def stopProcess (m : Machine) (p : Process) : Machine :=
  (m.updateProcess p.pid ({ · with phase := .stopped, news := some .stopped })).notifyParent p

/-- A process that has stopped goes on, unless a signal that has waited ends it. -/
def resumeProcess (m : Machine) (p : Process) : Machine :=
  if p.phase ≠ .stopped then m
  else
    let m := (m.updateProcess p.pid
      ({ · with phase := .running, news := some .continued })).notifyParent p
    match p.pending.find? (· ∉ p.blocked) with
    | some s => m.finishProcess p.pid (.killed s)
    | none => m

/-- A process gets a signal. -/
def deliver (s : Signal) (m : Machine) (pid : Pid) : Machine :=
  if pid = m.self then m.notify s
  else match m.process? pid with
  | none => m
  | some p => match p.phase, s with
    | .ended _, _ => m
    | _, .kill => m.finishProcess pid (.killed s)
    | _, .resume => m.resumeProcess p
    | .running, .stop => m.stopProcess p
    | phase, _ =>
      if s ∈ p.ignored || s ∈ p.blocked then m
      else if s ∈ p.catches then
        m.updateProcess pid fun p => { p with arrived := p.arrived ++ [s] }
      else match s.effect, phase with
        | .terminate, .running => m.finishProcess pid (.killed s)
        | .terminate, _ => m.updateProcess pid fun p => { p with pending := p.pending ++ [s] }
        | .stop, .running => m.stopProcess p
        | _, _ => m

/-- Send a signal; whether it could be sent. -/
def send (m : Machine) (t : Target) (s : Signal) : Except Errno Unit × Machine :=
  let reach (pid : Pid) : Bool := pid = m.self || (m.process? pid).isSome
  match t with
  | .group g =>
    let members := (m.processes.filter (·.group = g)).map Process.pid
    if members.isEmpty then (.error .noProcess, m) else (.ok (), members.foldl (deliver s) m)
  | .processes pids =>
    (if pids.head?.all reach then .ok () else .error .noProcess, pids.foldl (deliver s) m)

/-! ## Waiting for processes -/

/-- What there is to learn about a child. -/
inductive Report where
  | ended (e : Ending)
  /-- It has stopped or gone on. -/
  | changed (t : Transition)
  deriving DecidableEq, Repr

/-- What a parent learns about a child: its end, which makes it forget the child, or news that it
asks about.  Nothing if there is nothing to learn. -/
def inspect (m : Machine) (parent pid : Pid) (asks : Transition → Bool) :
    Except Errno (Option Report) × Machine :=
  match m.process? pid with
  | none => (.error .noChild, m)
  | some p =>
    if p.parent ≠ some parent then (.error .noChild, m)
    else match p.phase, p.news with
      | .ended e, _ =>
        (.ok (some (.ended e)), { m with processes := m.processes.filter (·.pid ≠ pid) })
      | _, some t =>
        if asks t then (.ok (some (.changed t)), m.updateProcess pid ({ · with news := none }))
        else (.ok none, m)
      | _, none => (.ok none, m)

/-- A report as job control takes it: it cannot tell a signal without a name. -/
def Report.transition : Report → Except Errno Transition
  | .changed t => .ok t
  | .ended e => match e.named? with
    | some code => .ok (.exited code)
    | none => .error .invalid

/-- What job control learns about a child of the shell. -/
def observe (m : Machine) (parent pid : Pid) (asks : Transition → Bool) :
    Except Errno (Option Transition) × Machine :=
  match m.inspect parent pid asks with
  | (.ok (some r), m) => (r.transition.map some, m)
  | (.ok none, m) => (.ok none, m)
  | (.error e, m) => (.error e, m)

/-- Look at one job that nobody waits for. -/
def settleOne (m : Machine) (job : JobId × Pid) : Machine :=
  let (seen, m) := m.observe m.self job.2 fun _ => true
  { m with jobs := m.jobs.settle job.1 seen }

/-- Look at all jobs that nobody waits for. -/
def reap (m : Machine) : Machine := m.jobs.unattended.foldl settleOne m

end Machine

end Conch
