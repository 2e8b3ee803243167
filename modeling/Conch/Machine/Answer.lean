import Conch.Machine.Stream
import Conch.Program

/-!
# What the machine answers

Every request of a task is answered in one step, or the task has to wait.

## Main definitions

* `Conch.Actor` — who asks.
* `Machine.spawn`, `Machine.clone` — new processes.
* `Machine.answer` — the answer to a request.
-/

set_option autoImplicit false

namespace Conch

/-- Who asks: a task, and its process if it is not a thread of the shell. -/
structure Actor where
  task : TaskId
  pid : Option Pid
  deriving DecidableEq, Repr, Inhabited

/-- The streams that a body keeps open. -/
def Body.ends : Body → List End
  | .stage _ streams _ => streams.ends
  | .worker _ _ _ streams _ => streams.ends
  | .feed p _ => [.writer p]
  | .program c _ => c.streams.ends
  | .monitor .. | .listener | .intervention _ => []

namespace Machine

/-! ## Time -/

/-- How long a new process takes to start its program, in microseconds. -/
def startupTime : Nat := 900

/-- How long a new thread takes to start. -/
def threadTime : Nat := 60

/-- How long the one who asks is busy with a request. -/
def cost (pid : Option Pid) : Call → Nat
  | .spawn _ => 800
  | .clone .. => 400
  | .fork _ => 30
  | _ => if pid.isSome then 20 else 2

/-- How long the listener waits for a signal before it looks whether it should stop. -/
def listenInterval : Nat := 100000

/-! ## New tasks -/

/-- Start a task that keeps ends open. -/
def addTask (m : Machine) (pid : Option Pid) (act : Act Int) (delay : Nat) (ends : List End) :
    TaskId × Machine :=
  let (id, m) := m.newId
  let t : Task := { id, pid, act, readyAt := m.clock + delay }
  (id, { m with tasks := m.tasks ++ [t] }.hold id ends)

/-- The sink through which a process writes: a captured text gets a connection of its own. -/
def connect (m : Machine) : Sink → Sink × List Helper × Machine
  | .capture b =>
    let (c, m) := m.newId
    (.channel b c, [.channel c], m)
  | s => (s, [], m)

/-- Put a new process beside the others; it inherits from the process that starts it. -/
def addProcess (m : Machine) (who : Actor) (group : Option (Option Pid)) : Pid × Machine :=
  let pid := m.nextPid
  let parent := who.pid.bind m.process?
  let inherited := (parent.map Process.group).getD m.self
  let p : Process :=
    { pid
      group := match group with
        | none => inherited
        | some g => g.getD pid
      parent := some (who.pid.getD m.self)
      phase := .running
      news := none
      pending := []
      ignored := (parent.map Process.ignored).getD []
      catches := []
      arrived := []
      blocked := match parent with
        | some q => q.blocked
        | none => if m.listening.isSome then handledSignals else [] }
  (pid, { m with processes := m.processes ++ [p], nextPid := pid + 1 })

/-- Start a program. -/
def spawn (m : Machine) (who : Actor) (s : Spawn) :
    Except IoError (Pid × List Helper) × Machine :=
  match Program.resolve m.tree s.asScript s.cwd s.env s.argv with
  | .error e => (.error e, m)
  | .ok image =>
    let (pid, m) := m.addProcess who s.group
    let (stdout, h₁, m) := m.connect s.streams.stdout
    let (stderr, h₂, m) := m.connect s.streams.stderr
    let streams := { s.streams with stdout, stderr }
    let c : Program.Context := ⟨pid, image.argv, s.env, s.cwd, streams⟩
    let (_, m) := m.addTask (some pid) (Program.run c (.start image.name)) startupTime streams.ends
    (.ok (pid, h₁ ++ h₂), m)

/-- Start a process that goes on with a script. -/
def clone (m : Machine) (who : Actor) (c : Program.Context) (s : Program.State) : Pid × Machine :=
  let (pid, m) := m.addProcess who none
  let c := { c with pid }
  let (_, m) := m.addTask (some pid) (Program.run c s) startupTime c.streams.ends
  (pid, m)

/-! ## Answers -/

/-- The next signal to take: the one with the lowest number. -/
def nextSignal? (m : Machine) : Option (Signal × Machine) :=
  match Signal.named.find? (· ∈ m.signals) with
  | none => none
  | some s => some (s,
      { m with signals := m.signals.filter (· ≠ s), listening := m.listening.map fun _ => m.clock })

/-- Start or stop to take signals.  Whoever stops it waits for the listener to notice. -/
def setListening (m : Machine) (on : Bool) : Machine :=
  if on then { m with listening := some (m.listening.getD m.clock) }
  else match m.listening with
    | none => m
    | some since =>
      let rounds := (m.clock - since) / listenInterval + 1
      { m with listening := none, signals := [], clock := since + rounds * listenInterval }

/-- The answer to a request, and the machine behind it; nothing while the one who asks has to
wait.  `body` tells what a thread runs. -/
def answer (body : Body → Act Int) (who : Actor) (m : Machine) :
    (c : Call) → Option (Reply c × Machine)
  | .view => some (⟨m.tree, m.self, m.start⟩, m)
  | .openInput path => some (m.openInput path)
  | .openOutput path append => some (m.openOutput path append)
  | .read src limit => m.readBy src (takeUpTo limit)
  | .readLine src => m.readBy src takeLine
  | .write dst text => m.write who.pid dst text
  | .edit e =>
    let (r, tree) := m.tree.apply e
    some (r, { m with tree })
  | .pipe =>
    let (p, m) := m.newId
    some (p, m.hold who.task [.reader p, .writer p])
  | .close e => some ((), m.release who.task e)
  | .spawn s => some (m.spawn who s)
  | .clone c s => some (m.clone who c s)
  | .fork b => some (m.addTask none (body b) threadTime b.ends)
  | .become _ => none
  | .join (.thread t) => if m.tasks.any (·.id = t) then none else some ((), m)
  | .join (.channel c) => if m.isHeld (.channel c) then none else some ((), m)
  | .result t => some (m.results.lookup t, m)
  | .waitExit pid => match m.inspect (who.pid.getD m.self) pid fun _ => false with
    | (.ok (some (.ended e)), m) => some (.ok e, m)
    | (.ok _, _) => none
    | (.error e, m) => some (.error e, m)
  | .waitPause pid => match m.observe (who.pid.getD m.self) pid (· = .stopped) with
    | (.ok (some (.exited code)), m) => some (.ok (some code), m)
    | (.ok (some _), m) => some (.ok none, m)
    | (.ok none, _) => none
    | (.error e, m) => some (.error e, m)
  | .waitChange pid => match m.observe (who.pid.getD m.self) pid fun _ => true with
    | (.ok (some t), m) => some (.ok t, m)
    | (.ok none, _) => none
    | (.error e, m) => some (.error e, m)
  | .reap => some ((), m.reap)
  | .kill t s => some (m.send t s)
  | .dispose s d => match who.pid with
    | none => some ((), m)
    | some pid => some ((), m.updateProcess pid (·.dispose s d))
  | .caught => match who.pid.bind m.process? with
    | none => some ([], m)
    | some p => some (p.arrived, m.updateProcess p.pid ({ · with arrived := [] }))
  | .job op => (m.jobs.apply op).map fun (r, jobs) => (r, { m with jobs })
  | .sleep _ => some ((), m)
  | .listen on => some (m.listening.isSome != on, m.setListening on)
  | .nextSignal => m.nextSignal?
  | .raise s => some ((), m.notify s)

end Machine

end Conch
