import Conch.FileTree.Edit
import Conch.Job.Table
import Conch.Pipeline.Stage
import Conch.Program.State
import Conch.Signal

/-!
# Requests to the system

Whatever runs, a thread of the shell or a process, is a finite tree of requests: each node asks
the system for something and goes on with the answer.  What goes on for ever, or runs beside the
one who starts it, is a `Body`: data that stands for such a tree.  So a tree can be followed
without knowing the system, and the system need not know what the trees are for.

## Main definitions

* `Conch.Body` — what a thread or a process runs.
* `Conch.Call` — a request, and `Conch.Reply` — the type of its answer.
* `Conch.Act` — a tree of requests that ends in a value; it is a monad.
-/

set_option autoImplicit false

namespace Conch

open Text (Octets)

/-- What somebody does to the jobs of a shell while one of its lines runs: wait for a moment, let
some time pass, and send signals. -/
structure Intervention where
  /-- The job to wait for; without a status, wait for a process in the foreground. -/
  job : Option JobId
  status : Option JobStatus
  /-- How long to wait then, in milliseconds. -/
  delay : Nat
  /-- A signal to the shell. -/
  toShell : Option Signal
  /-- A signal to the leader of the job. -/
  toJob : Option Signal
  /-- A signal to every process in the foreground. -/
  toForeground : Option Signal
  deriving Repr, Inhabited

/-- What a thread of the shell or a process runs. -/
inductive Body where
  /-- A stage of a pipeline that the shell runs itself, beside the other stages. -/
  | stage (stage : Stage) (streams : Streams) (session : Session)
  /-- A pipeline in the background that the shell runs itself. -/
  | worker (id : JobId) (line : String) (stages : List Stage) (streams : Streams)
      (session : Session)
  /-- The wait for the leader of a job; siblings and helpers are collected behind it. -/
  | monitor (id : JobId) (leader : Pid) (siblings : List Pid) (helpers : List Helper)
  /-- Write a text into a pipe. -/
  | feed (p : PipeId) (text : String)
  /-- Route the signals that the shell gets. -/
  | listener
  /-- Somebody acts on the jobs. -/
  | intervention (i : Intervention)
  /-- A program in a process. -/
  | program (context : Program.Context) (state : Program.State)
  deriving Inhabited

/-- What everybody can see at a moment. -/
structure View where
  tree : FileTree
  /-- The shell's own process. -/
  self : Pid
  /-- The directory in which the shell was started. -/
  start : String
  deriving Repr, Inhabited

/-- A program to start. -/
structure Spawn where
  argv : List Octets
  /-- The entries `name=value` of its environment. -/
  env : List Octets
  cwd : String
  streams : Streams
  /-- `some none` for a new process group, `some (some g)` to join one. -/
  group : Option (Option Pid)
  /-- A file that is no program is taken for a script, also at a path. -/
  asScript : Bool
  deriving Repr, Inhabited

/-- Whom a signal is for. -/
inductive Target where
  | group (g : Pid)
  /-- Processes; what counts is whether the first can be reached. -/
  | processes (pids : List Pid)
  deriving DecidableEq, Repr, Inhabited

/-- How to reach a job: its process group if it has one, else its processes. -/
def JobTarget.toTarget (t : JobTarget) : Target :=
  match t.group with
  | some g => .group g
  | none => .processes t.pids

/-- A request to the system. -/
inductive Call where
  | view
  | openInput (path : String)
  /-- Open a file for writing; missing directories above it are made. -/
  | openOutput (path : String) (append : Bool)
  /-- Read at most `limit` bytes; nothing means the end. -/
  | read (src : Source) (limit : Nat)
  /-- Read up to the end of a line. -/
  | readLine (src : Source)
  | write (dst : Sink) (data : Octets)
  | edit (e : Edit)
  /-- Make a pipe, both ends of which the caller holds. -/
  | pipe
  | close (e : End)
  /-- Start a program. -/
  | spawn (s : Spawn)
  /-- Start a process that goes on with a script. -/
  | clone (c : Program.Context) (s : Program.State)
  /-- Start a thread. -/
  | fork (b : Body)
  /-- Go on as something else. -/
  | become (b : Body)
  | join (h : Helper)
  /-- The status with which a thread has ended. -/
  | result (t : TaskId)
  /-- Wait for the end of a process. -/
  | waitExit (pid : Pid)
  /-- Wait until a process ends or stops; `none` tells that it has stopped.  The end by a signal
  without a name counts as a failure. -/
  | waitPause (pid : Pid)
  /-- Wait for any change of a process; again a signal without a name counts as a failure. -/
  | waitChange (pid : Pid)
  /-- Look at the jobs without a monitor. -/
  | reap
  | kill (t : Target) (s : Signal)
  /-- What the calling process does about a signal from now on. -/
  | dispose (s : Signal) (d : Signal.Disposition)
  /-- The signals that the calling process has caught since it asked last. -/
  | caught
  | job (op : JobTable.Op)
  /-- Let some microseconds pass. -/
  | sleep (time : Nat)
  /-- Start or stop to take the signals that the shell gets; whether that is a change. -/
  | listen (on : Bool)
  /-- The next signal that the shell has got. -/
  | nextSignal
  /-- Send a signal to the shell. -/
  | raise (s : Signal)

/-- The type of the answer to a request. -/
@[reducible] def Reply : Call → Type
  | .view => View
  | .openInput _ => Except IoError FileId
  | .openOutput .. => Except IoError FileId
  | .read .. => Except Errno Octets
  | .readLine _ => Except Errno Octets
  | .write .. => Except Errno Unit
  | .edit _ => Except Errno Unit
  | .pipe => PipeId
  | .close _ => Unit
  | .spawn _ => Except IoError (Pid × List Helper)
  | .clone .. => Pid
  | .fork _ => TaskId
  | .become _ => Empty
  | .join _ => Unit
  | .result _ => Option Int
  | .waitExit _ => Except Errno Ending
  | .waitPause _ => Except Errno (Option Int)
  | .waitChange _ => Except Errno Transition
  | .reap => Unit
  | .kill .. => Except Errno Unit
  | .dispose .. => Unit
  | .caught => List Signal
  | .job op => op.Result
  | .sleep _ => Unit
  | .listen _ => Bool
  | .nextSignal => Signal
  | .raise _ => Unit

/-- A tree of requests that ends in a value. -/
inductive Act (α : Type) where
  | done (a : α)
  | call (c : Call) (next : Reply c → Act α)

namespace Act

/-- Go on behind the end of a tree. -/
def bind {α β : Type} : Act α → (α → Act β) → Act β
  | .done a, f => f a
  | .call c next, f => .call c fun r => (next r).bind f

instance : Monad Act where
  pure := .done
  bind := .bind

/-- A single request. -/
def ask (c : Call) : Act (Reply c) := .call c .done

/-- Write a text. -/
def tell (dst : Sink) (text : String) : Act (Except Errno Unit) :=
  ask (.write dst (Octets.ofText text))

/-- A step on the table of jobs. -/
def jobs (op : JobTable.Op) : Act op.Result := .call (.job op) .done

/-- Go on as something else. -/
def become {α : Type} (b : Body) : Act α := .call (.become b) fun e => nomatch e

end Act

end Conch
