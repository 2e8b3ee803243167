import Conch.Interpreter
import Conch.Job.Supervise
import Conch.Machine.Answer

/-!
# Running on the machine

At every step the task that is ready first, and does not have to wait, makes one request.  The
clock moves on to the time at which that task was ready.

## Main definitions

* `Conch.Body.act` — what a body does.
* `Machine.stepTask` — one step of a task.
* `Machine.run` — run the main thread of the shell to its end.
-/

set_option autoImplicit false

namespace Conch

open Act (ask)

/-- What a body does. -/
def Body.act : Body → Act Int
  | .stage part streams s => do
    return (← Stage.runInside part.action true part.runBody streams s).1
  | .worker id line stages streams s => do
    let (code, _) ← Pipeline.runStages line (Stage.runLastBody stages) stages streams s
    Act.jobs (.finish id code)
    return 0
  | .monitor id leader siblings helpers => Jobs.monitor id leader siblings helpers
  | .feed p text => do
    let _ ← Act.tell (.pipe p) text
    return 0
  | .listener => Jobs.listener
  | .intervention i => Jobs.intervene i
  | .program c s => Program.run c s

namespace Machine

/-- The time at which a task that has asked for something goes on. -/
def after (m : Machine) (pid : Option Pid) : Call → Nat
  | .sleep time => m.clock + time
  | c => m.clock + cost pid c

/-- Put a task back, to go on later.  A task that is gone stays away. -/
def putBack (m : Machine) (id : TaskId) (act : Act Int) (readyAt : Nat) : Machine :=
  { m with tasks := m.tasks.map fun t => if t.id = id then { t with act, readyAt } else t }

/-- A task has ended: a process with it, a thread by leaving its result. -/
def retire (m : Machine) (t : Task) (code : Int) : Machine :=
  match t.pid with
  | some pid => m.finishProcess pid (.exited (code % 256))
  | none => { m with
      tasks := m.tasks.filter (·.id ≠ t.id)
      holds := m.holds.filter (·.1 ≠ t.id)
      results := (t.id, code) :: m.results }

/-- A task can go on: its process, if it has one, is running. -/
def isRunnable (m : Machine) (t : Task) : Bool :=
  match t.pid with
  | none => true
  | some pid => (m.process? pid).any (·.phase = .running)

/-- What is left of a request that can be met in part, and the machine behind that part. -/
def advance? {α : Type} (m : Machine) : Act α → Option (Act α × Machine)
  | .call (.write dst data) next => (m.part? dst data).map fun (rest, m) =>
      (.call (.write dst rest) next, m)
  | _ => none

/-- One step of a task; nothing if it has to wait. -/
def stepTask (m : Machine) (t : Task) : Option Machine :=
  let m := { m with clock := max m.clock t.readyAt }
  match m.advance? t.act with
  | some (act, m) => some (m.putBack t.id act (m.clock + 1))
  | none => match t.act with
  | .done code => some (m.retire t code)
  | .call (.become b) _ =>
    let m := match b with
      | .program .. => m.holdOnly t.id b.ends
      | _ => m
    some (m.putBack t.id b.act (m.clock + 1))
  | .call c next => (m.answer Body.act ⟨t.id, t.pid⟩ c).map fun (r, m) =>
      m.putBack t.id (next r) (m.after t.pid c)

/-- What a turn leads to. -/
inductive Turn (α : Type) where
  /-- The main thread has ended. -/
  | over (a : α) (m : Machine)
  /-- Somebody has made a step; what is left of the main thread. -/
  | next (main : Act α) (m : Machine)
  /-- Everybody waits. -/
  | stuck

/-- One step of the main thread; nothing if it has to wait. -/
def stepMain {α : Type} (m : Machine) (main : Act α) : Option (Turn α) :=
  let m := { m with clock := max m.clock m.mainReady }
  match m.advance? main with
  | some (main, m) => some (.next main { m with mainReady := m.clock + 1 })
  | none => match main with
  | .done a => some (.over a m)
  | .call (.become _) _ => none
  | .call c next => (m.answer Body.act ⟨mainTask, none⟩ c).map fun (r, m) =>
      .next (next r) { m with mainReady := m.after none c }

/-- The tasks that can go on, in the order in which they are ready.  `none` is the main
thread. -/
def queue (m : Machine) : List (Option Task) :=
  let ready (t : Option Task) : Nat := max m.clock ((t.map Task.readyAt).getD m.mainReady)
  (none :: (m.tasks.filter m.isRunnable).map some).mergeSort fun a b => ready a ≤ ready b

/-- The first step that somebody in the queue can make. -/
def stepFirst {α : Type} (m : Machine) (main : Act α) : List (Option Task) → Turn α
  | [] => .stuck
  | none :: rest => match m.stepMain main with
    | some turn => turn
    | none => m.stepFirst main rest
  | some t :: rest => match m.stepTask t with
    | some m => .next main m
    | none => m.stepFirst main rest

/-- Run the main thread of the shell to its end, in at most `fuel` steps.  Nothing comes back if
the steps do not suffice or everybody waits. -/
def run {α : Type} : (fuel : Nat) → Act α → Machine → Option α × Machine
  | 0, _, m => (none, m)
  | fuel + 1, main, m => match m.stepFirst main m.queue with
    | .over a m => (some a, m)
    | .next main m => run fuel main m
    | .stuck => (none, m)

end Machine

end Conch
