import Conch.Errno
import Conch.Job

/-!
# The table of jobs

All that the shell knows about its jobs: the jobs by number, the next number, the events that
wait to be reported, and the foreground pointer, which tells whom an interrupt is for.  Every
operation is one step that no other step can interrupt, so the behaviour of any number of
threads is a sequence of operations.

## Main definitions

* `Conch.JobTable` — the table.
* `JobTable.register`, `JobTable.remove` — jobs come and go.
* `JobTable.stopped`, `JobTable.continued`, `JobTable.finish` — what a monitor has seen.
* `JobTable.settle` — what a look at a job without a monitor has seen.
* `JobTable.toForeground`, `JobTable.toBackground`, `JobTable.collect` — `fg` and `bg`.
* `JobTable.seize`, `JobTable.yieldBack` — take the foreground pointer and give it back.
* `JobTable.Op`, `JobTable.apply` — the operations as data.
-/

set_option autoImplicit false

namespace Conch

/-- Whom an interrupt is for: a job, and processes of pipelines that have no number. -/
structure Foreground where
  job : Option JobId
  pids : List Pid
  deriving DecidableEq, Repr, Inhabited

/-- A hold on the foreground pointer. -/
structure Hold where
  /-- The job that this hold has put into the pointer. -/
  job : Option JobId
  pids : List Pid
  /-- The pointer was free before. -/
  owner : Bool
  deriving DecidableEq, Repr, Inhabited

/-- The jobs of a shell. -/
structure JobTable where
  /-- Jobs by number, in increasing order. -/
  jobs : List (JobId × Job)
  foreground : Option Foreground
  /-- The number of the next job. -/
  nextId : JobId
  /-- Events that wait to be reported, oldest first. -/
  events : List JobEvent
  deriving DecidableEq, Repr, Inhabited

/-- How to reach the processes of a job. -/
structure JobTarget where
  group : Option Pid
  pids : List Pid
  deriving DecidableEq, Repr, Inhabited

/-- How to reach the processes of a job. -/
def Job.target (j : Job) : JobTarget := ⟨j.group, j.pids⟩

namespace JobTable

/-- A table without jobs. -/
def empty : JobTable := { jobs := [], foreground := none, nextId := 1, events := [] }

/-! ## Jobs -/

/-- The job with a number. -/
def get? (t : JobTable) (id : JobId) : Option Job := t.jobs.lookup id

/-- Insert into a list by number, in place of an entry with the same number. -/
def insertJob (id : JobId) (j : Job) : List (JobId × Job) → List (JobId × Job)
  | [] => [(id, j)]
  | (i, k) :: rest =>
    if id < i then (id, j) :: (i, k) :: rest
    else if id = i then (id, j) :: rest
    else (i, k) :: insertJob id j rest

/-- Put a job under the next number.  Numbers count up and are words of 32 bits. -/
def register (t : JobTable) (j : Job) : JobId × JobTable :=
  (t.nextId,
    { t with jobs := insertJob t.nextId j t.jobs, nextId := (t.nextId + 1) % (Job.maxId + 1) })

/-- Change the job with a number, if there is one. -/
def update (t : JobTable) (id : JobId) (f : Job → Job) : JobTable :=
  { t with jobs := t.jobs.map fun (i, j) => if i = id then (i, f j) else (i, j) }

/-- Take a job out of the table. -/
def remove (t : JobTable) (id : JobId) : Option Job × JobTable :=
  (t.get? id, { t with jobs := t.jobs.filter fun (i, _) => i ≠ id })

/-- The number of the most recent job. -/
def current (t : JobTable) : Option JobId := t.jobs.getLast?.map Prod.fst

/-! ## Events -/

/-- Queue an event. -/
def publish (t : JobTable) (id : JobId) (status : JobStatus) (command : String) : JobTable :=
  { t with events := t.events ++ [⟨id, status, command⟩] }

/-- Take all events. -/
def takeEvents (t : JobTable) : List JobEvent × JobTable := (t.events, { t with events := [] })

/-! ## What monitors and workers report -/

/-- The leader of a job has stopped. -/
def stopped (t : JobTable) (id : JobId) : JobTable :=
  match t.get? id with
  | none => t
  | some j =>
    if j.status = .stopped then t
    else (t.update id ({ · with status := .stopped })).publish id .stopped j.command

/-- The leader of a job goes on. -/
def continued (t : JobTable) (id : JobId) : JobTable :=
  t.update id fun j => if j.status = .stopped then { j with status := .running } else j

/-- A job has ended.  Whoever waits for it in the foreground takes the code from the table; any
other job leaves the table with an event. -/
def finish (t : JobTable) (id : JobId) (code : Int) : JobTable :=
  match t.get? id with
  | none => t
  | some j =>
    if j.status = .foreground then
      t.update id ({ · with status := .done, code := some code })
    else (t.remove id).2.publish id .done j.command

/-- Processes that a job of the shell itself has started. -/
def adopt (t : JobTable) (id : JobId) (pids : List Pid) : JobTable :=
  t.update id fun j => { j with pids := j.pids ++ pids }

/-- Processes that a job of the shell itself has started have ended. -/
def release (t : JobTable) (id : JobId) (pids : List Pid) : JobTable :=
  t.update id fun j => { j with pids := j.pids.filter (· ∉ pids) }

/-! ## Jobs without a monitor -/

/-- The jobs that nobody waits for, with their leaders. -/
def unattended (t : JobTable) : List (JobId × Pid) :=
  t.jobs.filterMap fun (id, j) =>
    if j.watched || j.status = .done then none else j.leader.map (id, ·)

/-- What a look at the leader of such a job has shown; `none` if nothing has changed. -/
def settle (t : JobTable) (id : JobId) : Except Errno (Option Transition) → JobTable
  | .ok (some (.exited code)) => t.finish id code
  | .ok (some .stopped) => match t.get? id with
    | none => t
    | some j => (t.update id ({ · with status := .stopped })).publish id .stopped j.command
  | .ok (some .continued) => t.continued id
  | .ok none => t
  | .error .noChild => (t.remove id).2
  | .error _ => t

/-- A monitor takes over the wait for a job that has none; its leader. -/
def watch (t : JobTable) (id : JobId) : Option Pid × JobTable :=
  match t.get? id with
  | none => (none, t)
  | some j =>
    if j.watched then (none, t)
    else match j.leader with
      | none => (none, t)
      | some pid => (some pid, t.update id ({ · with watched := true }))

/-! ## Foreground and background -/

/-- Somebody is going to wait for a job: how to reach it, and the leader if a monitor has to be
started.  A job that has ended belongs to another waiter. -/
def toForeground (t : JobTable) (id : JobId) : Option (JobTarget × Option Pid) × JobTable :=
  match t.get? id with
  | none => (none, t)
  | some j =>
    if j.status = .done then (none, t)
    else (some (j.target, if j.watched then none else j.leader),
      t.update id ({ · with status := .foreground, watched := true }))

/-- A job goes on in the background. -/
def toBackground (t : JobTable) (id : JobId) : Option JobTarget × JobTable :=
  match t.get? id with
  | none => (none, t)
  | some j =>
    if j.status = .done then (none, t)
    else (some j.target, t.update id ({ · with status := .running }))

/-- The status of a waiter whose job has stopped. -/
def stoppedCode : Int := 128 + 20

/-- What the one who waits for a job in the foreground gets; nothing while the job runs.  A job
that somebody else has taken away counts as a success. -/
def collect (t : JobTable) (id : JobId) : Option (Int × JobTable) :=
  match t.get? id with
  | none => some (0, t)
  | some j => match j.status with
    | .done => some (j.code.getD 0, (t.remove id).2)
    | .stopped => some (stoppedCode, t)
    | .running | .foreground => none

/-! ## The foreground pointer -/

/-- Take the foreground pointer, or join those who have it. -/
def seize (t : JobTable) (job : Option JobId) (pids : List Pid) : Hold × JobTable :=
  match t.foreground with
  | none => (⟨none, pids, true⟩, { t with foreground := some ⟨job, pids⟩ })
  | some fg =>
    let joins := fg.job.isNone && job.isSome
    (⟨if joins then job else none, pids, false⟩,
      { t with foreground := some ⟨if joins then job else fg.job, fg.pids ++ pids⟩ })

/-- Give a hold back: the one that found the pointer free clears it, any other takes back what
it has added. -/
def yieldBack (t : JobTable) (h : Hold) : JobTable :=
  if h.owner then { t with foreground := none }
  else match t.foreground with
    | none => t
    | some fg =>
      let job := if h.job.isSome && fg.job = h.job then none else fg.job
      { t with foreground := some ⟨job, fg.pids.filter (· ∉ h.pids)⟩ }

/-- How to reach every job, with its status. -/
def targets (t : JobTable) : List (JobTarget × JobStatus) :=
  t.jobs.map fun (_, j) => (j.target, j.status)

/-! ## Operations as data -/

/-- What a thread can do to the table in one step. -/
inductive Op where
  | register (j : Job)
  | remove (id : JobId)
  | get (id : JobId)
  | list
  | current
  | publish (id : JobId) (status : JobStatus) (command : String)
  | takeEvents
  | stopped (id : JobId)
  | continued (id : JobId)
  | finish (id : JobId) (code : Int)
  | adopt (id : JobId) (pids : List Pid)
  | release (id : JobId) (pids : List Pid)
  | watch (id : JobId)
  | toForeground (id : JobId)
  | toBackground (id : JobId)
  /-- Wait until `collect` has something to give. -/
  | collect (id : JobId)
  | seize (job : Option JobId) (pids : List Pid)
  | yieldBack (h : Hold)
  | foreground
  | setForeground (fg : Option Foreground)
  | targets
  deriving DecidableEq, Repr

/-- What an operation gives back. -/
@[reducible] def Op.Result : Op → Type
  | .register _ => JobId
  | .remove _ => Option Job
  | .get _ => Option Job
  | .list => List (JobId × Job)
  | .current => Option JobId
  | .publish .. => Unit
  | .takeEvents => List JobEvent
  | .stopped _ | .continued _ | .finish .. | .adopt .. | .release .. => Unit
  | .watch _ => Option Pid
  | .toForeground _ => Option (JobTarget × Option Pid)
  | .toBackground _ => Option JobTarget
  | .collect _ => Int
  | .seize .. => Hold
  | .yieldBack _ => Unit
  | .foreground => Option Foreground
  | .setForeground _ => Unit
  | .targets => List (JobTarget × JobStatus)

/-- The effect of an operation; nothing while it has to wait. -/
def apply (t : JobTable) : (op : Op) → Option (op.Result × JobTable)
  | .register j => some (t.register j)
  | .remove id => some (t.remove id)
  | .get id => some (t.get? id, t)
  | .list => some (t.jobs, t)
  | .current => some (t.current, t)
  | .publish id status command => some ((), t.publish id status command)
  | .takeEvents => some t.takeEvents
  | .stopped id => some ((), t.stopped id)
  | .continued id => some ((), t.continued id)
  | .finish id code => some ((), t.finish id code)
  | .adopt id pids => some ((), t.adopt id pids)
  | .release id pids => some ((), t.release id pids)
  | .watch id => some (t.watch id)
  | .toForeground id => some (t.toForeground id)
  | .toBackground id => some (t.toBackground id)
  | .collect id => t.collect id
  | .seize job pids => some (t.seize job pids)
  | .yieldBack h => some ((), t.yieldBack h)
  | .foreground => some (t.foreground, t)
  | .setForeground fg => some ((), { t with foreground := fg })
  | .targets => some (t.targets, t)

end JobTable

end Conch
