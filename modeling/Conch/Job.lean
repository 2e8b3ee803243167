import Conch.Session
import Conch.Text.Decimal

/-!
# Jobs

A job is a pipeline that the shell keeps track of: one in the background, or one that has been
stopped.  It has a leader, the process whose end ends the job, unless the shell itself runs the
job on a thread of its own.

## Main definitions

* `Conch.JobStatus`, `Conch.Job` — a job as the table holds it.
* `Conch.JobEvent` — a change of status that the user has not been told yet.
* `Conch.Transition` — what waiting for a process can report.
-/

set_option autoImplicit false

namespace Conch

/-- The status of a job. -/
inductive JobStatus where
  | running
  | stopped
  /-- Somebody has brought the job to the foreground and waits for it. -/
  | foreground
  /-- The job has ended, and the one who waits for it has not been told yet. -/
  | done
  deriving DecidableEq, Repr, Inhabited

/-- The status as it is shown. -/
def JobStatus.text : JobStatus → String
  | .running => "Running"
  | .stopped => "Stopped"
  | .foreground => "Foreground"
  | .done => "Done"

/-- A job. -/
structure Job where
  /-- The command line. -/
  command : String
  /-- The process whose end ends the job; none if the shell itself runs it. -/
  leader : Option Pid
  /-- Every process to signal, the leader first. -/
  pids : List Pid
  /-- The process group of a pipeline that was started in one of its own. -/
  group : Option Pid
  status : JobStatus
  /-- The status with which a job that is `done` has ended. -/
  code : Option Int
  /-- Some monitor waits for the leader. -/
  watched : Bool
  deriving DecidableEq, Repr, Inhabited

namespace Job

/-- A job of started processes, the leader first, with a monitor of its own. -/
def ofProcesses (command : String) (leader : Pid) (siblings : List Pid) (group : Option Pid)
    (status : JobStatus) : Job :=
  { command, leader := some leader, pids := leader :: siblings, group, status, code := none,
    watched := true }

/-- A job that the shell runs itself. -/
def ofWorker (command : String) : Job :=
  { command, leader := none, pids := [], group := none, status := .running, code := none,
    watched := true }

/-- A job of one process that nobody waits for. -/
def unwatched (command : String) (leader : Pid) : Job :=
  { ofProcesses command leader [] none .running with watched := false }

/-- The process that a listing shows; a job that the shell runs itself shows the shell. -/
def pidShown (j : Job) (self : Pid) : Pid := j.leader.getD self

/-- The largest number of a job. -/
def maxId : Nat := Text.maxWord

/-- A number of a job, optionally behind `%`. -/
def parseId? (arg : String) : Option JobId :=
  let digits := match arg.toList with
    | '%' :: rest => String.ofList rest
    | _ => arg
  Text.readNat maxId digits

end Job

/-- A change of status that the user has not been told yet. -/
structure JobEvent where
  id : JobId
  status : JobStatus
  command : String
  deriving DecidableEq, Repr, Inhabited

/-- The event as it is shown. -/
def JobEvent.text (e : JobEvent) : String :=
  "[" ++ toString e.id ++ "]+ " ++ e.status.text ++ " " ++ e.command

/-- What waiting for a process can report. -/
inductive Transition where
  | exited (code : Int)
  | stopped
  | continued
  deriving DecidableEq, Repr, Inhabited

end Conch
