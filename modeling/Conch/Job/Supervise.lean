import Conch.Job.Control

/-!
# Acting on jobs from outside

What somebody can do to the jobs of a shell without a command line: start a job that nobody
waits for, wait until a job gets somewhere, and send signals while a line runs.

## Main definitions

* `Conch.Jobs.startUnwatched` — a job without a monitor.
* `Conch.Jobs.poll`, `Conch.Jobs.awaitStatus` — wait, but not for ever.
* `Conch.Jobs.intervene` — what a `Body.intervention` does.
-/

set_option autoImplicit false

namespace Conch.Jobs

open Act (ask jobs)

/-- Start a program that neither reads nor writes as a job without a monitor. -/
def startUnwatched (s : Session) (argv : List String) : Act (Except IoError JobId) := do
  match ← ask (.openOutput "/dev/null" true) with
  | .error e => return .error e
  | .ok f =>
    let streams : Streams := ⟨.null, .file f, .file f⟩
    let started ← ask <| .spawn
      { argv := argv.map Text.Octets.ofText, env := s.env.entries, cwd := s.cwd, streams
        group := none, asScript := false }
    match started with
    | .error e => return .error e
    | .ok (pid, _) => return .ok (← jobs (.register (.unwatched (" ".intercalate argv) pid)))

/-- Send a signal to the leader of a job; whether it could be sent. -/
def signalLeader (id : JobId) (s : Signal) : Act Bool := do
  match (← jobs (.get id)).bind Job.leader with
  | none => return false
  | some pid => match ← ask (.kill (.processes [pid]) s) with
    | .ok () => return true
    | .error _ => return false

/-- Wait for the leader of a job without telling the table. -/
def collectLeader (id : JobId) : Act Unit := do
  match (← jobs (.get id)).bind Job.leader with
  | none => return ()
  | some pid => let _ ← ask (.waitExit pid)

/-- Make a job, or the leader of a job, the target of interrupts. -/
def pointForeground (job : Option JobId) (leaderOf : Option JobId) : Act Unit := do
  let led ← match leaderOf with
    | none => pure none
    | some id => jobs (.get id)
  jobs (.setForeground (some ⟨job, (led.bind Job.leader).toList⟩))

/-- Ask again and again, five milliseconds apart and at most `times` times, until the answer is
yes. -/
def poll (ask? : Act Bool) : (times : Nat) → Act Bool
  | 0 => pure false
  | times + 1 => do
    if ← ask? then return true
    ask (.sleep 5000)
    poll ask? times

/-- How often to ask within three seconds. -/
def patience : Nat := 600

/-- The job has a status, or with no status is gone. -/
def hasStatus (id : JobId) (status : Option JobStatus) : Act Bool := do
  return (← jobs (.get id)).map Job.status = status

/-- No job is listed. -/
def isIdle : Act Bool := do return (← jobs .list).isEmpty

/-- Wait until a job has a status, or with no status is gone.  With `look` the jobs without a
monitor are looked at each time. -/
def awaitStatus (id : JobId) (status : Option JobStatus) (look : Bool) : Act Bool :=
  poll (do if look then ask .reap
           hasStatus id status) patience

/-- Wait until no job is listed. -/
def awaitIdle : Act Bool := poll isIdle patience

/-- Wait until there is a file at a path. -/
def awaitFile (path : String) : Act Bool :=
  poll (do return (← ask .view).tree.pathExists path) patience

/-- What somebody does to the jobs while a line runs. -/
def intervene (i : Intervention) : Act Int := do
  let ready : Act Bool := match i.status with
    | some status => hasStatus (i.job.getD 0) (some status)
    | none => do return (← jobs .foreground).any (!·.pids.isEmpty)
  let _ ← poll ready patience
  ask (.sleep (i.delay * 1000))
  match i.toShell with
  | some s => handleSignal s
  | none => pure ()
  match i.toJob, ← jobs (.get (i.job.getD 0)) with
  | some s, some job => let _ ← ask (.kill (.processes job.leader.toList) s)
  | _, _ => pure ()
  match i.toForeground, ← jobs .foreground with
  | some s, some fg => let _ ← ask (.kill (.processes fg.pids) s)
  | _, _ => pure ()
  return 0

end Conch.Jobs
