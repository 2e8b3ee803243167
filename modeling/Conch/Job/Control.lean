import Conch.Act
import Conch.ShellError

/-!
# Job control

Exactly one party waits for the leader of a job: the one who runs a pipeline in the foreground,
a monitor once the job has been handed over, or whoever looks at the jobs without a monitor.

## Main definitions

* `Conch.Jobs.runForeground`, `Conch.Jobs.runInJob` — wait for a pipeline that has been started.
* `Conch.Jobs.monitor` — the wait for the leader of a job.
* `Conch.Jobs.foreground`, `Conch.Jobs.background` — `fg` and `bg`.
* `Conch.Jobs.handleSignal` — where a signal that the shell gets goes.
-/

set_option autoImplicit false

namespace Conch.Jobs

open Act (ask jobs become)

/-- The processes of a pipeline that has been started, and what moves data for them. -/
structure Started where
  /-- The last process, whose end ends the pipeline. -/
  primary : Pid
  /-- The other processes, in order. -/
  siblings : List Pid
  helpers : List Helper
  deriving DecidableEq, Repr

/-- How a pipeline has ended. -/
inductive Completion where
  | exited (primary : Int) (siblings : List Int)
  /-- The pipeline has stopped and is now a job. -/
  | stopped (id : JobId)
  deriving DecidableEq, Repr

/-- Wait for every process in turn; a wait that fails counts as status 1. -/
def collectAll : List Pid → Act (List Int)
  | [] => pure []
  | pid :: rest => do
    let code := match ← ask (.waitExit pid) with
      | .ok e => e.status
      | .error _ => 1
    return code :: (← collectAll rest)

/-- Wait for every helper in turn. -/
def joinAll : List Helper → Act Unit
  | [] => pure ()
  | h :: rest => do ask (.join h); joinAll rest

/-! ## Registering -/

/-- Make a job of a pipeline and start its monitor. -/
def register (line : String) (s : Started) (status : JobStatus) (group : Option Pid) :
    Act JobId := do
  let id ← jobs (.register (.ofProcesses line s.primary s.siblings group status))
  let _ ← ask (.fork (.monitor id s.primary s.siblings s.helpers))
  return id

/-- The wait for the leader of a job. -/
def monitor (id : JobId) (leader : Pid) (siblings : List Pid) (helpers : List Helper) :
    Act Int := do
  match ← ask (.waitChange leader) with
  | .ok (.exited code) =>
    let _ ← collectAll siblings
    joinAll helpers
    jobs (.finish id code)
    return 0
  | .ok .stopped => jobs (.stopped id); become (.monitor id leader siblings helpers)
  | .ok .continued => jobs (.continued id); become (.monitor id leader siblings helpers)
  | .error _ => jobs (.finish id 1); return 0

/-- Start a monitor for a job that has none.  The siblings are the other processes of its
pipeline; they and the helpers are collected behind the leader. -/
def watch (id : JobId) (siblings : List Pid) (helpers : List Helper) : Act Unit := do
  match ← jobs (.watch id) with
  | none => return ()
  | some pid => let _ ← ask (.fork (.monitor id pid siblings helpers)); return ()

/-! ## Waiting for a pipeline -/

/-- Wait for a pipeline in the foreground.  It becomes a job only if it stops. -/
def runForeground (line : String) (s : Started) : Act Completion := do
  let hold ← jobs (.seize none (s.primary :: s.siblings))
  let done ← match ← ask (.waitPause s.primary) with
    | .ok (some code) => do
      let siblings ← collectAll s.siblings
      joinAll s.helpers
      pure (Completion.exited code siblings)
    | .ok none => do
      let id ← register line s .stopped none
      jobs (.publish id .stopped line)
      pure (.stopped id)
    | .error _ => pure (.exited 1 [])
  jobs (.yieldBack hold)
  return done

/-- Wait for a pipeline that a job of the shell itself runs.  Its processes count as the job's
while they run. -/
def runInJob (id : JobId) (s : Started) : Act Completion := do
  let pids := s.primary :: s.siblings
  jobs (.adopt id pids)
  let code := match ← ask (.waitExit s.primary) with
    | .ok e => e.named?.getD 1
    | .error _ => 1
  let siblings ← collectAll s.siblings
  joinAll s.helpers
  jobs (.release id pids)
  return .exited code siblings

/-! ## Foreground and background -/

/-- Continue a job in the foreground and wait until it ends or stops. -/
def foreground (id : JobId) : Act (Except ShellError Int) := do
  match ← jobs (.toForeground id) with
  | none => return .error (.jobNotFound id)
  | some (target, unwatched) =>
    match unwatched with
    | some pid => let _ ← ask (.fork (.monitor id pid [] []))
    | none => pure ()
    let hold ← jobs (.seize (some id) [])
    match ← ask (.kill target.toTarget .resume) with
    | .error e =>
      let _ ← jobs (.remove id)
      jobs (.yieldBack hold)
      return .error (.signalDelivery id e)
    | .ok () =>
      let code ← jobs (.collect id)
      jobs (.yieldBack hold)
      return .ok code

/-- Continue a job in the background. -/
def background (id : JobId) : Act (Except ShellError Unit) := do
  match ← jobs (.toBackground id) with
  | none => return .error (.jobNotFound id)
  | some target => match ← ask (.kill target.toTarget .resume) with
    | .error e => do
      let _ ← jobs (.remove id)
      return .error (.signalDelivery id e)
    | .ok () => return .ok ()

/-! ## Signals -/

/-- Send a signal to every job, in turn; one that is stopped has to go on to notice it. -/
def terminateEach : List (JobTarget × JobStatus) → Act Unit
  | [] => pure ()
  | (target, status) :: rest => do
    let _ ← ask (.kill target.toTarget .terminate)
    if status = .stopped then
      let _ ← ask (.kill target.toTarget .resume)
    terminateEach rest

/-- End every job. -/
def terminateAll : Act Unit := do terminateEach (← jobs .targets)

/-- Pass a signal to whatever runs in the foreground.  A job that the shell runs itself cannot
stop as a whole. -/
def forward (fg : Foreground) (s : Signal) : Act Unit := do
  match fg.job with
  | none => pure ()
  | some id => match ← jobs (.get id) with
    | none => pure ()
    | some job =>
      if job.leader.isNone && s = .terminalStop then pure ()
      else let _ ← ask (.kill job.target.toTarget s)
  if fg.pids.isEmpty then return ()
  let _ ← ask (.kill (.processes fg.pids) s)

/-- Where a signal that the shell gets goes. -/
def handleSignal (s : Signal) : Act Unit := do
  match s with
  | .interrupt | .terminalStop => match ← jobs .foreground with
    | some fg => forward fg s
    | none => return ()
  | .terminate => terminateAll
  | .child => ask .reap
  | _ => return ()

/-- Route the signals that the shell gets, one after the other. -/
def listener : Act Int := do
  handleSignal (← ask .nextSignal)
  become .listener

/-- Take the signals that the shell gets. -/
def listen : Act Unit := do
  if ← ask (.listen true) then
    let _ ← ask (.fork .listener)

/-- Take no more signals. -/
def stopListening : Act Unit := do let _ ← ask (.listen false)

/-! ## Reporting -/

/-- The events that have not been reported, one line each. -/
def report : Act String := do
  return String.join ((← jobs .takeEvents).map (·.text ++ "\n"))

end Conch.Jobs
