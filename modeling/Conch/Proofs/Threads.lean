import Conch.Machine.Run
import Conch.Proofs.Runs
import Conch.Proofs.Table
import Mathlib.Data.List.Induction

/-!
# Threads on one table of jobs

Any number of threads work on the table at once.  Each of them runs one of the services that the
shell has for jobs, as a tree of requests, and they take turns in any order: one turn is one
request, and a request about the table is one step that nothing interrupts.  The system around
the table answers all other requests as it likes, so what is shown here holds whatever the
processes do and whenever they do it.

A thread that makes several calls, such as a worker that runs `fg`, counts as several threads that
make one call each: they may take turns as if they were one.

## Main definitions

* `Conch.Service` — what a thread can be asked to do; `Service.act` — how it does it.
* `Conch.Thread`, `Conch.System` — the threads, the table and what has happened so far.
* `System.begin`, `System.turn` — a new thread, and the next request of one that is there.
* `System.Reachable` — the systems that some order of events leads to.
* `System.Arises` — the same in smaller steps: each look at a leader is a step of its own.
* `Act.Throughout` — something holds wherever a tree can be followed to.
* `Conch.replay` — one event after the other.

## Main results

* `System.Reachable.arises` — a look at all jobs is a sequence of looks at jobs that nobody waits
  for, whatever the looks before have changed.
* `System.Arises.throughout` — what holds throughout every service holds of every thread.
-/

set_option autoImplicit false

namespace Conch

open Act (ask jobs become)

/-! ## Services -/

/-- What a thread of the shell can be asked to do with the jobs. -/
inductive Service where
  /-- Register a process that nobody waits for. -/
  | addJob (command : String) (leader : Pid)
  /-- Register a pipeline, as running or as stopped, and start its monitor. -/
  | addPipeline (line : String) (started : Jobs.Started) (stopped : Bool) (group : Option Pid)
  /-- Wait for a pipeline in the foreground. -/
  | runForeground (line : String) (started : Jobs.Started)
  /-- Wait for a pipeline of a job that the shell runs itself. -/
  | runInJob (id : JobId) (started : Jobs.Started)
  /-- Register a job that the shell runs itself, run it and report the code that it comes to.  What
  the job asks for meanwhile is asked by other services. -/
  | worker (line : String) (code : Int)
  | watch (id : JobId) (siblings : List Pid) (helpers : List Helper)
  | foreground (id : JobId)
  | background (id : JobId)
  | remove (id : JobId)
  /-- Look at the jobs without a monitor. -/
  | reap
  | takeEvents
  /-- Wait for the leader of a job.  Only other services start monitors. -/
  | monitor (id : JobId) (leader : Pid) (siblings : List Pid) (helpers : List Helper)

namespace Service

/-- What a service gives back. -/
@[reducible] def Result : Service → Type
  | addJob .. | addPipeline .. => JobId
  | runForeground .. | runInJob .. => Jobs.Completion
  | worker .. | watch .. | reap => Unit
  | foreground _ => Except ShellError Int
  | background _ => Except ShellError Unit
  | remove _ => Option Job
  | takeEvents => List JobEvent
  | monitor .. => Int

/-- How a service is done. -/
def act : (s : Service) → Act s.Result
  | addJob command leader => jobs (.register (.unwatched command leader))
  | addPipeline line started stopped group =>
    Jobs.register line started (if stopped then .stopped else .running) group
  | runForeground line started => Jobs.runForeground line started
  | runInJob id started => Jobs.runInJob id started
  | worker line code => do
    let id ← jobs (.register (.ofWorker line))
    jobs (.finish id code)
  | watch id siblings helpers => Jobs.watch id siblings helpers
  | foreground id => Jobs.foreground id
  | background id => Jobs.background id
  | remove id => jobs (.remove id)
  | reap => ask .reap
  | takeEvents => jobs .takeEvents
  | monitor id leader siblings helpers => (Body.monitor id leader siblings helpers).act

/-- The processes that a service is handed. -/
def pids : Service → List Pid
  | addJob _ leader => [leader]
  | addPipeline _ started _ _ | runForeground _ started | runInJob _ started =>
    started.primary :: started.siblings
  | watch _ siblings _ => siblings
  | monitor _ leader siblings _ => leader :: siblings
  | _ => []

/-- The service is the wait for a leader. -/
def isMonitor : Service → Bool
  | monitor .. => true
  | _ => false

end Service

/-! ## The requests of the services -/

namespace Jobs

lemma register_eq (line : String) (s : Started) (status : JobStatus) (group : Option Pid) :
    register line s status group =
      .call (.job (.register (.ofProcesses line s.primary s.siblings group status))) fun id =>
      .call (.fork (.monitor id s.primary s.siblings s.helpers)) fun _ => .done id :=
  rfl

lemma monitor_eq (id : JobId) (leader : Pid) (siblings : List Pid) (helpers : List Helper) :
    monitor id leader siblings helpers = .call (.waitChange leader) fun
      | .ok (.exited code) => collectAll siblings >>= fun _ => joinAll helpers >>= fun _ =>
          .call (.job (.finish id code)) fun _ => .done 0
      | .ok .stopped => .call (.job (.stopped id)) fun _ =>
          become (.monitor id leader siblings helpers)
      | .ok .continued => .call (.job (.continued id)) fun _ =>
          become (.monitor id leader siblings helpers)
      | .error _ => .call (.job (.finish id 1)) fun _ => .done 0 :=
  rfl

lemma watch_eq (id : JobId) (siblings : List Pid) (helpers : List Helper) :
    watch id siblings helpers = .call (.job (.watch id)) fun
      | none => .done ()
      | some p => .call (.fork (.monitor id p siblings helpers)) fun _ => .done () :=
  rfl

lemma runForeground_eq (line : String) (s : Started) :
    runForeground line s = .call (.job (.seize none (s.primary :: s.siblings))) fun hold =>
      .call (.waitPause s.primary) fun
        | .ok (some code) => collectAll s.siblings >>= fun codes => joinAll s.helpers >>= fun _ =>
            .call (.job (.yieldBack hold)) fun _ => .done (.exited code codes)
        | .ok none => register line s .stopped none >>= fun id =>
            .call (.job (.publish id .stopped line)) fun _ =>
            .call (.job (.yieldBack hold)) fun _ => .done (.stopped id)
        | .error _ => .call (.job (.yieldBack hold)) fun _ => .done (.exited 1 []) := by
  refine congrArg (Act.call _) (funext fun hold => congrArg (Act.call _) (funext fun r => ?_))
  rcases r with _ | _ | _ <;> rfl

/-- What is left of `fg` once its job is in the foreground and has a monitor. -/
def resume (id : JobId) (target : JobTarget) : Act (Except ShellError Int) :=
  .call (.job (.seize (some id) [])) fun hold =>
  .call (.kill target.toTarget .resume) fun
    | .error e => .call (.job (.remove id)) fun _ => .call (.job (.yieldBack hold)) fun _ =>
        .done (.error (.signalDelivery id e))
    | .ok () => .call (.job (.collect id)) fun code => .call (.job (.yieldBack hold)) fun _ =>
        .done (.ok code)

lemma foreground_eq (id : JobId) : foreground id = .call (.job (.toForeground id)) fun
    | none => .done (.error (.jobNotFound id))
    | some (target, some p) => .call (.fork (.monitor id p [] [])) fun _ => resume id target
    | some (target, none) => resume id target := by
  refine congrArg (Act.call (.job (.toForeground id))) (funext fun r => ?_)
  rcases r with _ | ⟨target, _ | p⟩ <;> rfl

lemma runInJob_eq (id : JobId) (s : Started) :
    runInJob id s = .call (.job (.adopt id (s.primary :: s.siblings))) fun _ =>
      .call (.waitExit s.primary) fun r =>
      collectAll s.siblings >>= fun codes => joinAll s.helpers >>= fun _ =>
      .call (.job (.release id (s.primary :: s.siblings))) fun _ =>
      .done (.exited (match r with
        | .ok e => e.named?.getD 1
        | .error _ => 1) codes) :=
  rfl

lemma background_eq (id : JobId) : background id = .call (.job (.toBackground id)) fun
    | none => .done (.error (.jobNotFound id))
    | some target => .call (.kill target.toTarget .resume) fun
      | .error e => .call (.job (.remove id)) fun _ => .done (.error (.signalDelivery id e))
      | .ok () => .done (.ok ()) :=
  rfl

/-- What is done about the job that the pointer names. -/
def forwardJob (fg : Foreground) (s : Signal) : Act Unit :=
  match fg.job with
  | none => .done ()
  | some id => .call (.job (.get id)) fun
    | none => .done ()
    | some job =>
      if job.leader.isNone && s = .terminalStop then .done ()
      else .call (.kill job.target.toTarget s) fun _ => .done ()

lemma forward_eq (fg : Foreground) (s : Signal) : forward fg s = forwardJob fg s >>= fun _ =>
    if fg.pids.isEmpty then .done ()
    else .call (.kill (.processes fg.pids) s) fun _ => .done () := by
  unfold forward forwardJob
  cases fg.job with
  | none => rfl
  | some id =>
    refine congrArg (Act.call (.job (.get id))) (funext fun r => ?_)
    cases r with
    | none => rfl
    | some job =>
      change (Act.done (some job) >>= _) = (_ >>= _)
      rw [Act.done_bind]
      by_cases hskip : (job.leader.isNone && decide (s = .terminalStop)) = true
      · simp only [hskip, if_true]
        split <;> rfl
      · simp only [hskip]
        split <;> rfl

end Jobs

/-- The request waits for a process or a helper to end. -/
def Call.isGathering : Call → Bool
  | .waitExit _ | .join _ => true
  | _ => false

lemma Jobs.collectAll_gathers (pids : List Pid) : (collectAll pids).Asks Call.isGathering := by
  induction pids with
  | nil => trivial
  | cons p rest ih => exact ⟨rfl, fun _ => ih.bind fun _ => trivial⟩

lemma Jobs.joinAll_gathers (helpers : List Helper) : (joinAll helpers).Asks Call.isGathering := by
  induction helpers with
  | nil => trivial
  | cons h rest ih => exact ⟨rfl, fun _ => ih⟩

/-! ## Threads and systems -/

/-- A request with its answer, and the table in front of it. -/
structure Moment where
  table : JobTable
  exchange : Exchange

/-- A look at the leader of a job that nobody waits for, and the table in front of it. -/
structure Look where
  table : JobTable
  id : JobId
  leader : Pid
  seen : Except Errno (Option Transition)

/-- A thread: what it does, what it has asked for since it began, and what is left of it. -/
structure Thread where
  service : Service
  past : List Moment
  rest : Act service.Result

namespace Thread

/-- A thread that begins. -/
def begin (s : Service) : Thread := ⟨s, [], s.act⟩

/-- The requests of a thread, with their answers. -/
def exchanges (th : Thread) : List Exchange := th.past.map Moment.exchange

end Thread

/-- The service that the thread which asks becomes. -/
def Call.becomes? : Call → Option Service
  | .become (.monitor id leader siblings helpers) => some (.monitor id leader siblings helpers)
  | _ => none

lemma Call.eq_of_becomes? {c : Call} {s : Service} (h : c.becomes? = some s) :
    ∃ id leader siblings helpers, c = .become (.monitor id leader siblings helpers) ∧
      s = .monitor id leader siblings helpers := by
  unfold Call.becomes? at h
  split at h
  · exact ⟨_, _, _, _, rfl, (Option.some.inj h).symm⟩
  · cases h

/-- The threads that a request starts. -/
def Call.forked : Call → List Thread
  | .fork (.monitor id leader siblings helpers) => [.begin (.monitor id leader siblings helpers)]
  | _ => []

/-- All threads with the table, and what has happened so far. -/
structure System where
  table : JobTable
  threads : List Thread
  /-- The processes that have been handed to services. -/
  given : List Pid
  /-- The requests of all threads in order, with their answers. -/
  log : List Moment
  /-- The looks at jobs that nobody waits for, in order. -/
  looks : List Look

/-- What the system around the table answers, to requests and to looks. -/
structure World where
  answer : (c : Call) → Option (Reply c)
  looks : List (Except Errno (Option Transition))

/-- A system in which every signal arrives, and a process that is waited for changes as given. -/
def World.obliging (change : Transition) : World where
  answer
    | .fork _ => some 0
    | .kill .. => some (.ok ())
    | .reap => some ()
    | .waitChange _ => some (.ok change)
    | _ => none
  looks := []

namespace System

/-- No thread and no job. -/
def initial : System := ⟨.empty, [], [], [], []⟩

/-- A service can begin.  Every process is handed to one service only; its number stands for no
other process. -/
def Admits (σ : System) (s : Service) : Prop :=
  s.isMonitor = false ∧ s.pids.Nodup ∧ ∀ p ∈ s.pids, p ∉ σ.given

instance (σ : System) (s : Service) : Decidable (σ.Admits s) :=
  inferInstanceAs (Decidable (_ ∧ _ ∧ _))

/-- A thread begins a service. -/
def begin (σ : System) (s : Service) : System :=
  { σ with threads := σ.threads ++ [.begin s], given := s.pids ++ σ.given }

/-- A thread goes on as another service. -/
def become (σ : System) (i : Nat) (s : Service) : System :=
  { σ with threads := σ.threads.set i (.begin s) }

/-- A look at the leader of one job. -/
def look (σ : System) (job : JobId × Pid) (seen : Except Errno (Option Transition)) : System :=
  { σ with
    table := σ.table.settle job.1 seen
    looks := σ.looks ++ [⟨σ.table, job.1, job.2, seen⟩] }

/-- A look at the leader of each job that nobody waits for; all are found before the first look. -/
def sweep (σ : System) (seen : List (Except Errno (Option Transition))) : System :=
  (σ.table.unattended.zip seen).foldl (fun σ x => σ.look x.1 x.2) σ

/-- What comes in front of the answer to a request. -/
def prepare (σ : System) (w : World) : Call → Option System
  | .reap =>
    if w.looks.length = σ.table.unattended.length then some (σ.sweep w.looks) else none
  | _ => some σ

/-- A thread gets an answer and goes on. -/
def advance (σ : System) (i : Nat) (th : Thread) (e : Exchange) (rest : Act th.service.Result)
    (t : JobTable) : System :=
  { table := t
    threads := σ.threads.set i ⟨th.service, th.past ++ [⟨σ.table, e⟩], rest⟩ ++ e.1.forked
    given := σ.given
    log := σ.log ++ [⟨σ.table, e⟩]
    looks := σ.looks }

end System

/-- The answer to a request and the table behind it; nothing while the one who asks has to wait. -/
def JobTable.answer (t : JobTable) (w : World) : (c : Call) → Option (Reply c × JobTable)
  | .job op => t.apply op
  | c => (w.answer c).map (·, t)

namespace System

/-- The next request of a thread; nothing if the thread has ended or has to wait. -/
def turn (σ : System) (i : Nat) (w : World) : Option System :=
  match σ.threads[i]? with
  | none => none
  | some th => match th.rest with
    | .done _ => none
    | .call c next => match c.becomes? with
      | some s => some (σ.become i s)
      | none => (σ.prepare w c).bind fun σ =>
        (σ.table.answer w c).map fun (r, t) => σ.advance i th ⟨c, r⟩ (next r) t

/-- What can happen. -/
inductive Event where
  | begin (s : Service)
  | turn (i : Nat) (w : World)

/-- What an event makes of a system; nothing if it cannot happen now. -/
def step (σ : System) : Event → Option System
  | .begin s => if σ.Admits s then some (σ.begin s) else none
  | .turn i w => σ.turn i w

/-- Some order of events leads to the system. -/
inductive Reachable : System → Prop where
  | initial : Reachable initial
  | step {σ σ' : System} (e : Event) : Reachable σ → σ.step e = some σ' → Reachable σ'

/-- What a list of events makes of a system; nothing if one of them cannot happen. -/
def run (σ : System) : List Event → Option System
  | [] => some σ
  | e :: es => (σ.step e).bind (·.run es)

/-- An order of events: a job that nobody waits for stops and is looked at, comes to the foreground,
and ends with code 3.  Thread 4 is its monitor. -/
def handOver : List Event :=
  let w := World.obliging (.exited 3)
  [.begin (.addJob "sleep 9" 7), .turn 0 w,
    .begin .reap, .turn 1 { w with looks := [.ok (some .stopped)] },
    .begin (.foreground 1), .turn 2 w, .begin .reap, .turn 3 w, .turn 2 w, .turn 2 w, .turn 2 w,
    .turn 4 w, .turn 4 w, .turn 2 w, .turn 2 w]

lemma Reachable.run {σ σ' : System} {es : List Event} (h : σ.Reachable)
    (hrun : σ.run es = some σ') : σ'.Reachable := by
  induction es generalizing σ with
  | nil => exact Option.some.inj hrun ▸ h
  | cons e es ih =>
    obtain ⟨σ₁, hstep, hrest⟩ := Option.bind_eq_some_iff.1 hrun
    exact ih (h.step e hstep) hrest

end System

/-! ## Smaller steps -/

/-- The request can be answered so, and leaves the table so. -/
inductive JobTable.Answers (t : JobTable) : (c : Call) → Reply c → JobTable → Prop where
  | job {op : JobTable.Op} {r : op.Result} {t' : JobTable} :
      t.apply op = some (r, t') → Answers t (.job op) r t'
  | other {c : Call} (r : Reply c) : (∀ op, c ≠ .job op) → Answers t c r t

lemma JobTable.answers_of_answer {t t' : JobTable} {w : World} {c : Call} {r : Reply c}
    (h : t.answer w c = some (r, t')) : t.Answers c r t' := by
  cases c with
  | job op => exact .job h
  | _ =>
    obtain ⟨_, -, heq⟩ := Option.map_eq_some_iff.1 h
    cases heq
    exact .other _ (by simp)

namespace System

/-- One small step: a service begins, a thread goes on as another service, the leader of a job
that nobody waits for is looked at, or a thread gets an answer. -/
inductive Moves (σ : System) : System → Prop where
  | begin {s : Service} : σ.Admits s → Moves σ (σ.begin s)
  | become {i : Nat} {s s' : Service} {past : List Moment} {c : Call}
      {next : Reply c → Act s.Result} : σ.threads[i]? = some ⟨s, past, .call c next⟩ →
      c.becomes? = some s' → Moves σ (σ.become i s')
  | look {id : JobId} {p : Pid} (seen : Except Errno (Option Transition)) :
      σ.table.Unattended id p → Moves σ (σ.look (id, p) seen)
  | exchange {i : Nat} {s : Service} {past : List Moment} {c : Call}
      {next : Reply c → Act s.Result} {r : Reply c} {t : JobTable} :
      σ.threads[i]? = some ⟨s, past, .call c next⟩ → c.becomes? = none →
      σ.table.Answers c r t → Moves σ (σ.advance i ⟨s, past, .call c next⟩ ⟨c, r⟩ (next r) t)

/-- Small steps lead from one system to another. -/
inductive Leads (σ₀ : System) : System → Prop where
  | refl : Leads σ₀ σ₀
  | move {σ σ' : System} : Leads σ₀ σ → σ.Moves σ' → Leads σ₀ σ'

lemma Leads.trans {σ₀ σ₁ σ₂ : System} (h : σ₀.Leads σ₁) (h' : σ₁.Leads σ₂) : σ₀.Leads σ₂ := by
  induction h' with
  | refl => exact h
  | move _ hmove ih => exact ih.move hmove

/-- Small steps lead to the system. -/
abbrev Arises (σ : System) : Prop := System.initial.Leads σ

lemma Moves.ordered {σ σ' : System} (h : σ.Moves σ') (hordered : σ.table.Ordered) :
    σ'.table.Ordered := by
  cases h with
  | begin _ => exact hordered
  | become _ _ => exact hordered
  | look seen _ => exact hordered.settle ..
  | exchange _ _ hanswer =>
    cases hanswer with
    | job happly => exact hordered.apply happly
    | other => exact hordered

lemma Arises.ordered {σ : System} (h : σ.Arises) : σ.table.Ordered := by
  induction h with
  | refl => exact List.Pairwise.nil
  | move _ hmove ih => exact hmove.ordered ih

section Leads

variable {σ₀ σ σ' : System}

/-- A look at one job leaves the others as they are. -/
lemma unattended_settle {t : JobTable} {k id : JobId} {p : Pid} (hne : id ≠ k)
    (seen : Except Errno (Option Transition)) (h : t.Unattended id p) :
    (t.settle k seen).Unattended id p := by
  obtain ⟨j, hj, hrest⟩ := h
  exact ⟨j, by rw [JobTable.get?_settle, if_neg hne, hj], hrest⟩

lemma foldl_look_threads (looks : List ((JobId × Pid) × Except Errno (Option Transition)))
    (σ : System) : (looks.foldl (fun σ x => σ.look x.1 x.2) σ).threads = σ.threads := by
  induction looks generalizing σ with
  | nil => rfl
  | cons x rest ih => exact ih (σ.look x.1 x.2)

/-- Looks at different jobs, none of which anybody waits for. -/
lemma Leads.foldl_look (h : σ₀.Leads σ)
    (looks : List ((JobId × Pid) × Except Errno (Option Transition)))
    (hnodup : (looks.map (·.1.1)).Nodup) (hall : ∀ x ∈ looks, σ.table.Unattended x.1.1 x.1.2) :
    σ₀.Leads (looks.foldl (fun σ x => σ.look x.1 x.2) σ) := by
  induction looks generalizing σ with
  | nil => exact h
  | cons x rest ih =>
    obtain ⟨hx, hrest⟩ := List.nodup_cons.1 hnodup
    refine ih (h.move (.look x.2 (hall x List.mem_cons_self))) hrest fun y hy => ?_
    have hne : y.1.1 ≠ x.1.1 := fun heq => hx (List.mem_map.2 ⟨y, hy, heq⟩)
    exact unattended_settle hne x.2 (hall y (List.mem_cons_of_mem _ hy))

/-- **A look at all jobs that nobody waits for** is a sequence of looks at one job each. -/
lemma Leads.sweep (h : σ₀.Leads σ) (hordered : σ.table.Ordered)
    {seen : List (Except Errno (Option Transition))}
    (hlength : seen.length = σ.table.unattended.length) : σ₀.Leads (σ.sweep seen) := by
  refine h.foldl_look _ ?_ fun x hx => ?_
  · have hjobs : (σ.table.unattended.zip seen).map Prod.fst = σ.table.unattended :=
      List.map_fst_zip (Nat.le_of_eq hlength.symm)
    have hkeys : (σ.table.unattended.zip seen).map (·.1.1) = σ.table.unattended.map Prod.fst :=
      calc (σ.table.unattended.zip seen).map (·.1.1)
          = ((σ.table.unattended.zip seen).map Prod.fst).map Prod.fst := by
            rw [List.map_map]
            rfl
        _ = σ.table.unattended.map Prod.fst := by rw [hjobs]
    exact hkeys ▸ hordered.nodup_unattended
  · exact hordered.mem_unattended.1 (List.of_mem_zip hx).1

lemma threads_of_prepare {w : World} {c : Call} (h : σ.prepare w c = some σ') :
    σ'.threads = σ.threads := by
  unfold System.prepare at h
  split at h
  · obtain ⟨-, heq⟩ := Option.ite_none_right_eq_some.1 h
    obtain rfl := Option.some.inj heq
    exact foldl_look_threads ..
  · exact congrArg System.threads (Option.some.inj h).symm

lemma Leads.prepare (h : σ₀.Leads σ) (hordered : σ.table.Ordered) {w : World} {c : Call}
    (hprepare : σ.prepare w c = some σ') : σ₀.Leads σ' := by
  unfold System.prepare at hprepare
  split at hprepare
  · obtain ⟨hlength, heq⟩ := Option.ite_none_right_eq_some.1 hprepare
    exact Option.some.inj heq ▸ h.sweep hordered hlength
  · exact Option.some.inj hprepare ▸ h

lemma Leads.turn (h : σ₀.Leads σ) (hordered : σ.table.Ordered) {i : Nat} {w : World}
    (hturn : σ.turn i w = some σ') : σ₀.Leads σ' := by
  unfold System.turn at hturn
  split at hturn
  case h_1 => cases hturn
  case h_2 th hth =>
    obtain ⟨s, past, rest⟩ := th
    cases rest with
    | done a => cases hturn
    | call c next =>
      cases hbecomes : c.becomes? with
      | some s' =>
        simp only [hbecomes, Option.some.injEq] at hturn
        exact hturn ▸ h.move (.become hth hbecomes)
      | none =>
        simp only [hbecomes] at hturn
        obtain ⟨σ₁, hprepare, hmap⟩ := Option.bind_eq_some_iff.1 hturn
        obtain ⟨⟨r, t⟩, hanswer, rfl⟩ := Option.map_eq_some_iff.1 hmap
        have hth₁ := threads_of_prepare hprepare ▸ hth
        exact (h.prepare hordered hprepare).move
          (.exchange hth₁ hbecomes (JobTable.answers_of_answer hanswer))

/-- **What happens is a sequence of small steps.** -/
theorem Leads.step (h : σ₀.Leads σ) (hordered : σ.table.Ordered) {e : Event}
    (hstep : σ.step e = some σ') : σ₀.Leads σ' := by
  cases e with
  | begin s =>
    simp only [System.step] at hstep
    split at hstep
    case isTrue hs => exact Option.some.inj hstep ▸ h.move (.begin hs)
    case isFalse => cases hstep
  | turn i w => exact h.turn hordered hstep

theorem Reachable.arises (h : σ.Reachable) : σ.Arises := by
  induction h with
  | initial => exact .refl
  | step e _ hstep ih => exact ih.step ih.ordered hstep

lemma Reachable.leads {es : List Event} (h : σ.Reachable) (hrun : σ.run es = some σ') :
    σ.Leads σ' := by
  induction es generalizing σ with
  | nil => exact Option.some.inj hrun ▸ .refl
  | cons e es ih =>
    obtain ⟨σ₁, hstep, hrest⟩ := Option.bind_eq_some_iff.1 hrun
    exact (Leads.step .refl h.arises.ordered hstep).trans (ih (h.step e hstep) hrest)

end Leads

/-! ## The threads behind a step -/

lemma getElem?_begin {σ : System} {s : Service} {k : Nat} {th : Thread}
    (h : (σ.begin s).threads[k]? = some th) :
    σ.threads[k]? = some th ∨ k = σ.threads.length ∧ th = .begin s := by
  simp only [System.begin, List.getElem?_append, List.getElem?_singleton] at h
  grind

lemma getElem?_become {σ : System} {i : Nat} {s : Service} {k : Nat} {th : Thread}
    (h : (σ.become i s).threads[k]? = some th) :
    k ≠ i ∧ σ.threads[k]? = some th ∨ k = i ∧ th = .begin s := by
  simp only [System.become, List.getElem?_set] at h
  grind

lemma getElem?_forked {c : Call} {k : Nat} {th : Thread} (h : c.forked[k]? = some th) :
    k = 0 ∧ ∃ id leader siblings helpers, c = .fork (.monitor id leader siblings helpers) ∧
      th = .begin (.monitor id leader siblings helpers) := by
  unfold Call.forked at h
  split at h
  · rw [List.getElem?_singleton] at h
    split at h
    case isTrue hk => exact ⟨hk, _, _, _, _, rfl, (Option.some.inj h).symm⟩
    case isFalse => cases h
  · cases h

/-- The threads behind an answer: the one that has got it, the others, and a new monitor. -/
lemma getElem?_advance {σ : System} {i : Nat} {th : Thread} {e : Exchange}
    {rest : Act th.service.Result} {t : JobTable} {k : Nat} {th' : Thread}
    (hi : σ.threads[i]? = some th) (h : (σ.advance i th e rest t).threads[k]? = some th') :
    k = i ∧ th' = ⟨th.service, th.past ++ [⟨σ.table, e⟩], rest⟩ ∨
      k ≠ i ∧ σ.threads[k]? = some th' ∨
      k = σ.threads.length ∧ ∃ id leader siblings helpers,
        e.1 = .fork (.monitor id leader siblings helpers) ∧
        th' = .begin (.monitor id leader siblings helpers) := by
  rw [System.advance, List.getElem?_append, List.length_set] at h
  split at h
  case isTrue hk =>
    rw [List.getElem?_set] at h
    split at h
    case isTrue heq =>
      rw [if_pos (List.getElem?_eq_some_iff.1 hi).1] at h
      exact .inl ⟨heq.symm, (Option.some.inj h).symm⟩
    case isFalse hne => exact .inr (.inl ⟨fun heq => hne heq.symm, h⟩)
  case isFalse hk =>
    obtain ⟨hzero, hrest⟩ := getElem?_forked h
    exact .inr (.inr ⟨by omega, hrest⟩)

lemma getElem?_begin_of_some {σ : System} {s : Service} {k : Nat} {th : Thread}
    (h : σ.threads[k]? = some th) : (σ.begin s).threads[k]? = some th := by
  rw [System.begin, List.getElem?_append_left (List.getElem?_eq_some_iff.1 h).1, h]

lemma getElem?_become_of_ne {σ : System} {i : Nat} {s : Service} {k : Nat} {th : Thread}
    (hne : k ≠ i) (h : σ.threads[k]? = some th) : (σ.become i s).threads[k]? = some th := by
  rw [System.become, List.getElem?_set_ne hne.symm, h]

section Advance

variable {σ : System} {i : Nat} {th : Thread} {e : Exchange} {rest : Act th.service.Result}
  {t : JobTable}

lemma getElem?_advance_of_ne {k : Nat} {th' : Thread} (hne : k ≠ i)
    (h : σ.threads[k]? = some th') : (σ.advance i th e rest t).threads[k]? = some th' := by
  have hlt : k < σ.threads.length := (List.getElem?_eq_some_iff.1 h).1
  rw [System.advance, List.getElem?_append_left (by rwa [List.length_set]),
    List.getElem?_set_ne hne.symm, h]

lemma getElem?_advance_self (h : σ.threads[i]? = some th) :
    (σ.advance i th e rest t).threads[i]? =
      some ⟨th.service, th.past ++ [⟨σ.table, e⟩], rest⟩ := by
  have hlt : i < σ.threads.length := (List.getElem?_eq_some_iff.1 h).1
  rw [System.advance, List.getElem?_append_left (by rwa [List.length_set]),
    List.getElem?_set_self hlt]

end Advance

/-- A thread that has ended stays as it is. -/
lemma Moves.mem_of_done {σ σ' : System} (h : σ.Moves σ') {s : Service} {past : List Moment}
    {a : s.Result} (hth : ⟨s, past, .done a⟩ ∈ σ.threads) : ⟨s, past, .done a⟩ ∈ σ'.threads := by
  obtain ⟨k, hk⟩ := List.mem_iff_getElem?.1 hth
  have hne {i : Nat} {s' : Service} {past' : List Moment} {c : Call}
      {next : Reply c → Act s'.Result} (hi : σ.threads[i]? = some ⟨s', past', .call c next⟩) :
      k ≠ i := by
    rintro rfl
    cases Option.some.inj (hk.symm.trans hi)
  cases h with
  | begin _ => exact List.mem_of_getElem? (getElem?_begin_of_some hk)
  | become hi _ => exact List.mem_of_getElem? (getElem?_become_of_ne (hne hi) hk)
  | look _ _ => exact hth
  | exchange hi _ _ => exact List.mem_of_getElem? (getElem?_advance_of_ne (hne hi) hk)

/-- A thread behind a step was there before, begins, or has just got an answer. -/
lemma Moves.mem_threads {σ σ' : System} (h : σ.Moves σ') {th : Thread} (hth : th ∈ σ'.threads) :
    th ∈ σ.threads ∨ (∃ s, th = .begin s) ∨
      ∃ (s : Service) (past : List Moment) (c : Call) (next : Reply c → Act s.Result)
        (r : Reply c), ⟨s, past, .call c next⟩ ∈ σ.threads ∧ ⟨σ.table, ⟨c, r⟩⟩ ∈ σ'.log ∧
        th = ⟨s, past ++ [⟨σ.table, ⟨c, r⟩⟩], next r⟩ := by
  obtain ⟨k, hk⟩ := List.mem_iff_getElem?.1 hth
  cases h with
  | begin _ =>
    obtain hold | ⟨-, rfl⟩ := getElem?_begin hk
    · exact .inl (List.mem_of_getElem? hold)
    · exact .inr (.inl ⟨_, rfl⟩)
  | become _ _ =>
    obtain ⟨-, hold⟩ | ⟨-, rfl⟩ := getElem?_become hk
    · exact .inl (List.mem_of_getElem? hold)
    · exact .inr (.inl ⟨_, rfl⟩)
  | look _ _ => exact .inl hth
  | exchange hi _ _ =>
    obtain ⟨-, rfl⟩ | ⟨-, hold⟩ | ⟨-, _, _, _, _, -, rfl⟩ := getElem?_advance hi hk
    · refine .inr (.inr ⟨_, _, _, _, _, List.mem_of_getElem? hi, ?_, rfl⟩)
      exact List.mem_append_right _ (List.mem_singleton_self _)
    · exact .inl (List.mem_of_getElem? hold)
    · exact .inr (.inl ⟨_, rfl⟩)

lemma Moves.log_subset {σ σ' : System} (h : σ.Moves σ') : σ.log ⊆ σ'.log := by
  cases h with
  | exchange _ _ _ => exact List.subset_append_left _ _
  | _ => exact fun _ => id

/-- What a thread has exchanged is in the log. -/
lemma Arises.past_subset {σ : System} (h : σ.Arises) : ∀ th ∈ σ.threads, th.past ⊆ σ.log := by
  induction h with
  | refl => simp [System.initial]
  | move _ hmove ih =>
    intro th hth
    obtain hold | ⟨s, rfl⟩ | ⟨s, past, c, next, r, hmem, hlog, rfl⟩ := hmove.mem_threads hth
    · exact List.Subset.trans (ih th hold) hmove.log_subset
    · exact List.nil_subset _
    · have hpast := List.Subset.trans (ih _ hmem) hmove.log_subset
      exact List.append_subset.2 ⟨hpast, by simpa using hlog⟩

end System

/-! ## Wherever a tree can be followed to -/

namespace Act

variable {α β : Type}

/-- Wherever a tree can be followed to behind the exchanges `past`, the request there is as `P`
says and the value there as `Q` says, given all that has been exchanged before. -/
def Throughout (P : List Exchange → Call → Prop) (Q : List Exchange → α → Prop) :
    List Exchange → Act α → Prop
  | past, .done a => Q past a
  | past, .call c next => P past c ∧ ∀ r, Throughout P Q (past ++ [⟨c, r⟩]) (next r)

/-- Behind a tree all of whose requests are of some kind. -/
lemma throughout_bind {P : List Exchange → Call → Prop} {Q : List Exchange → β → Prop}
    {kind : Call → Bool} {x : Act α} {f : α → Act β} (hx : x.Asks kind) {past : List Exchange}
    (hP : ∀ more c, (∀ e ∈ more, kind e.1 = true) → kind c = true → P (past ++ more) c)
    (hf : ∀ a more, (∀ e ∈ more, kind e.1 = true) → (f a).Throughout P Q (past ++ more)) :
    (x >>= f).Throughout P Q past := by
  induction x generalizing past with
  | done a => simpa using hf a []
  | call c next ih =>
    have hcons {r : Reply c} {more : List Exchange} (hmore : ∀ e ∈ more, kind e.1 = true) :
        ∀ e ∈ ⟨c, r⟩ :: more, kind e.1 = true := by
      simpa using ⟨hx.1, hmore⟩
    refine ⟨by simpa using hP [] c (by simp) hx.1, fun r => ih r (hx.2 r) ?_ ?_⟩
    · intro more c' hmore hc'
      simpa using hP (⟨c, r⟩ :: more) c' (hcons hmore) hc'
    · intro a more hmore
      simpa using hf a (⟨c, r⟩ :: more) (hcons hmore)

end Act

/-- **What holds throughout every service holds of every thread.** -/
theorem System.Arises.throughout {P : Service → List Exchange → Call → Prop}
    {Q : (s : Service) → List Exchange → s.Result → Prop}
    (hact : ∀ s : Service, s.act.Throughout (P s) (Q s) []) {σ : System} (h : σ.Arises) :
    ∀ th ∈ σ.threads, th.rest.Throughout (P th.service) (Q th.service) th.exchanges := by
  induction h with
  | refl => simp [System.initial]
  | move _ hmove ih =>
    intro th hth
    obtain hold | ⟨s, rfl⟩ | ⟨s, past, c, next, r, hmem, -, rfl⟩ := hmove.mem_threads hth
    · exact ih th hold
    · exact hact s
    · have hnext := (ih _ hmem).2 r
      simpa [Thread.exchanges] using hnext

/-! ## Lists of events -/

section Replay

variable {S E : Type} {step : S → E → Option S}

/-- What a list of events makes of a state, given what one event makes of it; nothing if one of them
cannot happen. -/
def replay (step : S → E → Option S) (s : S) : List E → Option S
  | [] => some s
  | e :: es => (step s e).bind (replay step · es)

lemma replay_append (s : S) (es es' : List E) :
    replay step s (es ++ es') = (replay step s es).bind (replay step · es') := by
  induction es generalizing s with
  | nil => rfl
  | cons e es ih =>
    simp only [List.cons_append, replay, Option.bind_assoc]
    exact congrArg _ (funext ih)

/-- The last event of a list happens behind all the others. -/
lemma exists_replay_of_concat {s s' : S} {es : List E} {e : E}
    (hrun : replay step s (es ++ [e]) = some s') :
    ∃ s₁, replay step s es = some s₁ ∧ step s₁ e = some s' := by
  rw [replay_append] at hrun
  obtain ⟨s₁, hs₁, hstep⟩ := Option.bind_eq_some_iff.1 hrun
  exact ⟨s₁, hs₁, by simpa [replay] using hstep⟩

/-- If a list of events can happen, each of its beginnings can. -/
lemma exists_replay_of_prefix {s s' : S} {es front : List E} (hrun : replay step s es = some s')
    (hfront : front <+: es) : ∃ s₁, replay step s front = some s₁ := by
  obtain ⟨back, rfl⟩ := hfront
  rw [replay_append] at hrun
  obtain ⟨s₁, hs₁, -⟩ := Option.bind_eq_some_iff.1 hrun
  exact ⟨s₁, hs₁⟩

/-- What is so at the start, and stays so with every event that happens behind others, is so of
every list of events and the state that it leads to. -/
lemma replay_induct {P : List E → S → Prop} {s s' : S} {es : List E} (hnil : P [] s)
    (hconcat : ∀ {es s₁ e s₂}, replay step s es = some s₁ → step s₁ e = some s₂ → P es s₁ →
      P (es ++ [e]) s₂)
    (hrun : replay step s es = some s') : P es s' := by
  induction es using List.reverseRecOn generalizing s' with
  | nil => exact Option.some.inj hrun ▸ hnil
  | append_singleton es e ih =>
    obtain ⟨s₁, hs₁, hstep⟩ := exists_replay_of_concat hrun
    exact hconcat hs₁ hstep (ih hs₁)

/-- What every event keeps holds behind every list of events. -/
lemma replay_keeps {P : S → Prop} (hkeeps : ∀ {s e s'}, step s e = some s' → P s → P s') {s s' : S}
    {es : List E} (hrun : replay step s es = some s') (h : P s) : P s' := by
  induction es generalizing s with
  | nil => exact Option.some.inj hrun ▸ h
  | cons e es ih =>
    obtain ⟨s₁, hstep, hrest⟩ := Option.bind_eq_some_iff.1 hrun
    exact ih hrest (hkeeps hstep h)

end Replay

end Conch
