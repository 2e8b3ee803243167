import Conch.Proofs.Threads

/-!
# The machine and the table of jobs

On the machine, a request about the table changes the table as the operation says, a look at the
jobs that nobody waits for changes it by what has been seen, and no other request changes it.  So
whatever the machine answers is an answer that a `System` allows.

## Main results

* `Machine.jobs_answer` — no other request changes the table of the machine.
* `System.exists_world` — the machine answers as some world does, with the same table behind.
* `System.turn_of_answer` — **a turn of the machine is a turn of a system**.
-/

set_option autoImplicit false

namespace Conch.Machine

variable (m : Machine)

/-! ## Requests that are not about jobs -/

@[simp] lemma jobs_notify (s : Signal) : (m.notify s).jobs = m.jobs := by
  unfold notify
  split <;> rfl

@[simp] lemma jobs_notifyParent (p : Process) : (m.notifyParent p).jobs = m.jobs := by
  unfold notifyParent
  split
  · exact jobs_notify m .child
  · rfl

@[simp] lemma jobs_updateProcess (pid : Pid) (f : Process → Process) :
    (m.updateProcess pid f).jobs = m.jobs :=
  rfl

@[simp] lemma jobs_finishProcess (pid : Pid) (e : Ending) :
    (m.finishProcess pid e).jobs = m.jobs := by
  unfold finishProcess
  split
  · rfl
  · simp [dropOrphans]

@[simp] lemma jobs_stopProcess (p : Process) : (m.stopProcess p).jobs = m.jobs := by
  simp [stopProcess]

@[simp] lemma jobs_resumeProcess (p : Process) : (m.resumeProcess p).jobs = m.jobs := by
  unfold resumeProcess
  split
  · rfl
  · dsimp only
    split <;> simp

@[simp] lemma jobs_deliver (s : Signal) (pid : Pid) : (deliver s m pid).jobs = m.jobs := by
  unfold deliver
  grind [jobs_notify, jobs_finishProcess, jobs_resumeProcess, jobs_stopProcess, jobs_updateProcess]

lemma jobs_foldl_deliver (s : Signal) (pids : List Pid) :
    (pids.foldl (deliver s) m).jobs = m.jobs := by
  induction pids generalizing m with
  | nil => rfl
  | cons pid rest ih => exact (ih (deliver s m pid)).trans (jobs_deliver m s pid)

lemma jobs_send (t : Target) (s : Signal) : (m.send t s).2.jobs = m.jobs := by
  unfold send
  grind [jobs_foldl_deliver]

lemma jobs_inspect (parent pid : Pid) (asks : Transition → Bool) :
    (m.inspect parent pid asks).2.jobs = m.jobs := by
  unfold inspect
  grind [jobs_updateProcess]

lemma jobs_observe (parent pid : Pid) (asks : Transition → Bool) :
    (m.observe parent pid asks).2.jobs = m.jobs := by
  have hinspect := jobs_inspect m parent pid asks
  unfold observe
  grind

lemma jobs_openInput (path : String) : (m.openInput path).2.jobs = m.jobs := by
  unfold openInput
  grind [register, newId]

lemma jobs_openOutput (path : String) (append : Bool) :
    (m.openOutput path append).2.jobs = m.jobs := by
  unfold openOutput
  grind [register, newId]

lemma jobs_readBy {src : Source} {take : Taker} {r : Except Errno Text.Octets} {m' : Machine}
    (h : m.readBy src take = some (r, m')) : m'.jobs = m.jobs := by
  unfold readBy at h
  grind [Option.map_eq_some_iff]

lemma jobs_writeFile (f : FileId) (data : Text.Octets) : (m.writeFile f data).2.jobs = m.jobs := by
  unfold writeFile
  grind

lemma jobs_write {pid : Option Pid} {dst : Sink} {data : Text.Octets} {r : Except Errno Unit}
    {m' : Machine} (h : m.write pid dst data = some (r, m')) : m'.jobs = m.jobs := by
  have hfile := jobs_writeFile m
  have hdeliver := jobs_deliver m
  unfold write at h
  grind [writeBuffer, pour]

lemma jobs_addTask (pid : Option Pid) (act : Act Int) (delay : Nat) (ends : List End) :
    (m.addTask pid act delay ends).2.jobs = m.jobs :=
  rfl

lemma jobs_connect (dst : Sink) : (m.connect dst).2.2.jobs = m.jobs := by
  unfold connect
  split <;> rfl

lemma jobs_spawn (who : Actor) (s : Spawn) : (m.spawn who s).2.jobs = m.jobs := by
  unfold spawn
  split
  · rfl
  · simp only [jobs_addTask, jobs_connect]
    rfl

lemma jobs_nextSignal? {s : Signal} {m' : Machine} (h : m.nextSignal? = some (s, m')) :
    m'.jobs = m.jobs := by
  unfold nextSignal? at h
  grind

lemma jobs_setListening (on : Bool) : (m.setListening on).jobs = m.jobs := by
  unfold setListening
  grind

/-! ## Answers -/

section Answers

variable {m m' : Machine} {body : Body → Act Int} {who : Actor} {c : Call} {r : Reply c}

/-- A request that is always answered at once. -/
lemma snd_jobs {α : Type} {x : α × Machine} {a : α} (h : some x = some (a, m'))
    (hjobs : x.2.jobs = m.jobs) : m'.jobs = m.jobs := by
  obtain rfl := Option.some.inj h
  exact hjobs

/-- No request but one about the table, or a look at the jobs, changes the table. -/
lemma jobs_answer (h : m.answer body who c = some (r, m')) (hreap : c ≠ .reap)
    (hjob : ∀ op, c ≠ .job op) : m'.jobs = m.jobs := by
  cases c with
  | job op => exact absurd rfl (hjob op)
  | reap => exact absurd rfl hreap
  | view => cases h; rfl
  | openInput path => exact snd_jobs h (jobs_openInput m path)
  | openOutput path append => exact snd_jobs h (jobs_openOutput m path append)
  | read src limit => exact jobs_readBy m h
  | readLine src => exact jobs_readBy m h
  | write dst data => exact jobs_write m h
  | edit e => cases h; rfl
  | pipe => cases h; rfl
  | close e => cases h; rfl
  | spawn s => exact snd_jobs h (jobs_spawn m who s)
  | clone context state => cases h; rfl
  | fork b => cases h; rfl
  | become b => cases h
  | join helper =>
    cases helper <;> simp only [answer] at h <;> split at h <;> cases h <;> rfl
  | result t => cases h; rfl
  | waitExit pid =>
    have hinspect := jobs_inspect m (who.pid.getD m.self) pid fun _ => false
    simp only [answer] at h
    grind
  | waitPause pid =>
    have hobserve := jobs_observe m (who.pid.getD m.self) pid (· = .stopped)
    simp only [answer] at h
    grind
  | waitChange pid =>
    have hobserve := jobs_observe m (who.pid.getD m.self) pid fun _ => true
    simp only [answer] at h
    grind
  | kill t s => exact snd_jobs h (jobs_send m t s)
  | dispose s d =>
    simp only [answer] at h
    split at h <;> cases h <;> rfl
  | caught =>
    simp only [answer] at h
    split at h <;> cases h <;> rfl
  | sleep time => cases h; rfl
  | listen on => cases h; exact jobs_setListening m on
  | nextSignal => exact jobs_nextSignal? m h
  | raise s => cases h; exact jobs_notify m s

/-- The looks at some jobs, one after the other, see something of each of them. -/
lemma exists_seen (jobs : List (JobId × Pid)) (m : Machine) :
    ∃ seen : List (Except Errno (Option Transition)), seen.length = jobs.length ∧
      (jobs.foldl settleOne m).jobs =
        (jobs.zip seen).foldl (fun t x => t.settle x.1.1 x.2) m.jobs := by
  induction jobs generalizing m with
  | nil => exact ⟨[], rfl, rfl⟩
  | cons job rest ih =>
    obtain ⟨seen, hlength, hjobs⟩ := ih (m.settleOne job)
    have hone : (m.settleOne job).jobs =
        m.jobs.settle job.1 (m.observe m.self job.2 fun _ => true).1 := by
      simp only [settleOne, jobs_observe]
    refine ⟨(m.observe m.self job.2 fun _ => true).1 :: seen, congrArg (· + 1) hlength, ?_⟩
    rw [List.foldl_cons, hjobs, hone, List.zip_cons_cons, List.foldl_cons]

end Answers

end Conch.Machine

namespace Conch.System

lemma table_foldl_look (looks : List ((JobId × Pid) × Except Errno (Option Transition)))
    (σ : System) : (looks.foldl (fun σ x => σ.look x.1 x.2) σ).table =
      looks.foldl (fun t x => t.settle x.1.1 x.2) σ.table := by
  induction looks generalizing σ with
  | nil => rfl
  | cons x rest ih => exact ih (σ.look x.1 x.2)

/-- **The machine answers as some world does**: wherever the table of a system is the machine's,
the machine's answer is one that the system can give, and the tables behind it are the same. -/
theorem exists_world {σ : System} {m m' : Machine} {body : Body → Act Int} {who : Actor}
    {c : Call} {r : Reply c} (htable : σ.table = m.jobs)
    (h : m.answer body who c = some (r, m')) :
    ∃ w σ', σ.prepare w c = some σ' ∧ σ'.table.answer w c = some (r, m'.jobs) := by
  classical
  let answer (c' : Call) : Option (Reply c') := if heq : c' = c then some (heq ▸ r) else none
  by_cases hreap : c = .reap
  · subst hreap
    obtain ⟨seen, hlength, hjobs⟩ := Machine.exists_seen m.jobs.unattended m
    have hm : m' = m.reap := by cases h; rfl
    refine ⟨⟨answer, seen⟩, σ.sweep seen, ?_, ?_⟩
    · rw [System.prepare, htable, if_pos hlength]
    · have hsweep : (σ.sweep seen).table = m'.jobs := by
        rw [System.sweep, table_foldl_look, htable, hm, Machine.reap, hjobs]
      simp [JobTable.answer, answer, hsweep]
  · refine ⟨⟨answer, []⟩, σ, ?_, ?_⟩
    · unfold System.prepare
      split
      · exact absurd rfl hreap
      · rfl
    · by_cases hjob : ∃ op, c = .job op
      · obtain ⟨op, rfl⟩ := hjob
        obtain ⟨⟨r', t⟩, happly, heq⟩ := Option.map_eq_some_iff.1 h
        cases heq
        exact htable ▸ happly
      · have hframe : m'.jobs = σ.table :=
          (Machine.jobs_answer h hreap fun op heq => hjob ⟨op, heq⟩).trans htable.symm
        unfold JobTable.answer
        split
        · exact absurd ⟨_, rfl⟩ hjob
        · simp [answer, hframe]

/-- **A turn of the machine is a turn of a system**: the thread goes on with the machine's answer,
and the table is the machine's again. -/
theorem turn_of_answer {σ : System} {m m' : Machine} {body : Body → Act Int} {who : Actor}
    {i : Nat} {s : Service} {past : List Moment} {c : Call} {next : Reply c → Act s.Result}
    {r : Reply c} (htable : σ.table = m.jobs)
    (hi : σ.threads[i]? = some ⟨s, past, .call c next⟩) (hbecomes : c.becomes? = none)
    (h : m.answer body who c = some (r, m')) :
    ∃ w σ', σ.step (.turn i w) = some σ' ∧ σ'.table = m'.jobs ∧
      ∃ past', σ'.threads[i]? = some ⟨s, past', next r⟩ := by
  obtain ⟨w, σ₁, hprepare, hanswer⟩ := exists_world htable h
  have hi₁ : σ₁.threads[i]? = some ⟨s, past, .call c next⟩ := by
    rw [threads_of_prepare hprepare, hi]
  refine ⟨w, σ₁.advance i ⟨s, past, .call c next⟩ ⟨c, r⟩ (next r) m'.jobs, ?_, rfl,
    past ++ [⟨σ₁.table, ⟨c, r⟩⟩], getElem?_advance_self hi₁⟩
  simp [System.step, System.turn, hi, hbecomes, hprepare, hanswer]

end Conch.System
