import Conch.Proofs.Threads

/-!
# What a service may do with a process

The right to wait for a process is handed on: a thread that has started a pipeline has it, until
it starts a monitor or lists the process as a job that nobody waits for; then it is with whoever
looks at such jobs, until a monitor is started after all.

What a thread may still do with a process is read off the requests that are left of it: it has a
right if some way through them uses the right, without being handed it by the table on the way.

## Main definitions

* `Call.waits`, `Call.registers`, `Call.gives` — what a request does with a process.
* `Exchange.hands`, `Exchange.ends` — what an answer says about a process.
* `Act.May` — a tree may use a right about a process.
* `Act.Linear` — a tree keeps nothing of what it gives away, nor of a process that has ended.
* `JobTable.Unwatched` — the right to a process is with whoever looks at the jobs.

## Main results

* `Service.may_act`, `Service.linear_act` — every service begins with rights to the processes that
  it is handed, and parts with what it gives away.
* `JobTable.Answers.unwatched` — the jobs that nobody waits for behind an answer.
-/

set_option autoImplicit false

namespace Conch

/-! ## Rights about a process -/

namespace Call

/-- The request waits for a process, or makes a monitor of a thread that does. -/
@[simp] def waits (p : Pid) : Call → Prop
  | .waitExit q | .waitPause q | .waitChange q => q = p
  | .fork (.monitor _ leader siblings _) | .become (.monitor _ leader siblings _) =>
    p ∈ leader :: siblings
  | _ => False

/-- The request lists a process as the leader of a job. -/
@[simp] def registers (p : Pid) : Call → Prop
  | .job (.register j) => j.leader = some p
  | _ => False

/-- The request waits for a process or lists it. -/
@[simp] def uses (p : Pid) (c : Call) : Prop := c.waits p ∨ c.registers p

/-- The request starts a monitor for a process. -/
@[simp] def startsMonitor (p : Pid) : Call → Bool
  | .fork (.monitor _ leader _ _) => leader = p
  | _ => false

/-- The request starts a monitor for a process, or lists it. -/
@[simp] def starts (p : Pid) (c : Call) : Prop := c.startsMonitor p = true ∨ c.registers p

/-- The request gives a process away: to a new monitor, or to whoever looks at jobs that nobody
waits for. -/
@[simp] def gives (p : Pid) : Call → Prop
  | .fork (.monitor _ leader siblings _) => p ∈ leader :: siblings
  | .job (.register j) => j.watched = false ∧ j.leader = some p
  | _ => False

/-- A monitor gets different processes, and a job that nobody waits for is not in the
foreground. -/
@[simp] def WellFormed : Call → Prop
  | .fork (.monitor _ leader siblings _) | .become (.monitor _ leader siblings _) =>
    (leader :: siblings).Nodup
  | .job (.register j) => j.watched = false → j.status = .running
  | _ => True

end Call

namespace Exchange

/-- The table hands a process to the one who asks. -/
@[simp] def hands (p : Pid) : Exchange → Prop
  | ⟨.job (.watch _), r⟩ => r = some p
  | ⟨.job (.toForeground _), r⟩ => ∃ target, r = some (target, some p)
  | _ => False

/-- The answer tells that a process has ended. -/
@[simp] def ends (p : Pid) : Exchange → Bool
  | ⟨.waitExit q, .ok _⟩ => q = p
  | ⟨.waitPause q, .ok (some _)⟩ => q = p
  | ⟨.waitChange q, .ok (.exited _)⟩ => q = p
  | _ => false

end Exchange

/-- The look tells that a process has ended. -/
def Look.ends (p : Pid) (l : Look) : Bool :=
  match l.seen with
  | .ok (some (.exited _)) => l.leader = p
  | _ => false

namespace Act

variable {α β : Type}

/-- The tree may use a right about a process: some way through it does, and the table does not
hand the process out on the way. -/
def May (use : Pid → Call → Prop) (p : Pid) : Act α → Prop
  | .done _ => False
  | .call c next => use p c ∨ ∃ r, ¬ Exchange.hands p ⟨c, r⟩ ∧ (next r).May use p

/-- The tree keeps nothing of what it gives away, nor of a process that it knows to have ended.
What the table hands out is nothing that the tree has already. -/
def Linear : Act α → Prop
  | .done _ => True
  | .call c next => c.WellFormed ∧
    ∀ r, (∀ p, Exchange.hands p ⟨c, r⟩ → ¬ (Act.call c next).May Call.uses p) →
      (∀ p, c.gives p ∨ Exchange.ends p ⟨c, r⟩ → ¬ (next r).May Call.uses p) ∧ (next r).Linear

section May

variable {use use' : Pid → Call → Prop} {p : Pid}

@[simp] lemma not_may_done (a : α) : ¬ (Act.done a).May use p := id

lemma may_call {c : Call} {next : Reply c → Act α} : (Act.call c next).May use p ↔
    use p c ∨ ∃ r, ¬ Exchange.hands p ⟨c, r⟩ ∧ (next r).May use p :=
  Iff.rfl

lemma May.mono (hle : ∀ c, use p c → use' p c) {x : Act α} (h : x.May use p) :
    x.May use' p := by
  induction x with
  | done a => exact h
  | call c next ih =>
    obtain hc | ⟨r, hr, hnext⟩ := h
    · exact .inl (hle c hc)
    · exact .inr ⟨r, hr, ih r hnext⟩

lemma Asks.not_may {kind : Call → Bool} {x : Act α} (h : x.Asks kind)
    (hkind : ∀ c, kind c = true → ¬ use p c) : ¬ x.May use p := by
  induction x with
  | done a => exact id
  | call c next ih =>
    rintro (hc | ⟨r, -, hnext⟩)
    · exact hkind c h.1 hc
    · exact ih r (h.2 r) hnext

lemma May.bind {x : Act α} {f : α → Act β} (h : (x >>= f).May use p) :
    x.May use p ∨ ∃ a, (f a).May use p := by
  induction x with
  | done a => exact .inr ⟨a, h⟩
  | call c next ih =>
    obtain hc | ⟨r, hr, hnext⟩ := h
    · exact .inl (.inl hc)
    · obtain hleft | hright := ih r hnext
      · exact .inl (.inr ⟨r, hr, hleft⟩)
      · exact .inr hright

end May

end Act

namespace Jobs

open Act

variable {α : Type} {p : Pid}

lemma may_collectAll {pids : List Pid} (h : (collectAll pids).May Call.uses p) : p ∈ pids := by
  induction pids with
  | nil => exact h.elim
  | cons q rest ih =>
    simp only [collectAll, ask_bind, may_call] at h
    obtain hq | ⟨r, -, hrest⟩ := h
    · simp [Call.uses, Call.waits, Call.registers] at hq
      simp [hq]
    · obtain hrest | ⟨codes, hdone⟩ := hrest.bind
      · exact List.mem_cons_of_mem q (ih hrest)
      · exact hdone.elim

lemma not_may_joinAll (helpers : List Helper) : ¬ (joinAll helpers).May Call.uses p := by
  induction helpers with
  | nil => exact id
  | cons h rest ih =>
    rintro (huse | ⟨_, -, hrest⟩)
    · simp [Call.uses, Call.waits, Call.registers] at huse
    · exact ih hrest

/-- What a tree may do with processes, behind the wait for some of them. -/
lemma May.of_gather {pids : List Pid} {helpers : List Helper} {f : List Int → Act α}
    (h : (collectAll pids >>= fun codes => joinAll helpers >>= fun _ => f codes).May Call.uses p) :
    p ∈ pids ∨ ∃ codes, (f codes).May Call.uses p := by
  obtain hpids | ⟨codes, hrest⟩ := h.bind
  · exact .inl (may_collectAll hpids)
  · obtain hjoin | ⟨-, hf⟩ := hrest.bind
    · exact absurd hjoin (not_may_joinAll helpers)
    · exact .inr ⟨codes, hf⟩

lemma may_register {line : String} {s : Started} {status : JobStatus} {group : Option Pid}
    (h : (register line s status group).May Call.uses p) : p ∈ s.primary :: s.siblings := by
  rw [register_eq] at h
  simp only [may_call] at h
  grind [Call.uses, Call.waits, Call.registers, Job.ofProcesses, not_may_done]

lemma may_monitor {id : JobId} {leader : Pid} {siblings : List Pid} {helpers : List Helper}
    (h : (monitor id leader siblings helpers).May Call.uses p) : p ∈ leader :: siblings := by
  rw [monitor_eq] at h
  obtain hwait | ⟨r, -, hrest⟩ := h
  · simp at hwait
    simp [hwait]
  · rcases r with e | (code | _ | _)
    · simp [may_call] at hrest
    · obtain hsibling | ⟨_, hfinish⟩ := May.of_gather hrest
      · exact List.mem_cons_of_mem leader hsibling
      · simp [may_call] at hfinish
    · simpa [may_call, become] using hrest
    · simpa [may_call, become] using hrest

lemma may_watch {id : JobId} {siblings : List Pid} {helpers : List Helper}
    (h : (watch id siblings helpers).May Call.uses p) : p ∈ siblings := by
  rw [watch_eq] at h
  obtain hwatch | ⟨r, hnot, hrest⟩ := h
  · simp at hwatch
  · rcases r with _ | q
    · exact hrest.elim
    · obtain hfork | ⟨_, -, hdone⟩ := hrest
      · have hmem : p = q ∨ p ∈ siblings := by simpa using hfork
        exact hmem.resolve_left fun heq => hnot (by simp [heq])
      · exact hdone.elim

lemma may_runForeground {line : String} {s : Started}
    (h : (runForeground line s).May Call.uses p) : p ∈ s.primary :: s.siblings := by
  rw [runForeground_eq] at h
  obtain hseize | ⟨hold, -, hwait | ⟨r, -, hrest⟩⟩ := h
  · simp at hseize
  · simp at hwait
    simp [hwait]
  · rcases r with e | _ | code
    · simp [may_call] at hrest
    · obtain hregister | ⟨id, hpublish⟩ := hrest.bind
      · exact may_register hregister
      · simp [may_call] at hpublish
    · obtain hsibling | ⟨_, hyield⟩ := May.of_gather hrest
      · exact List.mem_cons_of_mem _ hsibling
      · simp [may_call] at hyield

lemma may_runInJob {id : JobId} {s : Started} (h : (runInJob id s).May Call.uses p) :
    p ∈ s.primary :: s.siblings := by
  rw [runInJob_eq] at h
  obtain hadopt | ⟨_, -, hwait | ⟨r, -, hrest⟩⟩ := h
  · simp at hadopt
  · simp at hwait
    simp [hwait]
  · obtain hsibling | ⟨_, hrelease⟩ := May.of_gather hrest
    · exact List.mem_cons_of_mem _ hsibling
    · simp [may_call] at hrelease

lemma not_may_resume (id : JobId) (target : JobTarget) : ¬ (resume id target).May Call.uses p := by
  rintro (hseize | ⟨hold, -, hkill | ⟨r, -, hrest⟩⟩)
  · simp at hseize
  · simp at hkill
  · rcases r with e | ⟨⟩ <;> simp [may_call] at hrest

lemma not_may_foreground (id : JobId) : ¬ (foreground id).May Call.uses p := by
  rw [foreground_eq]
  rintro (hfirst | ⟨r, hnot, hrest⟩)
  · simp at hfirst
  · rcases r with _ | ⟨target, _ | q⟩
    · exact hrest
    · exact not_may_resume id target hrest
    · obtain hfork | ⟨_, -, hresume⟩ := hrest
      · exact hnot ⟨target, by simpa [eq_comm] using hfork⟩
      · exact not_may_resume id target hresume

lemma not_may_background (id : JobId) : ¬ (background id).May Call.uses p := by
  rw [background_eq]
  rintro (hfirst | ⟨_ | target, -, hrest⟩)
  · simp at hfirst
  · exact hrest
  · obtain hkill | ⟨e | ⟨⟩, -, hend⟩ := hrest
    · simp at hkill
    · simp [may_call] at hend
    · exact hend

/-! ### Nothing is kept -/

lemma collectAll_cons_bind (q : Pid) (rest : List Pid) (f : List Int → Act α) :
    collectAll (q :: rest) >>= f = .call (.waitExit q) fun r => collectAll rest >>= fun codes =>
      f ((match r with
        | .ok e => e.status
        | .error _ => 1) :: codes) := by
  refine congrArg (Act.call (.waitExit q)) (funext fun r => ?_)
  exact bind_assoc (collectAll rest) _ f

lemma linear_collectAll_bind {pids : List Pid} (hnodup : pids.Nodup) {f : List Int → Act α}
    (hf : ∀ codes, (f codes).Linear) (hnot : ∀ p ∈ pids, ∀ codes, ¬ (f codes).May Call.uses p) :
    (collectAll pids >>= f).Linear := by
  induction pids generalizing f with
  | nil => exact hf []
  | cons q rest ih =>
    obtain ⟨hq, hrest⟩ := List.nodup_cons.1 hnodup
    rw [collectAll_cons_bind]
    refine ⟨trivial, fun r _ => ⟨fun p hp hmay => ?_, ?_⟩⟩
    · obtain rfl : q = p := by
        rcases r with e | e <;> simp at hp
        exact hp
      obtain hcollect | ⟨codes, hcodes⟩ := hmay.bind
      · exact hq (may_collectAll hcollect)
      · exact hnot q List.mem_cons_self _ hcodes
    · exact ih hrest (fun codes => hf _) fun p hp codes => hnot p (List.mem_cons_of_mem q hp) _

lemma linear_joinAll_bind (helpers : List Helper) {f : Unit → Act α} (hf : (f ()).Linear) :
    (joinAll helpers >>= f).Linear := by
  induction helpers with
  | nil => exact hf
  | cons h rest ih => exact ⟨trivial, fun _ _ => ⟨by simp, ih⟩⟩

lemma linear_gather {pids : List Pid} (hnodup : pids.Nodup) (helpers : List Helper)
    {f : List Int → Act α} (hf : ∀ codes, (f codes).Linear)
    (hnot : ∀ p ∈ pids, ∀ codes, ¬ (f codes).May Call.uses p) :
    (collectAll pids >>= fun codes => joinAll helpers >>= fun _ => f codes).Linear := by
  refine linear_collectAll_bind hnodup (fun codes => linear_joinAll_bind helpers (hf codes)) ?_
  intro p hp codes hmay
  obtain hjoin | ⟨_, hcodes⟩ := hmay.bind
  · exact not_may_joinAll helpers hjoin
  · exact hnot p hp codes hcodes

lemma linear_register {line : String} {s : Started} {status : JobStatus} {group : Option Pid}
    (hnodup : (s.primary :: s.siblings).Nodup) {f : JobId → Act α} (hf : ∀ id, (f id).Linear)
    (hnot : ∀ p id, ¬ (f id).May Call.uses p) :
    (register line s status group >>= f).Linear := by
  rw [register_eq]
  refine ⟨by simp [Job.ofProcesses], fun id _ => ⟨by simp [Job.ofProcesses], hnodup, fun _ _ => ?_⟩⟩
  exact ⟨fun p _ => hnot p id, hf id⟩

lemma linear_monitor {id : JobId} {leader : Pid} {siblings : List Pid} {helpers : List Helper}
    (hnodup : (leader :: siblings).Nodup) : (monitor id leader siblings helpers).Linear := by
  obtain ⟨hleader, hsiblings⟩ := List.nodup_cons.1 hnodup
  rw [monitor_eq]
  refine ⟨trivial, fun r _ => ?_⟩
  rcases r with e | (code | _ | _)
  · simp [Linear]
  · refine ⟨fun p hp hmay => ?_,
      linear_gather hsiblings helpers (by simp [Linear]) (by simp [may_call])⟩
    obtain rfl : leader = p := by simpa using hp
    obtain hsibling | ⟨_, hfinish⟩ := May.of_gather hmay
    · exact hleader hsibling
    · simp [may_call] at hfinish
  · simp [Linear, become, hleader, hsiblings]
  · simp [Linear, become, hleader, hsiblings]

lemma linear_watch {id : JobId} {siblings : List Pid} {helpers : List Helper}
    (hnodup : siblings.Nodup) : (watch id siblings helpers).Linear := by
  rw [watch_eq]
  refine ⟨trivial, fun r hnew => ⟨by simp, ?_⟩⟩
  rcases r with _ | q
  · trivial
  · refine ⟨List.nodup_cons.2 ⟨fun hq => hnew q rfl ?_, hnodup⟩, fun _ _ => ⟨by simp, trivial⟩⟩
    -- Whoever is handed another process gives this one to the monitor, too.
    exact .inr ⟨some (q + 1), by simp, .inl (by simp [hq])⟩

lemma linear_runForeground {line : String} {s : Started}
    (hnodup : (s.primary :: s.siblings).Nodup) : (runForeground line s).Linear := by
  obtain ⟨hprimary, hsiblings⟩ := List.nodup_cons.1 hnodup
  rw [runForeground_eq]
  refine ⟨trivial, fun hold _ => ⟨by simp, trivial, fun r _ => ?_⟩⟩
  rcases r with e | _ | code
  · simp [Linear]
  · exact ⟨by simp, linear_register hnodup (by simp [Linear]) (by simp [may_call])⟩
  · refine ⟨fun p hp hmay => ?_,
      linear_gather hsiblings s.helpers (by simp [Linear]) (by simp [may_call])⟩
    obtain rfl : s.primary = p := by simpa using hp
    obtain hsibling | ⟨_, hyield⟩ := May.of_gather hmay
    · exact hprimary hsibling
    · simp [may_call] at hyield

lemma linear_runInJob {id : JobId} {s : Started} (hnodup : (s.primary :: s.siblings).Nodup) :
    (runInJob id s).Linear := by
  obtain ⟨hprimary, hsiblings⟩ := List.nodup_cons.1 hnodup
  rw [runInJob_eq]
  refine ⟨trivial, fun _ _ => ⟨by simp, trivial, fun r _ => ⟨fun p hp hmay => ?_, ?_⟩⟩⟩
  · obtain rfl : s.primary = p := by
      rcases r with e | e <;> simp at hp
      exact hp
    obtain hsibling | ⟨_, hrelease⟩ := May.of_gather hmay
    · exact hprimary hsibling
    · simp [may_call] at hrelease
  · exact linear_gather hsiblings s.helpers (by simp [Linear]) (by simp [may_call])

lemma linear_resume (id : JobId) (target : JobTarget) : (resume id target).Linear := by
  refine ⟨trivial, fun hold _ => ⟨by simp, trivial, fun r _ => ⟨by simp, ?_⟩⟩⟩
  rcases r with e | ⟨⟩ <;> simp [Linear]

lemma linear_foreground (id : JobId) : (foreground id).Linear := by
  rw [foreground_eq]
  refine ⟨trivial, fun r _ => ⟨by simp, ?_⟩⟩
  rcases r with _ | ⟨target, _ | q⟩
  · trivial
  · exact linear_resume id target
  · exact ⟨by simp, fun _ _ => ⟨fun p _ => not_may_resume id target, linear_resume id target⟩⟩

lemma linear_background (id : JobId) : (background id).Linear := by
  rw [background_eq]
  refine ⟨trivial, fun r _ => ⟨by simp, ?_⟩⟩
  rcases r with _ | target
  · trivial
  · refine ⟨trivial, fun r _ => ⟨by simp, ?_⟩⟩
    rcases r with e | ⟨⟩ <;> simp [Linear]

end Jobs

/-- A service may use no process but those that it is handed. -/
lemma Service.may_act {s : Service} {p : Pid} (h : s.act.May Call.uses p) : p ∈ s.pids := by
  cases s with
  | addJob command leader =>
    simpa [act, Act.jobs, Act.may_call, Job.unwatched, Job.ofProcesses, pids, eq_comm] using h
  | addPipeline line started stopped group => exact Jobs.may_register h
  | runForeground line started => exact Jobs.may_runForeground h
  | runInJob id started => exact Jobs.may_runInJob h
  | worker line code => simp [act, Act.jobs, Act.may_call, Job.ofWorker] at h
  | watch id siblings helpers => exact Jobs.may_watch h
  | foreground id => exact absurd h (Jobs.not_may_foreground id)
  | background id => exact absurd h (Jobs.not_may_background id)
  | remove id => simp [act, Act.jobs, Act.may_call] at h
  | reap => simp [act, Act.ask, Act.may_call] at h
  | takeEvents => simp [act, Act.jobs, Act.may_call] at h
  | monitor id leader siblings helpers => exact Jobs.may_monitor h

/-- A service that is handed different processes keeps nothing of what it gives away. -/
lemma Service.linear_act {s : Service} (hnodup : s.pids.Nodup) : s.act.Linear := by
  cases s with
  | addJob command leader => simp [act, Act.jobs, Act.Linear, Job.unwatched, Job.ofProcesses]
  | addPipeline line started stopped group =>
    rw [act, ← bind_pure (Jobs.register ..)]
    exact Jobs.linear_register hnodup (fun _ => trivial) fun _ _ => id
  | runForeground line started => exact Jobs.linear_runForeground hnodup
  | runInJob id started => exact Jobs.linear_runInJob hnodup
  | worker line code => simp [act, Act.jobs, Act.Linear, Job.ofWorker]
  | watch id siblings helpers => exact Jobs.linear_watch hnodup
  | foreground id => exact Jobs.linear_foreground id
  | background id => exact Jobs.linear_background id
  | remove id => simp [act, Act.jobs, Act.Linear]
  | reap => simp [act, Act.ask, Act.Linear]
  | takeEvents => simp [act, Act.jobs, Act.Linear]
  | monitor id leader siblings helpers => exact Jobs.linear_monitor hnodup

/-! ## Jobs that nobody waits for -/

/-- A look at a job that runs or has stopped leaves it so, if at all. -/
lemma Job.quiet_of_seen {j j' : Job} {s : Except Errno (Option Transition)}
    (h : j.seen s = some j') (hj : j.status = .running ∨ j.status = .stopped) :
    j'.status = .running ∨ j'.status = .stopped := by
  unfold Job.seen at h
  split at h <;> grind [Job.ended, Job.paused, Job.resumed]

namespace JobTable

/-- Only a job with a monitor comes to the foreground. -/
lemma Op.quiet_of_change {op : Op} {j j' : Job} (h : op.change j = some j')
    (hwatched : j'.watched = false) (hj : j.status = .running ∨ j.status = .stopped) :
    j'.status = .running ∨ j'.status = .stopped := by
  cases op <;> simp only [Op.change, Job.ended, Job.paused, Job.resumed] at h <;> grind

/-- The job has no monitor. -/
def Unwatched (t : JobTable) (id : JobId) (leader : Pid) : Prop :=
  ∃ j, t.get? id = some j ∧ j.watched = false ∧ j.leader = some leader

lemma unwatched_of_settle {t : JobTable} {id i : JobId} {p : Pid}
    {seen : Except Errno (Option Transition)} (h : (t.settle id seen).Unwatched i p) :
    t.Unwatched i p := by
  obtain ⟨j', hj', hwatched, hleader⟩ := h
  obtain ⟨j, hj, rfl | ⟨-, hseen⟩⟩ := get?_of_settle hj'
  · exact ⟨j', hj, hwatched, hleader⟩
  · obtain ⟨hl, hw⟩ := Job.leader_of_seen hseen
    exact ⟨j, hj, hw ▸ hwatched, hl ▸ hleader⟩

/-- A job that nobody waits for is new, or was there before. -/
lemma unwatched_of_apply {t t' : JobTable} {op : Op} {r : op.Result}
    (happly : t.apply op = some (r, t')) {i : JobId} {p : Pid} (h : t'.Unwatched i p) :
    t.Unwatched i p ∨ i = t.nextId ∧ Call.gives p (.job op) := by
  obtain ⟨j', hj', hwatched, hleader⟩ := h
  obtain ⟨rfl, hi⟩ | ⟨j, hj, ⟨-, rfl⟩ | ⟨-, hchange⟩⟩ := get?_of_apply happly hj'
  · exact .inr ⟨hi, hwatched, hleader⟩
  · exact .inl ⟨j', hj, hwatched, hleader⟩
  · obtain ⟨hl, hw⟩ := Op.leader_of_change hchange
    exact .inl ⟨j, hj, hw hwatched, hl ▸ hleader⟩

/-- The table hands out the leader of a job that nobody has waited for so far. -/
lemma unwatched_of_hands {t t' : JobTable} {op : Op} {r : op.Result}
    (happly : t.apply op = some (r, t')) {p : Pid} (h : Exchange.hands p ⟨.job op, r⟩) :
    ∃ id, t.Unwatched id p ∧ ∀ q, ¬ t'.Unwatched id q := by
  cases op with
  | watch id =>
    obtain rfl : r = some p := h
    have hwatch : t.watch id = (some p, t') := Option.some.inj happly
    unfold JobTable.watch at hwatch
    cases hj : t.get? id with
    | none => simp [hj] at hwatch
    | some j =>
      obtain ⟨hwatched, hleader⟩ : j.watched = false ∧ j.leader = some p := by
        grind
      refine ⟨id, ⟨j, hj, hwatched, hleader⟩, ?_⟩
      rintro q ⟨j', hj', hfalse, -⟩
      have hget := get?_apply happly id
      simp [hj', hj, Op.entry, Op.about, Op.change, hleader] at hget
      simp [hget] at hfalse
  | toForeground id =>
    obtain ⟨target, rfl⟩ := h
    have hfg : t.toForeground id = (some (target, some p), t') := Option.some.inj happly
    unfold JobTable.toForeground at hfg
    cases hj : t.get? id with
    | none => simp [hj] at hfg
    | some j =>
      obtain ⟨hdone, hwatched, hleader⟩ :
          j.status ≠ .done ∧ j.watched = false ∧ j.leader = some p := by
        grind
      refine ⟨id, ⟨j, hj, hwatched, hleader⟩, ?_⟩
      rintro q ⟨j', hj', hfalse, -⟩
      have hget := get?_apply happly id
      simp [hj', hj, Op.entry, Op.about, Op.change, hdone] at hget
      simp [hget] at hfalse
  | _ => exact h.elim

/-- Nothing but the table hands out processes. -/
lemma Answers.unwatched_of_hands {t t' : JobTable} {c : Call} {r : Reply c}
    (hanswer : t.Answers c r t') {p : Pid} (h : Exchange.hands p ⟨c, r⟩) :
    ∃ id, t.Unwatched id p ∧ ∀ q, ¬ t'.Unwatched id q := by
  cases hanswer with
  | job happly => exact JobTable.unwatched_of_hands happly h
  | other _ hother =>
    cases c with
    | job op => exact absurd rfl (hother op)
    | _ => exact h.elim

lemma Answers.unwatched {t t' : JobTable} {c : Call} {r : Reply c} (hanswer : t.Answers c r t')
    {id : JobId} {p : Pid} (h : t'.Unwatched id p) :
    t.Unwatched id p ∨ id = t.nextId ∧ ∃ j, c = .job (.register j) ∧ c.gives p := by
  cases hanswer with
  | @job op r _ happly =>
    obtain hold | ⟨hid, hgives⟩ := unwatched_of_apply happly h
    · exact .inl hold
    · cases op with
      | register j => exact .inr ⟨hid, j, rfl, hgives⟩
      | _ => exact hgives.elim
  | other => exact .inl h

end JobTable

end Conch
