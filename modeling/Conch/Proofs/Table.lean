import Conch.Job.Table
import Mathlib.Data.List.Basic
import Mathlib.Data.List.Pairwise
import Mathlib.Tactic.Common

/-!
# What an operation does to one job

The table is a list in the order of the numbers, but nothing that is said about jobs depends on
the list.  What counts is the job under a number, and every operation does something to the jobs
one by one: it makes another job of a job, takes it away, or puts a new one under the next number.

## Main definitions

* `JobTable.Ordered` — the numbers of the jobs increase.
* `Job.ended`, `Job.paused`, `Job.resumed` — a job whose leader has ended, stopped or gone on.
* `JobTable.Op.change`, `JobTable.Op.entry` — what an operation makes of a job, and of what stands
  under a number.
* `Job.seen` — what a look at its leader makes of a job that nobody waits for.
* `JobTable.doneEvents` — how often the end of a job waits to be reported.

## Main results

* `JobTable.get?_apply`, `JobTable.get?_settle` — the jobs behind an operation, one by one.
* `JobTable.doneEvents_apply`, `JobTable.doneEvents_settle` — the end of a job is announced only
  by taking the job away.
* `JobTable.Ordered.mem_unattended` — the jobs that nobody waits for.
-/

set_option autoImplicit false

namespace Conch

/-! ## Jobs -/

namespace Job

/-- A job that has ended: a waiter in the foreground finds the code in it, any other job is gone. -/
def ended (j : Job) (code : Int) : Option Job :=
  if j.status = .foreground then some { j with status := .done, code := some code } else none

/-- A job that has stopped. -/
def paused (j : Job) : Job := { j with status := .stopped }

/-- A job that goes on. -/
def resumed (j : Job) : Job := if j.status = .stopped then { j with status := .running } else j

/-- What a look at its leader makes of a job that nobody waits for. -/
def seen (j : Job) (seen : Except Errno (Option Transition)) : Option Job :=
  match seen with
  | .ok (some (.exited code)) => j.ended code
  | .ok (some .stopped) => some j.paused
  | .ok (some .continued) => some j.resumed
  | .ok none => some j
  | .error e => if e = .noChild then none else some j

lemma paused_of_status {j : Job} (h : j.status = .stopped) : j.paused = j := by
  obtain ⟨⟩ := j
  cases h
  rfl

lemma leader_of_seen {j j' : Job} {s : Except Errno (Option Transition)}
    (h : j.seen s = some j') : j'.leader = j.leader ∧ j'.watched = j.watched := by
  unfold seen at h
  split at h <;> grind [ended, paused, resumed]

end Job

namespace JobTable

/-! ## The job under a number -/

lemma lookup_cons {α : Type} (k i : JobId) (a : α) (rest : List (JobId × α)) :
    ((k, a) :: rest).lookup i = if i = k then some a else rest.lookup i := by
  rw [List.lookup_cons]
  by_cases h : i = k
  · simp [h]
  · simp [h, beq_false_of_ne h]

section Lookup

variable (t : JobTable) (id i : JobId)

@[simp] lemma get?_publish (status : JobStatus) (command : String) :
    (t.publish id status command).get? i = t.get? i :=
  rfl

lemma get?_update (f : Job → Job) :
    (t.update id f).get? i = if i = id then (t.get? i).map f else t.get? i := by
  unfold get? update
  induction t.jobs with
  | nil => simp
  | cons entry rest ih =>
    obtain ⟨k, j⟩ := entry
    by_cases hk : k = id
    · simp only [List.map_cons, hk, if_true, lookup_cons, ih]
      split <;> rfl
    · simp only [List.map_cons, hk, if_false, lookup_cons, ih]
      grind

lemma get?_remove : (t.remove id).2.get? i = if i = id then none else t.get? i := by
  unfold get? remove
  induction t.jobs with
  | nil => simp
  | cons entry rest ih =>
    obtain ⟨k, j⟩ := entry
    by_cases hk : k = id <;> simp only [List.filter_cons, hk, lookup_cons] <;> grind [lookup_cons]

lemma lookup_insertJob (j : Job) (jobs : List (JobId × Job)) :
    (insertJob id j jobs).lookup i = if i = id then some j else jobs.lookup i := by
  induction jobs with
  | nil => simp [insertJob, lookup_cons]
  | cons entry rest ih =>
    obtain ⟨k, j'⟩ := entry
    unfold insertJob
    grind [lookup_cons]

lemma get?_register (j : Job) :
    (t.register j).2.get? i = if i = t.nextId then some j else t.get? i :=
  lookup_insertJob ..

lemma get?_stopped :
    (t.stopped id).get? i = if i = id then (t.get? i).map Job.paused else t.get? i := by
  unfold stopped
  split
  case h_1 hnone => grind
  case h_2 j hsome =>
    split
    case isTrue hstatus =>
      split
      case isTrue hi => simp [hi, hsome, Job.paused_of_status hstatus]
      case isFalse => rfl
    case isFalse => exact get?_update t id i Job.paused

lemma get?_continued :
    (t.continued id).get? i = if i = id then (t.get? i).map Job.resumed else t.get? i :=
  get?_update t id i Job.resumed

lemma get?_finish (code : Int) :
    (t.finish id code).get? i = if i = id then (t.get? i).bind (·.ended code) else t.get? i := by
  unfold finish
  split
  case h_1 hnone => grind
  case h_2 j hsome =>
    split
    case isTrue hstatus =>
      rw [get?_update]
      split
      case isTrue hi => simp [hi, hsome, Job.ended, hstatus]
      case isFalse => rfl
    case isFalse hstatus =>
      rw [get?_publish, get?_remove]
      split
      case isTrue hi => simp [hi, hsome, Job.ended, hstatus]
      case isFalse => rfl

/-- The jobs behind a look at one that nobody waits for. -/
lemma get?_settle (seen : Except Errno (Option Transition)) :
    (t.settle id seen).get? i = if i = id then (t.get? i).bind (·.seen seen) else t.get? i := by
  rcases seen with e | _ | (code | _ | _)
  · by_cases he : e = .noChild
    · simp [he, settle, get?_remove, Job.seen]
    · simp [settle, Job.seen, he]
  · simp [settle, Job.seen]
  · exact get?_finish t id i code
  · unfold settle
    cases hj : t.get? id with
    | none => grind
    | some j =>
      refine (get?_update t id i Job.paused).trans ?_
      simp [Job.seen, Option.map_eq_bind, Function.comp_def]
  · simp [settle, Job.seen, get?_continued, Option.map_eq_bind, Function.comp_def]

end Lookup

/-- A job behind a look is what the look has made of one that was there. -/
lemma get?_of_settle {t : JobTable} {id i : JobId} {seen : Except Errno (Option Transition)}
    {j' : Job} (hj' : (t.settle id seen).get? i = some j') :
    ∃ j, t.get? i = some j ∧ (j' = j ∨ i = id ∧ j.seen seen = some j') := by
  rw [get?_settle] at hj'
  split at hj'
  case isTrue hi =>
    obtain ⟨j, hj, hseen⟩ := Option.bind_eq_some_iff.1 hj'
    exact ⟨j, hj, .inr ⟨hi, hseen⟩⟩
  case isFalse => exact ⟨j', hj', .inl rfl⟩

/-! ## Operations -/

/-- The number of the job that an operation is about. -/
def Op.about : Op → Option JobId
  | .remove id | .stopped id | .continued id | .finish id _ | .adopt id _ | .release id _
  | .watch id | .toForeground id | .toBackground id | .collect id => some id
  | _ => none

/-- What an operation makes of the job that it is about; nothing if it takes the job away. -/
def Op.change (op : Op) (j : Job) : Option Job :=
  match op with
  | .remove _ => none
  | .stopped _ => some j.paused
  | .continued _ => some j.resumed
  | .finish _ code => j.ended code
  | .adopt _ pids => some { j with pids := j.pids ++ pids }
  | .release _ pids => some { j with pids := j.pids.filter (· ∉ pids) }
  | .watch _ => some (if j.leader.isSome then { j with watched := true } else j)
  | .toForeground _ =>
    some (if j.status = .done then j else { j with status := .foreground, watched := true })
  | .toBackground _ => some (if j.status = .done then j else { j with status := .running })
  | .collect _ => if j.status = .done then none else some j
  | _ => some j

/-- What an operation makes of what is under a number, given the next number. -/
def Op.entry (op : Op) (next i : JobId) (entry : Option Job) : Option Job :=
  match op with
  | .register j => if i = next then some j else entry
  | op => if op.about = some i then entry.bind op.change else entry

section Apply

variable {t t' : JobTable} {op : Op} {r : op.Result}

lemma get?_watch (t : JobTable) (id i : JobId) :
    (t.watch id).2.get? i = if i = id then (t.get? i).bind (Op.watch id).change else t.get? i := by
  unfold watch
  cases hj : t.get? id with
  | none => grind
  | some j =>
    obtain ⟨_, leader, _, _, _, _, watched⟩ := j
    cases leader <;> cases watched <;> by_cases hi : i = id <;>
      simp [hi, hj, get?_update, Op.change]

lemma get?_toForeground (t : JobTable) (id i : JobId) :
    (t.toForeground id).2.get? i =
      if i = id then (t.get? i).bind (Op.toForeground id).change else t.get? i := by
  unfold toForeground
  cases hj : t.get? id with
  | none => grind
  | some j =>
    by_cases hdone : j.status = .done <;> by_cases hi : i = id <;>
      simp [hi, hj, hdone, get?_update, Op.change]

lemma get?_toBackground (t : JobTable) (id i : JobId) :
    (t.toBackground id).2.get? i =
      if i = id then (t.get? i).bind (Op.toBackground id).change else t.get? i := by
  unfold toBackground
  cases hj : t.get? id with
  | none => grind
  | some j =>
    by_cases hdone : j.status = .done <;> by_cases hi : i = id <;>
      simp [hi, hj, hdone, get?_update, Op.change]

lemma get?_collect {t t' : JobTable} {id : JobId} {code : Int}
    (h : t.collect id = some (code, t')) (i : JobId) :
    t'.get? i = if i = id then (t.get? i).bind (Op.collect id).change else t.get? i := by
  unfold collect at h
  cases hj : t.get? id with
  | none => grind
  | some j =>
    rw [hj] at h
    cases hstatus : j.status with
    | running => simp [hstatus] at h
    | foreground => simp [hstatus] at h
    | stopped =>
      obtain ⟨-, rfl⟩ : _ ∧ t = t' := by simpa [hstatus] using h
      by_cases hi : i = id <;> simp [hi, hj, hstatus, Op.change]
    | done =>
      obtain ⟨-, rfl⟩ : _ ∧ (t.remove id).2 = t' := by simpa [hstatus] using h
      by_cases hi : i = id <;> simp [hi, hj, hstatus, get?_remove, Op.change]

@[simp] lemma jobs_seize (t : JobTable) (job : Option JobId) (pids : List Pid) :
    (t.seize job pids).2.jobs = t.jobs := by
  unfold seize
  split <;> rfl

@[simp] lemma jobs_yieldBack (t : JobTable) (hold : Hold) :
    (t.yieldBack hold).jobs = t.jobs := by
  unfold yieldBack
  split
  · rfl
  · split <;> rfl

/-- The table behind an operation that does not wait. -/
lemma table_of_apply {x : op.Result × JobTable} (h : t.apply op = some (r, t'))
    (hx : t.apply op = some x) : x.2 = t' := by
  rw [hx] at h
  exact congrArg Prod.snd (Option.some.inj h)

/-- **The jobs behind an operation**, one by one. -/
theorem get?_apply (h : t.apply op = some (r, t')) (i : JobId) :
    t'.get? i = op.entry t.nextId i (t.get? i) := by
  cases op with
  | collect id => simp [get?_collect h, Op.entry, Op.about, eq_comm]
  | register j =>
    rw [← table_of_apply h rfl]
    exact get?_register t i j
  | remove id =>
    rw [← table_of_apply h rfl, get?_remove]
    cases t.get? i <;> simp [Op.entry, Op.about, Op.change, eq_comm]
  | stopped id =>
    rw [← table_of_apply h rfl, get?_stopped]
    cases t.get? i <;> simp [Op.entry, Op.about, Op.change, eq_comm]
  | continued id =>
    rw [← table_of_apply h rfl, get?_continued]
    cases t.get? i <;> simp [Op.entry, Op.about, Op.change, eq_comm]
  | finish id code =>
    rw [← table_of_apply h rfl, get?_finish]
    cases t.get? i <;> simp [Op.entry, Op.about, Op.change, eq_comm]
  | adopt id pids =>
    rw [← table_of_apply h rfl, adopt, get?_update]
    cases t.get? i <;> simp [Op.entry, Op.about, Op.change, eq_comm]
  | release id pids =>
    rw [← table_of_apply h rfl, release, get?_update]
    cases t.get? i <;> simp [Op.entry, Op.about, Op.change, eq_comm]
  | watch id =>
    rw [← table_of_apply h rfl, get?_watch]
    simp [Op.entry, Op.about, eq_comm]
  | toForeground id =>
    rw [← table_of_apply h rfl, get?_toForeground]
    simp [Op.entry, Op.about, eq_comm]
  | toBackground id =>
    rw [← table_of_apply h rfl, get?_toBackground]
    simp [Op.entry, Op.about, eq_comm]
  | _ =>
    rw [← table_of_apply h rfl]
    simp [get?, Op.entry, Op.about, publish, takeEvents]

/-- A job behind an operation is new, or what the operation has made of one that was there. -/
lemma get?_of_apply (h : t.apply op = some (r, t'))
    {i : JobId} {j' : Job} (hj' : t'.get? i = some j') :
    (op = .register j' ∧ i = t.nextId) ∨ ∃ j, t.get? i = some j ∧
      (op.about ≠ some i ∧ j' = j ∨ op.about = some i ∧ op.change j = some j') := by
  rw [get?_apply h] at hj'
  unfold Op.entry at hj'
  split at hj'
  case h_1 j =>
    split at hj'
    case isTrue hi => exact .inl ⟨by rw [Option.some.inj hj'], hi⟩
    case isFalse => exact .inr ⟨j', hj', .inl ⟨nofun, rfl⟩⟩
  case h_2 =>
    split at hj'
    case isTrue habout =>
      obtain ⟨j, hj, hchange⟩ := Option.bind_eq_some_iff.1 hj'
      exact .inr ⟨j, hj, .inr ⟨habout, hchange⟩⟩
    case isFalse habout => exact .inr ⟨j', hj', .inl ⟨habout, rfl⟩⟩

/-- An operation never takes a monitor away, nor changes a leader. -/
lemma Op.leader_of_change {j j' : Job} (h : op.change j = some j') :
    j'.leader = j.leader ∧ (j'.watched = false → j.watched = false) := by
  cases op <;> simp only [Op.change, Job.ended, Job.paused, Job.resumed] at h <;> grind

end Apply

/-! ## Numbers and events -/

/-- The operation puts a new job into the table. -/
def Op.isRegister : Op → Bool
  | .register _ => true
  | _ => false

section Frame

variable (t : JobTable) (id : JobId)

lemma frame_watch : (t.watch id).2.nextId = t.nextId ∧ (t.watch id).2.events = t.events := by
  unfold watch
  grind [update]

lemma frame_toForeground :
    (t.toForeground id).2.nextId = t.nextId ∧ (t.toForeground id).2.events = t.events := by
  unfold toForeground
  grind [update]

lemma frame_toBackground :
    (t.toBackground id).2.nextId = t.nextId ∧ (t.toBackground id).2.events = t.events := by
  unfold toBackground
  grind [update]

lemma frame_collect {t t' : JobTable} {id : JobId} {code : Int}
    (h : t.collect id = some (code, t')) : t'.nextId = t.nextId ∧ t'.events = t.events := by
  unfold collect at h
  grind [remove]

lemma frame_seize (job : Option JobId) (pids : List Pid) :
    (t.seize job pids).2.nextId = t.nextId ∧ (t.seize job pids).2.events = t.events := by
  unfold seize
  grind

lemma frame_yieldBack (hold : Hold) :
    (t.yieldBack hold).nextId = t.nextId ∧ (t.yieldBack hold).events = t.events := by
  unfold yieldBack
  grind

lemma nextId_stopped : (t.stopped id).nextId = t.nextId := by
  unfold stopped
  grind [update, publish]

lemma nextId_finish (code : Int) : (t.finish id code).nextId = t.nextId := by
  unfold finish
  grind [update, publish, remove]

lemma nextId_settle (seen : Except Errno (Option Transition)) :
    (t.settle id seen).nextId = t.nextId := by
  unfold settle
  grind [update, publish, remove, continued, nextId_finish]

end Frame

section Apply

variable {t t' : JobTable} {op : Op} {r : op.Result}

/-- Only a new job moves the next number. -/
lemma nextId_apply (h : t.apply op = some (r, t')) :
    t'.nextId = if op.isRegister then (t.nextId + 1) % (Job.maxId + 1) else t.nextId := by
  cases op with
  | collect id => exact (frame_collect h).1
  | stopped id => exact table_of_apply h rfl ▸ nextId_stopped t id
  | finish id code => exact table_of_apply h rfl ▸ nextId_finish t id code
  | watch id => exact table_of_apply h rfl ▸ (frame_watch t id).1
  | toForeground id => exact table_of_apply h rfl ▸ (frame_toForeground t id).1
  | toBackground id => exact table_of_apply h rfl ▸ (frame_toBackground t id).1
  | seize job pids => exact table_of_apply h rfl ▸ (frame_seize t job pids).1
  | yieldBack hold => exact table_of_apply h rfl ▸ (frame_yieldBack t hold).1
  | _ => exact table_of_apply h rfl ▸ rfl

end Apply

/-! ## Announcing the end of a job -/

/-- How many of the events tell that a job has ended. -/
def doneEvents (id : JobId) (events : List JobEvent) : Nat :=
  events.countP fun e => e.id = id ∧ e.status = .done

@[simp] lemma doneEvents_append (id : JobId) (es es' : List JobEvent) :
    doneEvents id (es ++ es') = doneEvents id es + doneEvents id es' :=
  List.countP_append

section DoneEvents

variable (t : JobTable) (id k : JobId)

lemma doneEvents_publish (status : JobStatus) (command : String) :
    doneEvents id (t.publish k status command).events =
      doneEvents id t.events + if k = id ∧ status = .done then 1 else 0 := by
  simp [publish, doneEvents, List.countP_cons]

lemma doneEvents_stopped : doneEvents id (t.stopped k).events = doneEvents id t.events := by
  unfold stopped
  split
  · rfl
  · split
    · rfl
    · simp [doneEvents_publish, update]

/-- The end of a job is announced only by taking the job away. -/
lemma doneEvents_finish (code : Int) :
    doneEvents id (t.finish k code).events = doneEvents id t.events ∨
      doneEvents id (t.finish k code).events = doneEvents id t.events + 1 ∧
        (t.get? id).isSome ∧ (t.finish k code).get? id = none := by
  rw [get?_finish]
  unfold finish
  cases hj : t.get? k with
  | none => exact .inl rfl
  | some j =>
    by_cases hfg : j.status = .foreground
    · left
      simp [hfg, update]
    · by_cases hk : k = id
      · right
        subst hk
        simp [hfg, doneEvents_publish, remove, hj, Job.ended]
      · left
        simp [hfg, doneEvents_publish, remove, hk]

lemma doneEvents_settle (seen : Except Errno (Option Transition)) :
    doneEvents id (t.settle k seen).events = doneEvents id t.events ∨
      doneEvents id (t.settle k seen).events = doneEvents id t.events + 1 ∧
        (t.get? id).isSome ∧ (t.settle k seen).get? id = none := by
  rcases seen with e | _ | (code | _ | _)
  · left
    by_cases he : e = .noChild <;> simp [he, settle, remove]
  · exact .inl rfl
  · exact doneEvents_finish t id k code
  · left
    unfold settle
    cases hj : t.get? k with
    | none => rfl
    | some j => simp [doneEvents_publish, update]
  · exact .inl rfl

end DoneEvents

/-- An operation announces the end of a job only by taking the job away. -/
lemma doneEvents_apply {t t' : JobTable} {op : Op} {r : op.Result} (h : t.apply op = some (r, t'))
    (htake : op ≠ .takeEvents) (hpublish : ∀ i command, op ≠ .publish i .done command)
    (id : JobId) :
    doneEvents id t'.events = doneEvents id t.events ∨
      doneEvents id t'.events = doneEvents id t.events + 1 ∧
        (t.get? id).isSome ∧ t'.get? id = none ∧ ∀ i, op ≠ .collect i := by
  cases op with
  | takeEvents => exact absurd rfl htake
  | publish i status command =>
    left
    rw [← table_of_apply h rfl, doneEvents_publish]
    have hstatus : status ≠ .done := fun hdone => hpublish i command (by rw [hdone])
    simp [hstatus]
  | finish i code =>
    rw [← table_of_apply h rfl]
    obtain heq | ⟨heq, hsome, hnone⟩ := doneEvents_finish t id i code
    · exact .inl heq
    · exact .inr ⟨heq, hsome, hnone, by simp⟩
  | stopped i => exact .inl (table_of_apply h rfl ▸ doneEvents_stopped t id i)
  | collect i => exact .inl (by rw [(frame_collect h).2])
  | watch i => exact .inl (table_of_apply h rfl ▸ by rw [(frame_watch t i).2])
  | toForeground i => exact .inl (table_of_apply h rfl ▸ by rw [(frame_toForeground t i).2])
  | toBackground i => exact .inl (table_of_apply h rfl ▸ by rw [(frame_toBackground t i).2])
  | seize job pids => exact .inl (table_of_apply h rfl ▸ by rw [(frame_seize t job pids).2])
  | yieldBack hold => exact .inl (table_of_apply h rfl ▸ by rw [(frame_yieldBack t hold).2])
  | _ => exact .inl (table_of_apply h rfl ▸ rfl)

/-! ## The order of the numbers -/

/-- The numbers of the jobs increase. -/
def Ordered (t : JobTable) : Prop := t.jobs.Pairwise (·.1 < ·.1)

lemma Ordered.of_keys {t t' : JobTable} (h : t.Ordered)
    (hkeys : t'.jobs.map Prod.fst = t.jobs.map Prod.fst) : t'.Ordered := by
  have hmap : (t.jobs.map Prod.fst).Pairwise (· < ·) := List.pairwise_map.2 h
  exact List.pairwise_map.1 (hkeys ▸ hmap)

lemma Ordered.update {t : JobTable} (h : t.Ordered) (id : JobId) (f : Job → Job) :
    (t.update id f).Ordered := by
  refine h.of_keys ?_
  simp only [JobTable.update, List.map_map]
  refine List.map_congr_left fun entry _ => ?_
  simp only [Function.comp_apply]
  split <;> rfl

lemma Ordered.publish {t : JobTable} (h : t.Ordered) (id : JobId) (status : JobStatus)
    (command : String) : (t.publish id status command).Ordered :=
  h

lemma Ordered.remove {t : JobTable} (h : t.Ordered) (id : JobId) : (t.remove id).2.Ordered :=
  List.Pairwise.filter _ h

lemma lt_of_mem_insertJob {k id : JobId} {j : Job} {jobs : List (JobId × Job)}
    (hjobs : ∀ entry ∈ jobs, k < entry.1) (hid : k < id) :
    ∀ entry ∈ insertJob id j jobs, k < entry.1 := by
  induction jobs with
  | nil => simpa [insertJob] using hid
  | cons entry rest ih =>
    unfold insertJob
    grind

lemma pairwise_insertJob (id : JobId) (j : Job) {jobs : List (JobId × Job)}
    (h : jobs.Pairwise (·.1 < ·.1)) : (insertJob id j jobs).Pairwise (·.1 < ·.1) := by
  induction jobs with
  | nil => simp [insertJob]
  | cons entry rest ih =>
    obtain ⟨k, j'⟩ := entry
    obtain ⟨hk, hrest⟩ := List.pairwise_cons.1 h
    unfold insertJob
    split
    case isTrue hlt =>
      refine List.pairwise_cons.2 ⟨fun entry hmem => ?_, h⟩
      obtain rfl | hmem := List.mem_cons.1 hmem
      · exact hlt
      · exact Nat.lt_trans hlt (hk entry hmem)
    case isFalse hge =>
      split
      case isTrue heq => exact List.pairwise_cons.2 ⟨by simpa [heq] using hk, hrest⟩
      case isFalse hne =>
        have hlt : k < id := by
          simp only [JobId] at *
          omega
        exact List.pairwise_cons.2 ⟨lt_of_mem_insertJob hk hlt, ih hrest⟩

lemma Ordered.finish {t : JobTable} (h : t.Ordered) (id : JobId) (code : Int) :
    (t.finish id code).Ordered := by
  unfold JobTable.finish
  split
  · exact h
  · split
    · exact h.update ..
    · exact (h.remove id).publish ..

lemma Ordered.settle {t : JobTable} (h : t.Ordered) (id : JobId)
    (seen : Except Errno (Option Transition)) : (t.settle id seen).Ordered := by
  unfold JobTable.settle
  split
  · exact h.finish ..
  · split
    · exact h
    · exact (h.update ..).publish ..
  · exact h.update ..
  · exact h
  · exact h.remove id
  · exact h

lemma Ordered.apply {t t' : JobTable} (h : t.Ordered) {op : Op} {r : op.Result}
    (happly : t.apply op = some (r, t')) : t'.Ordered := by
  cases op with
  | register j => exact table_of_apply happly rfl ▸ pairwise_insertJob t.nextId j h
  | remove id => exact table_of_apply happly rfl ▸ h.remove id
  | stopped id =>
    rw [← table_of_apply happly rfl]
    unfold stopped
    split
    · exact h
    · split
      · exact h
      · exact (h.update ..).publish ..
  | continued id => exact table_of_apply happly rfl ▸ h.update ..
  | finish id code => exact table_of_apply happly rfl ▸ h.finish id code
  | adopt id pids => exact table_of_apply happly rfl ▸ h.update ..
  | release id pids => exact table_of_apply happly rfl ▸ h.update ..
  | watch id =>
    rw [← table_of_apply happly rfl]
    unfold watch
    grind [Ordered.update]
  | toForeground id =>
    rw [← table_of_apply happly rfl]
    unfold toForeground
    grind [Ordered.update]
  | toBackground id =>
    rw [← table_of_apply happly rfl]
    unfold toBackground
    grind [Ordered.update]
  | collect id =>
    have hcollect : t.collect id = some (r, t') := happly
    unfold collect at hcollect
    grind [Ordered.remove]
  | seize job pids => exact table_of_apply happly rfl ▸ h.of_keys (by simp)
  | yieldBack hold => exact table_of_apply happly rfl ▸ h.of_keys (by simp)
  | _ => exact table_of_apply happly rfl ▸ h

/-! ## Jobs that nobody waits for -/

lemma Ordered.mem_jobs {t : JobTable} (h : t.Ordered) {id : JobId} {j : Job} :
    (id, j) ∈ t.jobs ↔ t.get? id = some j := by
  unfold Ordered at h
  unfold get?
  generalize t.jobs = jobs at *
  induction jobs with
  | nil => simp
  | cons entry rest ih =>
    obtain ⟨k, j'⟩ := entry
    obtain ⟨hk, hrest⟩ := List.pairwise_cons.1 h
    rw [lookup_cons, List.mem_cons, ih hrest]
    by_cases hid : id = k
    · have hnot : rest.lookup id ≠ some j := fun hmem => by
        have hlt := hk _ ((ih hrest).2 hmem)
        simp [hid] at hlt
      simp [hid, hid ▸ hnot, eq_comm]
    · simp [hid]

/-- Nobody waits for the leader of the job. -/
def Unattended (t : JobTable) (id : JobId) (leader : Pid) : Prop :=
  ∃ j, t.get? id = some j ∧ j.watched = false ∧ j.status ≠ .done ∧ j.leader = some leader

lemma Ordered.mem_unattended {t : JobTable} (h : t.Ordered) {id : JobId} {leader : Pid} :
    (id, leader) ∈ t.unattended ↔ t.Unattended id leader := by
  simp only [unattended, List.mem_filterMap, Unattended, ← h.mem_jobs]
  constructor
  · rintro ⟨⟨k, j⟩, hmem, hj⟩
    grind [Option.map_eq_some_iff]
  · rintro ⟨j, hmem, hwatched, hstatus, hleader⟩
    exact ⟨(id, j), hmem, by simp [hwatched, hstatus, hleader]⟩

/-- No job is listed twice among those that nobody waits for. -/
lemma Ordered.nodup_unattended {t : JobTable} (h : t.Ordered) :
    (t.unattended.map Prod.fst).Nodup := by
  have hlt : t.unattended.Pairwise (·.1 < ·.1) := by
    refine List.Pairwise.filterMap _ (fun a b hab a' ha' b' hb' => ?_) h
    grind [Option.map_eq_some_iff]
  exact List.pairwise_map.2 (hlt.imp fun hab => Nat.ne_of_lt hab)

end JobTable

end Conch
