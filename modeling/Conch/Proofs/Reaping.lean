import Conch.Proofs.Frame

/-!
# Reaping and monitoring

Two parts of the shell read what has become of the leader of a job and change the table
accordingly: the monitor of the job, which waits for the leader, and the reaper, which looks at the
leaders of all jobs without a monitor from time to time.  Each has its own copy of the rules.  They
list the same status whatever they read.  What they announce is the same as well, with one
exception: the monitor keeps silent about a stop of a job that is listed as stopped, and the reaper
does not.  Such a stop is read when a process is continued and stopped again before anybody looks.

## Main definitions

* `JobTable.sweep` — a look at each job that nobody waits for.
* `Act.Notes` — what a tree of requests does to the table between two waits.
* `JobTable.Reaps`, `JobTable.Monitors` — a change of a leader is read by the reaper, and by the
  monitor.
* `JobTable.Sight`, `JobTable.Course` — what is seen of a job behind each of some changes.
* `JobTable.Twins` — a job that nobody waits for, and the same job with a monitor.

## Main results

* `System.table_sweep`, `Machine.exists_sweep` — the machine looks at the jobs in this way.
* `JobTable.monitors_iff`, `JobTable.sweep_of_mem` — what the monitor and the reaper do about a
  change.
* `JobTable.Twins.sights` — what the two list and announce, change by change.
* `JobTable.reap_agrees_iff` — **when the reaper and a monitor agree**.
-/

set_option autoImplicit false

namespace Conch

/-! ## Looks at all jobs -/

namespace JobTable

/-- A look at the leader of each job that nobody waits for; all are found before the first look. -/
def sweep (t : JobTable) (seen : List (Except Errno (Option Transition))) : JobTable :=
  (t.unattended.zip seen).foldl (fun t x => t.settle x.1.1 x.2) t

end JobTable

/-- The jobs of a system behind looks at all of them. -/
lemma System.table_sweep (σ : System) (seen : List (Except Errno (Option Transition))) :
    (σ.sweep seen).table = σ.table.sweep seen :=
  System.table_foldl_look _ σ

/-- The jobs of the machine behind looks at all of them. -/
lemma Machine.exists_sweep (m : Machine) :
    ∃ seen, seen.length = m.jobs.unattended.length ∧ m.reap.jobs = m.jobs.sweep seen :=
  Machine.exists_seen m.jobs.unattended m

namespace JobTable

/-! ## What one job shows -/

/-- The events about a job that wait to be reported. -/
def queued (t : JobTable) (id : JobId) : List JobEvent := t.events.filter (·.id = id)

/-- What a monitor does about a change of its leader. -/
def noted (t : JobTable) (id : JobId) : Transition → JobTable
  | .exited code => t.finish id code
  | .stopped => t.stopped id
  | .continued => t.continued id

end JobTable

/-- A job that runs or has stopped runs when it goes on. -/
lemma Job.resumed_of_active {j : Job} (h : j.status = .running ∨ j.status = .stopped) :
    j.resumed = { j with status := .running } := by
  obtain ⟨_, _, _, _, status, _, _⟩ := j
  rcases h with h | h <;> cases h <;> rfl

/-- What the reaper announces when it sees a change of the leader of a job. -/
def Job.reapEvents (id : JobId) (j : Job) : Transition → List JobEvent
  | .exited _ => if j.status = .foreground then [] else [⟨id, .done, j.command⟩]
  | .stopped => [⟨id, .stopped, j.command⟩]
  | .continued => []

/-- What a monitor announces: a stop is no news if the job is listed as stopped. -/
def Job.monitorEvents (id : JobId) (j : Job) (r : Transition) : List JobEvent :=
  if r = .stopped ∧ j.status = .stopped then [] else j.reapEvents id r

namespace JobTable

section Queued

variable (t : JobTable) (id k : JobId)

lemma queued_publish (status : JobStatus) (command : String) :
    (t.publish k status command).queued id =
      t.queued id ++ if k = id then [⟨k, status, command⟩] else [] := by
  by_cases hk : k = id <;> simp [publish, queued, hk]

lemma queued_update (f : Job → Job) : (t.update k f).queued id = t.queued id := rfl

lemma queued_remove : (t.remove k).2.queued id = t.queued id := rfl

lemma queued_finish {j : Job} (hj : t.get? k = some j) (code : Int) :
    (t.finish k code).queued id =
      t.queued id ++ if k = id then j.reapEvents k (.exited code) else [] := by
  simp only [finish, hj, Job.reapEvents]
  by_cases hstatus : j.status = .foreground
  · simp [hstatus, queued_update]
  · simp [hstatus, queued_publish, queued_remove]

lemma queued_finish_none (hnone : t.get? k = none) (code : Int) :
    (t.finish k code).queued id = t.queued id := by
  simp only [finish, hnone]

end Queued

section Looks

variable {t : JobTable} {id : JobId}

/-- A look at another job tells nothing about this one. -/
lemma queued_settle_of_ne {k : JobId} (hne : k ≠ id) (seen : Except Errno (Option Transition)) :
    (t.settle k seen).queued id = t.queued id := by
  rcases seen with e | _ | (code | _ | _)
  · by_cases he : e = .noChild
    · rw [he]
      rfl
    · simp [settle]
  · rfl
  · cases hj : t.get? k with
    | none => exact t.queued_finish_none id k hj code
    | some j => exact (t.queued_finish id k hj code).trans (by simp [hne])
  · cases hj : t.get? k with
    | none => simp [settle, hj]
    | some j => simp [settle, hj, queued_publish, queued_update, hne]
  · rfl

/-- What a look at a job announces. -/
lemma queued_settle {j : Job} (hj : t.get? id = some j) (r : Transition) :
    (t.settle id (.ok (some r))).queued id = t.queued id ++ j.reapEvents id r := by
  cases r with
  | exited code => exact (t.queued_finish id id hj code).trans (by simp)
  | stopped => simp [settle, hj, queued_publish, queued_update, Job.reapEvents]
  | continued => simp [settle, continued, queued_update, Job.reapEvents]

/-- The job behind what a monitor does. -/
lemma get?_noted {j : Job} (hj : t.get? id = some j) (r : Transition) :
    (t.noted id r).get? id = j.seen (.ok (some r)) := by
  cases r with
  | exited code => simp [noted, get?_finish, hj, Job.seen]
  | stopped => simp [noted, get?_stopped, hj, Job.seen]
  | continued => simp [noted, get?_continued, hj, Job.seen]

/-- What a monitor announces. -/
lemma queued_noted {j : Job} (hj : t.get? id = some j) (r : Transition) :
    (t.noted id r).queued id = t.queued id ++ j.monitorEvents id r := by
  cases r with
  | exited code => exact (t.queued_finish id id hj code).trans (by simp [Job.monitorEvents])
  | stopped =>
    simp only [noted, stopped, hj, Job.monitorEvents]
    by_cases hstatus : j.status = .stopped
    · simp [hstatus]
    · simp [hstatus, queued_publish, queued_update, Job.reapEvents]
  | continued => simp [noted, continued, queued_update, Job.monitorEvents, Job.reapEvents]

/-- Looks at other jobs leave this one alone. -/
lemma foldl_settle_of_ne (looks : List ((JobId × Pid) × Except Errno (Option Transition)))
    (hne : ∀ x ∈ looks, x.1.1 ≠ id) (t : JobTable) :
    (looks.foldl (fun t x => t.settle x.1.1 x.2) t).get? id = t.get? id ∧
      (looks.foldl (fun t x => t.settle x.1.1 x.2) t).queued id = t.queued id := by
  induction looks generalizing t with
  | nil => exact ⟨rfl, rfl⟩
  | cons x rest ih =>
    have hx : x.1.1 ≠ id := hne x List.mem_cons_self
    obtain ⟨hget, hqueued⟩ := ih (fun y hy => hne y (List.mem_cons_of_mem x hy))
      (t.settle x.1.1 x.2)
    rw [List.foldl_cons, hget, hqueued, get?_settle, if_neg (Ne.symm hx),
      queued_settle_of_ne hx]
    exact ⟨rfl, rfl⟩

/-- **A look at all jobs** does to one of them what a look at that one does. -/
lemma sweep_of_mem (hordered : t.Ordered) {j : Job} (hj : t.get? id = some j)
    {seen : List (Except Errno (Option Transition))}
    (hlength : seen.length = t.unattended.length) {p : Pid} {r : Transition}
    (hmem : ((id, p), Except.ok (some r)) ∈ t.unattended.zip seen) :
    (t.sweep seen).get? id = j.seen (.ok (some r)) ∧
      (t.sweep seen).queued id = t.queued id ++ j.reapEvents id r := by
  have hnodup : ((t.unattended.zip seen).map fun x => x.1.1).Nodup := by
    have hkeys := hordered.nodup_unattended
    rwa [← List.map_fst_zip (Nat.le_of_eq hlength.symm), List.map_map] at hkeys
  obtain ⟨front, back, hsplit⟩ := List.append_of_mem hmem
  rw [hsplit, List.map_append, List.map_cons] at hnodup
  obtain ⟨-, hback, hdisjoint⟩ := List.nodup_append.mp hnodup
  have hfront : ∀ x ∈ front, x.1.1 ≠ id := fun x hx =>
    hdisjoint _ (List.mem_map_of_mem hx) _ List.mem_cons_self
  have hrest : ∀ x ∈ back, x.1.1 ≠ id := fun x hx heq =>
    (List.nodup_cons.mp hback).1 (List.mem_map.mpr ⟨x, hx, heq⟩)
  -- the looks in front of this one and behind it are at other jobs
  obtain ⟨hget, hqueued⟩ := foldl_settle_of_ne front hfront t
  rw [sweep, hsplit, List.foldl_append, List.foldl_cons]
  obtain ⟨hget', hqueued'⟩ := foldl_settle_of_ne back hrest
    ((front.foldl (fun t x => t.settle x.1.1 x.2) t).settle id (.ok (some r)))
  rw [hget', hqueued', get?_settle, if_pos rfl, queued_settle (hget.trans hj), hget, hqueued, hj]
  exact ⟨rfl, rfl⟩

end Looks

end JobTable

/-! ## Reading a change -/

/-- What a tree of requests does to the table from one wait for a change, which tells `r`, to the
next one.  Whatever it waits for besides, it gets; an operation on the table takes effect at
once. -/
inductive Act.Notes (r : Transition) {α : Type} : Act α → JobTable → JobTable → Prop where
  | done (a : α) (t : JobTable) : Notes r (.done a) t t
  | become (b : Body) (next : Reply (.become b) → Act α) (t : JobTable) :
      Notes r (.call (.become b) next) t t
  | wait {p : Pid} {next : Reply (.waitChange p) → Act α} {t t' : JobTable} :
      Notes r (next (.ok r)) t t' → Notes r (.call (.waitChange p) next) t t'
  | gather {c : Call} {next : Reply c → Act α} (x : Reply c) {t t' : JobTable} :
      c.isGathering = true → Notes r (next x) t t' → Notes r (.call c next) t t'
  | job {op : JobTable.Op} {next : op.Result → Act α} {x : op.Result} {t t₁ t' : JobTable} :
      t.apply op = some (x, t₁) → Notes r (next x) t₁ t' → Notes r (.call (.job op) next) t t'

/-- What is waited for besides leaves the table alone. -/
lemma Act.Notes.of_gathering {r : Transition} {α β : Type} {x : Act α} {f : α → Act β}
    (hx : x.Asks Call.isGathering) {t t' : JobTable} (h : (x >>= f).Notes r t t') :
    ∃ a, (f a).Notes r t t' := by
  induction x with
  | done a => exact ⟨a, h⟩
  | call c next ih =>
    obtain ⟨hc, hnext⟩ := hx
    change (Act.call c fun y => next y >>= f).Notes r t t' at h
    cases h with
    | gather y _ hrest => exact ih y (hnext y) hrest
    | become => cases hc
    | wait => cases hc
    | job => cases hc

/-- Whatever is waited for besides can be had. -/
lemma Act.Notes.gathers {r : Transition} {α β : Type} {x : Act α} {f : α → Act β}
    (hx : x.Asks Call.isGathering) {t t' : JobTable} (hf : ∀ a, (f a).Notes r t t') :
    (x >>= f).Notes r t t' := by
  induction x with
  | done a => exact hf a
  | call c next ih =>
    obtain ⟨hc, hnext⟩ := hx
    have hreply : Nonempty (Reply c) := by
      cases c with
      | waitExit pid => exact ⟨.error .noChild⟩
      | join helper => exact ⟨()⟩
      | _ => cases hc
    exact .gather hreply.some hc (ih _ (hnext _))

/-- An operation on the table takes effect at once. -/
lemma Act.Notes.of_job {r : Transition} {α : Type} {op : JobTable.Op} {next : op.Result → Act α}
    {t t' : JobTable} (h : (Act.call (.job op) next).Notes r t t') :
    ∃ x t₁, t.apply op = some (x, t₁) ∧ (next x).Notes r t₁ t' := by
  cases h with
  | job happly hrest => exact ⟨_, _, happly, hrest⟩
  | gather _ hc => cases hc

/-- Nothing happens behind the end of a tree, nor before the next one. -/
lemma Act.Notes.of_done {r : Transition} {α : Type} {a : α} {t t' : JobTable}
    (h : (Act.done a).Notes r t t') : t' = t := by
  cases h
  rfl

lemma Act.Notes.of_become {r : Transition} {α : Type} {b : Body} {t t' : JobTable}
    (h : (Act.become b : Act α).Notes r t t') : t' = t := by
  cases h with
  | become => rfl
  | gather _ hc => cases hc

namespace JobTable

/-- A change of its leader is read by the monitor of a job. -/
def Monitors (id : JobId) (leader : Pid) (siblings : List Pid) (helpers : List Helper)
    (r : Transition) (t t' : JobTable) : Prop :=
  (Body.monitor id leader siblings helpers).act.Notes r t t'

/-- A change of the leader of a job without a monitor is read by the reaper, together with the
changes of all others. -/
def Reaps (id : JobId) (r : Transition) (t t' : JobTable) : Prop :=
  t.Ordered ∧ ∃ seen p, seen.length = t.unattended.length ∧
    ((id, p), Except.ok (some r)) ∈ t.unattended.zip seen ∧ t' = t.sweep seen

/-- **What a monitor does about a change of its leader.** -/
lemma monitors_iff {id : JobId} {leader : Pid} {siblings : List Pid} {helpers : List Helper}
    {r : Transition} {t t' : JobTable} :
    Monitors id leader siblings helpers r t t' ↔ t' = t.noted id r := by
  rw [Monitors, Body.act, Jobs.monitor_eq]
  have hcollects := Jobs.collectAll_gathers siblings
  have hjoins := Jobs.joinAll_gathers helpers
  constructor
  · intro h
    cases h with
    | gather _ hc => cases hc
    | wait hrest =>
      cases r with
      | exited code =>
        obtain ⟨_, hhelpers⟩ := hrest.of_gathering hcollects
        obtain ⟨_, hfinish⟩ := hhelpers.of_gathering hjoins
        obtain ⟨_, t₁, happly, hlast⟩ := hfinish.of_job
        rw [hlast.of_done]
        exact (table_of_apply happly rfl).symm
      | stopped =>
        obtain ⟨_, t₁, happly, hlast⟩ := hrest.of_job
        rw [hlast.of_become]
        exact (table_of_apply happly rfl).symm
      | continued =>
        obtain ⟨_, t₁, happly, hlast⟩ := hrest.of_job
        rw [hlast.of_become]
        exact (table_of_apply happly rfl).symm
  · rintro rfl
    refine .wait ?_
    cases r with
    | exited code => exact .gathers hcollects fun _ => .gathers hjoins fun _ => .job rfl (.done _ _)
    | stopped => exact .job rfl (.become _ _ _)
    | continued => exact .job rfl (.become _ _ _)

/-! ## Courses of changes -/

/-- What is seen of a job behind a change: the status that is listed, if the job is listed, and the
events that have been published about it. -/
structure Sight where
  listed : Option JobStatus
  published : List JobEvent
  deriving DecidableEq, Repr

/-- What is seen of a job behind a change that leads from one table to another. -/
def sight (id : JobId) (t t' : JobTable) : Sight :=
  ⟨(t'.get? id).map Job.status, (t'.queued id).drop (t.queued id).length⟩

/-- Some changes of a leader are read, one after the other, and what is seen of the job behind each
of them.  In between, anything may happen that leaves the job as it is. -/
inductive Course (id : JobId) (reads : Transition → JobTable → JobTable → Prop) :
    JobTable → List Transition → List Sight → Prop where
  | nil (t : JobTable) : Course id reads t [] []
  | cons {t t₁ t₂ : JobTable} {r : Transition} {rs : List Transition} {sights : List Sight} :
      t₁.get? id = t.get? id → reads r t₁ t₂ → Course id reads t₂ rs sights →
      Course id reads t (r :: rs) (t₁.sight id t₂ :: sights)

/-- A job that nobody waits for in one table, and the same job with a monitor in another one, which
runs or has stopped. -/
structure Twins (id : JobId) (t t' : JobTable) (j j' : Job) : Prop where
  job : t.get? id = some j
  job' : t'.get? id = some j'
  unwatched : j.watched = false
  watched : j'.watched = true
  status : j'.status = j.status
  command : j'.command = j.command
  active : j.status = .running ∨ j.status = .stopped

/-- What is seen of a job behind a change that its monitor has read. -/
lemma Monitors.sight {id : JobId} {leader : Pid} {siblings : List Pid} {helpers : List Helper}
    {r : Transition} {t t' : JobTable} {j : Job} (hj : t.get? id = some j)
    (h : Monitors id leader siblings helpers r t t') :
    t'.get? id = j.seen (.ok (some r)) ∧ (t.sight id t').published = j.monitorEvents id r := by
  rw [monitors_iff.mp h]
  refine ⟨get?_noted hj r, ?_⟩
  rw [JobTable.sight, queued_noted hj r, List.drop_left]

/-- What is seen of a job behind a change that the reaper has read. -/
lemma Reaps.sight {id : JobId} {r : Transition} {t t' : JobTable} {j : Job}
    (hj : t.get? id = some j) (h : Reaps id r t t') :
    t'.get? id = j.seen (.ok (some r)) ∧ (t.sight id t').published = j.reapEvents id r := by
  obtain ⟨hordered, seen, p, hlength, hmem, rfl⟩ := h
  obtain ⟨hget, hqueued⟩ := sweep_of_mem hordered hj hlength hmem
  refine ⟨hget, ?_⟩
  rw [JobTable.sight, hqueued, List.drop_left]

section Twins

variable {id : JobId} {t t' : JobTable} {j j' : Job}

/-- The same change leads twins to the same status. -/
lemma Twins.status_seen (h : Twins id t t' j j') (r : Transition) :
    (j'.seen (.ok (some r))).map Job.status = (j.seen (.ok (some r))).map Job.status := by
  cases r with
  | exited code =>
    simp only [Job.seen, Job.ended, h.status]
    split <;> rfl
  | stopped => rfl
  | continued =>
    simp only [Job.seen, Job.resumed, h.status, Option.map_some]
    split
    · rfl
    · rw [h.status]

/-- A monitor would announce the same of twins. -/
lemma Twins.monitorEvents (h : Twins id t t' j j') (r : Transition) :
    j'.monitorEvents id r = j.monitorEvents id r := by
  cases r <;> simp only [Job.monitorEvents, Job.reapEvents, h.status, h.command]

/-- The same change makes twins of twins, unless it is the end. -/
lemma Twins.seen (h : Twins id t t' j j') {r : Transition} (hr : ∀ code, r ≠ .exited code)
    {t₁ t₁' : JobTable} (hget : t₁.get? id = j.seen (.ok (some r)))
    (hget' : t₁'.get? id = j'.seen (.ok (some r))) : ∃ k k', Twins id t₁ t₁' k k' := by
  cases r with
  | exited code => exact absurd rfl (hr code)
  | stopped =>
    exact ⟨j.paused, j'.paused, hget, hget', h.unwatched, h.watched, rfl, h.command, .inr rfl⟩
  | continued =>
    have hresumed : j.resumed = { j with status := .running } := Job.resumed_of_active h.active
    have hresumed' : j'.resumed = { j' with status := .running } :=
      Job.resumed_of_active (h.status ▸ h.active)
    exact ⟨j.resumed, j'.resumed, hget, hget', hresumed ▸ h.unwatched, hresumed' ▸ h.watched,
      by rw [hresumed, hresumed'], by rw [hresumed, hresumed', h.command],
      .inl (by rw [hresumed])⟩

/-- How often a stop is read while the job is listed as stopped, given the status that is listed
first. -/
def repeats (listed : Option JobStatus) (sights : List Sight) (rs : List Transition) : Nat :=
  ((listed :: sights.map Sight.listed).zip rs).count (some .stopped, .stopped)

lemma repeats_cons (listed : Option JobStatus) (s : Sight) (sights : List Sight) (r : Transition)
    (rs : List Transition) :
    repeats listed (s :: sights) (r :: rs) =
      repeats s.listed sights rs + if r = .stopped ∧ listed = some .stopped then 1 else 0 := by
  rw [repeats, List.map_cons, List.zip_cons_cons, List.count_cons, repeats]
  congr 1
  simp [and_comm]

/-- **What twins show.**  The reaper and the monitor list the same.  The reaper announces one event
more for each stop of a job that is listed as stopped; apart from these they announce the same.

**Proof sketch.** Induction on the changes.  The same change leads both jobs to the same status,
and makes twins of them unless it is the end, behind which nothing is read. -/
lemma Twins.sights (h : Twins id t t' j j') {leader : Pid} {siblings : List Pid}
    {helpers : List Helper} {rs : List Transition} (hend : ∀ code, .exited code ∉ rs.dropLast)
    {sights sights' : List Sight} (hreap : Course id (Reaps id) t rs sights)
    (hmonitor : Course id (Monitors id leader siblings helpers) t' rs sights') :
    sights.map Sight.listed = sights'.map Sight.listed ∧
      (sights.flatMap Sight.published).length =
        (sights'.flatMap Sight.published).length + repeats (some j.status) sights rs ∧
      (repeats (some j.status) sights rs = 0 →
        sights.flatMap Sight.published = sights'.flatMap Sight.published) := by
  induction rs generalizing t t' j j' sights sights' with
  | nil =>
    cases hreap
    cases hmonitor
    simp [repeats]
  | cons r rs ih =>
    cases hreap with
    | @cons _ t₁ t₂ _ _ rest hkeep hstep hrest =>
    cases hmonitor with
    | @cons _ t₁' t₂' _ _ rest' hkeep' hstep' hrest' =>
    obtain ⟨hget, hpublished⟩ := hstep.sight (hkeep.trans h.job)
    obtain ⟨hget', hpublished'⟩ := hstep'.sight (hkeep'.trans h.job')
    have hlisted : (t₁.sight id t₂).listed = (t₁'.sight id t₂').listed := by
      rw [sight, sight, hget, hget', h.status_seen]
    -- what follows behind this change
    have htail : rest.map Sight.listed = rest'.map Sight.listed ∧
        (rest.flatMap Sight.published).length = (rest'.flatMap Sight.published).length +
          repeats (t₁.sight id t₂).listed rest rs ∧
        (repeats (t₁.sight id t₂).listed rest rs = 0 →
          rest.flatMap Sight.published = rest'.flatMap Sight.published) := by
      cases rs with
      | nil =>
        cases hrest
        cases hrest'
        simp [repeats]
      | cons r₁ rs =>
        have hr : ∀ code, r ≠ .exited code := fun code heq =>
          hend code (heq ▸ List.mem_cons_self)
        obtain ⟨k, k', htwins⟩ := h.seen hr hget hget'
        have hk : (t₁.sight id t₂).listed = some k.status := by
          rw [sight, htwins.job, Option.map_some]
        rw [hk]
        exact ih htwins (fun code hmem => hend code (List.mem_cons_of_mem r hmem)) hrest hrest'
    obtain ⟨hlist, hlength, hequal⟩ := htail
    rw [h.monitorEvents, Job.monitorEvents] at hpublished'
    rw [repeats_cons, List.map_cons, List.map_cons, hlisted, hlist, List.flatMap_cons,
      List.flatMap_cons, hpublished, hpublished', ← hlisted]
    refine ⟨rfl, ?_⟩
    by_cases hrepeat : r = .stopped ∧ j.status = .stopped
    · -- the reaper announces this stop, and the monitor does not
      obtain ⟨rfl, hstopped⟩ := hrepeat
      rw [if_pos ⟨rfl, hstopped⟩, if_pos ⟨rfl, congrArg some hstopped⟩]
      refine ⟨?_, fun hzero => absurd hzero (Nat.succ_ne_zero _)⟩
      rw [List.nil_append, List.length_append, hlength]
      exact Nat.add_comm 1 _
    · have hlisted' : ¬(r = .stopped ∧ some j.status = some JobStatus.stopped) := fun hmem =>
        hrepeat ⟨hmem.1, Option.some.inj hmem.2⟩
      rw [if_neg hrepeat, if_neg hlisted', Nat.add_zero]
      refine ⟨?_, fun hzero => by rw [hequal hzero]⟩
      rw [List.length_append, List.length_append, hlength, Nat.add_assoc]

end Twins

/-- **The reaper and a monitor agree** on what they list, whatever they read of the leader of a job
that runs or has stopped.  They announce the same exactly if no stop is read while the job is listed
as stopped.

**Proof sketch.** By `Twins.sights` they list the same, and the reaper announces one event more for
each such stop. -/
theorem reap_agrees_iff {id : JobId} {t t' : JobTable} {j j' : Job} (h : Twins id t t' j j')
    {leader : Pid} {siblings : List Pid} {helpers : List Helper} {rs : List Transition}
    (hend : ∀ code, .exited code ∉ rs.dropLast) {sights sights' : List Sight}
    (hreap : Course id (Reaps id) t rs sights)
    (hmonitor : Course id (Monitors id leader siblings helpers) t' rs sights') :
    sights.map Sight.listed = sights'.map Sight.listed ∧
      (sights.flatMap Sight.published = sights'.flatMap Sight.published ↔
        (some .stopped, .stopped) ∉ (some j.status :: sights.map Sight.listed).zip rs) := by
  obtain ⟨hlisted, hlength, hequal⟩ := h.sights hend hreap hmonitor
  refine ⟨hlisted, fun heq => ?_, fun hnone => ?_⟩
  · rw [← List.count_eq_zero]
    have hsame := congrArg List.length heq
    rw [repeats] at hlength
    omega
  · exact hequal (List.count_eq_zero.mpr hnone)

/-! ## A process that is stopped again -/

/-- A table with one job of a single process, with a monitor or without. -/
def lone (watched : Bool) : JobTable :=
  { jobs := [(1, { Job.unwatched "sleep 5" 7 with watched })]
    foreground := none, nextId := 2, events := [] }

/-- A change of the only leader that nobody else waits for can be read. -/
lemma reaps_of_unattended {t : JobTable} {id : JobId} {p : Pid} {r : Transition}
    (hordered : t.Ordered) (hlone : t.unattended = [(id, p)]) :
    Reaps id r t (t.sweep [.ok (some r)]) :=
  ⟨hordered, [.ok (some r)], p, by rw [hlone]; rfl, by rw [hlone]; exact List.mem_singleton_self _,
    rfl⟩

lemma twins_lone : Twins 1 (lone false) (lone true)
    { Job.unwatched "sleep 5" 7 with watched := false }
    { Job.unwatched "sleep 5" 7 with watched := true } :=
  ⟨rfl, rfl, rfl, rfl, rfl, rfl, .inl rfl⟩

instance (t : JobTable) : Decidable t.Ordered :=
  inferInstanceAs (Decidable (t.jobs.Pairwise (·.1 < ·.1)))

/-- A process that stops, goes on, stops again and ends: the reaper and the monitor agree. -/
theorem reap_agrees_iff_stopped_twice :
    ∃ sights sights', Course 1 (Reaps 1) (lone false)
        [.stopped, .continued, .stopped, .exited 0] sights ∧
      Course 1 (Monitors 1 7 [] []) (lone true)
        [.stopped, .continued, .stopped, .exited 0] sights' ∧
      sights.map Sight.listed = sights'.map Sight.listed ∧
      sights.flatMap Sight.published = sights'.flatMap Sight.published := by
  have hreap : Course 1 (Reaps 1) (lone false) [.stopped, .continued, .stopped, .exited 0] _ :=
    .cons rfl (reaps_of_unattended (p := 7) (by decide) (by decide)) <|
    .cons rfl (reaps_of_unattended (p := 7) (by decide) (by decide)) <|
    .cons rfl (reaps_of_unattended (p := 7) (by decide) (by decide)) <|
    .cons rfl (reaps_of_unattended (p := 7) (by decide) (by decide)) (.nil _)
  have hmonitor : Course 1 (Monitors 1 7 [] []) (lone true)
      [.stopped, .continued, .stopped, .exited 0] _ :=
    .cons rfl (monitors_iff.mpr rfl) <| .cons rfl (monitors_iff.mpr rfl) <|
    .cons rfl (monitors_iff.mpr rfl) <| .cons rfl (monitors_iff.mpr rfl) (.nil _)
  have hagree := reap_agrees_iff twins_lone (fun code => by simp) hreap hmonitor
  exact ⟨_, _, hreap, hmonitor, hagree.1, hagree.2.mpr (by decide)⟩

/-- A process that is continued and stopped again before anybody looks: the reaper announces that it
has stopped a second time, and the monitor does not. -/
theorem reap_repeats_stop :
    ∃ sights sights', Course 1 (Reaps 1) (lone false) [.stopped, .stopped] sights ∧
      Course 1 (Monitors 1 7 [] []) (lone true) [.stopped, .stopped] sights' ∧
      sights.flatMap Sight.published =
        [⟨1, .stopped, "sleep 5"⟩, ⟨1, .stopped, "sleep 5"⟩] ∧
      sights'.flatMap Sight.published = [⟨1, .stopped, "sleep 5"⟩] := by
  refine ⟨_, _, .cons rfl (reaps_of_unattended (p := 7) (by decide) (by decide)) <|
    .cons rfl (reaps_of_unattended (p := 7) (by decide) (by decide)) (.nil _),
    .cons rfl (monitors_iff.mpr rfl) <| .cons rfl (monitors_iff.mpr rfl) (.nil _), ?_, ?_⟩ <;>
    decide

end JobTable

end Conch
