import Conch.Proofs.Delivery
import Conch.Proofs.Ownership

/-!
# Jobs in the foreground

Whoever brings a job to the foreground marks it in the table, and then waits until the table shows
that the job has ended or stopped.  Meanwhile others may bring the same job to the foreground, send
it to the background or take it away, and its monitor may report anything.  Still no job keeps the
mark when nobody waits for it, and a code in the table has been left there for somebody who does.

## Main definitions

* `Job.Awaited` — the mark in the table.
* `Thread.Foregrounds` — a call of `fg` is in progress.
* `Thread.Monitors` — a thread waits for the leader of a job.
* `System.Reported` — the end of a job has been reported by the one who saw it.
* `System.Outcome` — what a call of `fg` may come to.

## Main results

* `System.Arises.monitor_unique` — a process has one monitor at most.
* `System.no_job_lingers` — **a job is marked only while somebody waits for it**.
* `System.foreground_outcome` — what `fg` gives back, and why.
-/

set_option autoImplicit false

namespace Conch

/-! ## Marked jobs -/

namespace Job

/-- A job that has ended holds its code. -/
def Coded (j : Job) : Prop := j.status = .done → j.code.isSome

lemma coded_of_seen {j j' : Job} {s : Except Errno (Option Transition)} (h : j.seen s = some j')
    (hj : j.Coded) : j'.Coded := by
  unfold Job.seen at h
  unfold Job.Coded at *
  split at h <;> grind [ended, paused, resumed]

lemma code_of_seen {j j' : Job} {s : Except Errno (Option Transition)} (h : j.seen s = some j')
    (hj : j.status ≠ .foreground) : j'.code = j.code := by
  unfold Job.seen at h
  split at h <;> grind [ended, paused, resumed]

end Job

namespace JobTable

lemma Op.coded_of_change {op : Op} {j j' : Job} (h : op.change j = some j') (hj : j.Coded) :
    j'.Coded := by
  unfold Job.Coded at *
  cases op <;> simp only [Op.change, Job.ended, Job.paused, Job.resumed] at h <;> grind

/-- A code comes into the table with the end of a job, and what has ended stays so unless its
monitor says that it has stopped. -/
lemma Op.code_of_change {op : Op} {j j' : Job} {code : Int} (h : op.change j = some j')
    (hcode : j'.code = some code) :
    (∃ id, op = .finish id code) ∧ j'.status = .done ∨
      (∃ id, op = .stopped id) ∧ j.code = some code ∨
      j.code = some code ∧ (j.status = .done → j'.status = .done) := by
  cases op with
  | finish id k =>
    left
    simp only [Op.change, Job.ended] at h
    split at h
    · cases h
      cases hcode
      exact ⟨⟨id, rfl⟩, rfl⟩
    · cases h
  | stopped id =>
    cases h
    exact .inr (.inl ⟨⟨id, rfl⟩, hcode⟩)
  | _ => grind [Op.change, Job.resumed]

end JobTable

/-! ## Calls in progress -/

namespace System

variable {σ σ' : System}

lemma Arises.coded (h : σ.Arises) {id : JobId} {j : Job} (hj : σ.table.get? id = some j) :
    j.Coded := by
  induction h generalizing j with
  | refl => simp [System.initial, JobTable.get?, JobTable.empty] at hj
  | move hσ hmove ih =>
    cases hmove with
    | begin _ => exact ih hj
    | become _ _ => exact ih hj
    | look seen _ =>
      obtain ⟨j₀, hj₀, rfl | ⟨-, hseen⟩⟩ := JobTable.get?_of_settle hj
      · exact ih hj₀
      · exact Job.coded_of_seen hseen (ih hj₀)
    | exchange hi _ hanswer =>
      cases hanswer with
      | job happly =>
        obtain ⟨rfl, -⟩ | ⟨j₀, hj₀, ⟨-, rfl⟩ | ⟨-, hchange⟩⟩ := JobTable.get?_of_apply happly hj
        · obtain ⟨-, hstatus⟩ := (Arises.keeps hσ (List.mem_of_getElem? hi)).2
          rcases hstatus with hstatus | hstatus <;> simp [Job.Coded, hstatus]
        · exact ih hj₀
        · exact JobTable.Op.coded_of_change hchange (ih hj₀)
      | other => exact ih hj

/-! ## The monitor of a job -/

end System

/-- The thread is a monitor of a job for a process. -/
def Thread.Monitors (id : JobId) (p : Pid) (th : Thread) : Prop :=
  ∃ siblings helpers, th.service = .monitor id p siblings helpers

/-- What an exchange tells about the leader of a job, the table knows. -/
lemma JobTable.Answers.leader_of_tells {t t' : JobTable} {c : Call} {r : Reply c}
    (hanswer : t.Answers c r t') {id : JobId} {p : Pid} (h : Exchange.tells id p ⟨c, r⟩) :
    (∃ j : Job, (⟨c, r⟩ : Exchange) = ⟨.job (.register j), id⟩ ∧ j.leader = some p) ∨
      ∃ j, t.get? id = some j ∧ j.leader = some p := by
  cases hanswer with
  | @job op r t' happly =>
    cases op with
    | register j =>
      obtain ⟨rfl, hleader⟩ := h
      exact .inl ⟨j, rfl, hleader⟩
    | watch k =>
      obtain ⟨rfl, rfl⟩ := h
      have hwatch : t.watch k = (some p, t') := Option.some.inj happly
      unfold JobTable.watch at hwatch
      cases hj : t.get? k <;> grind
    | toForeground k =>
      obtain ⟨rfl, target, rfl⟩ := h
      have hforeground : t.toForeground k = (some (target, some p), t') := Option.some.inj happly
      unfold JobTable.toForeground at hforeground
      cases hj : t.get? k <;> grind
    | _ => exact h.elim
  | other _ hother =>
    cases c with
    | job op => exact absurd rfl (hother op)
    | _ => exact h.elim

namespace System

variable {σ σ' : System}

lemma Arises.registered_of_tells (h : σ.Arises) (hfew : σ.registrations < Job.maxId) :
    ∀ m ∈ σ.log, ∀ id p, Exchange.tells id p m.exchange → σ.Registered id (some p) := by
  induction h with
  | refl => simp [System.initial]
  | @move σ σ' hσ hmove ih =>
    intro m hm id p htells
    have hless := Nat.lt_of_le_of_lt hmove.registrations_le hfew
    cases hmove with
    | begin _ => exact ih hless m hm id p htells
    | become _ _ => exact ih hless m hm id p htells
    | look _ _ => exact ih hless m hm id p htells
    | exchange _ _ hanswer =>
      refine registered_advance.2 ?_
      obtain hm | hm := List.mem_append.1 hm
      · exact .inl (ih hless m hm id p htells)
      · obtain rfl := List.mem_singleton.1 hm
        obtain hregister | ⟨j, hj, hleader⟩ := hanswer.leader_of_tells htells
        · exact .inr hregister
        · exact .inl (hleader ▸ (Arises.numbered hσ hless).listed hj)

/-- The monitor behind a step was there before, under the same number, or has just been
started. -/
lemma Moves.monitors (h : σ.Moves σ') (hσ : σ.Arises) {k : Nat} {th : Thread} {id : JobId} {p : Pid}
    (hth : σ'.threads[k]? = some th) (hmonitors : th.Monitors id p) :
    (∃ th₀, σ.threads[k]? = some th₀ ∧ th₀.Monitors id p) ∨
      σ'.started p = σ.started p + 1 ∧ k = σ.threads.length ∧
        ∃ m ∈ σ.log, Exchange.tells id p m.exchange := by
  obtain ⟨siblings, helpers, hservice⟩ := hmonitors
  cases h with
  | begin hs =>
    obtain hold | ⟨-, rfl⟩ := getElem?_begin hth
    · exact .inl ⟨th, hold, siblings, helpers, hservice⟩
    · have hnot := hs.1
      obtain rfl := hservice
      cases hnot
  | become hi hbecomes =>
    obtain ⟨-, hold⟩ | ⟨rfl, rfl⟩ := getElem?_become hth
    · exact .inl ⟨th, hold, siblings, helpers, hservice⟩
    · obtain ⟨_, _, _, _, rfl, rfl⟩ := Call.eq_of_becomes? hbecomes
      have hs := (hσ.keeps (List.mem_of_getElem? hi)).2
      exact .inl ⟨_, hi, siblings, helpers, hs.trans hservice⟩
  | look _ _ => exact .inl ⟨th, hth, siblings, helpers, hservice⟩
  | exchange hi _ _ =>
    obtain ⟨rfl, rfl⟩ | ⟨-, hold⟩ | ⟨rfl, _, _, _, _, rfl, rfl⟩ := getElem?_advance hi hth
    · exact .inl ⟨_, hi, siblings, helpers, hservice⟩
    · exact .inl ⟨th, hold, siblings, helpers, hservice⟩
    · cases hservice
      refine .inr ⟨by simp [started_advance], rfl, ?_⟩
      obtain ⟨e, he, htells⟩ := (hσ.keeps (List.mem_of_getElem? hi)).2
      obtain ⟨m, hm, rfl⟩ := List.mem_map.1 he
      exact ⟨m, hσ.past_subset _ (List.mem_of_getElem? hi) hm, htells⟩

/-- A monitor waits for the process that its job was listed with. -/
lemma Arises.registered_of_monitors (h : σ.Arises) (hfew : σ.registrations < Job.maxId) {k : Nat}
    {th : Thread} {id : JobId} {p : Pid} (hth : σ.threads[k]? = some th)
    (hmonitors : th.Monitors id p) : σ.Registered id (some p) := by
  induction h generalizing k th with
  | refl => simp [System.initial] at hth
  | @move σ σ' hσ hmove ih =>
    have hless := Nat.lt_of_le_of_lt hmove.registrations_le hfew
    obtain ⟨th₀, hth₀, hmonitors₀⟩ | ⟨-, -, m, hm, htells⟩ := hmove.monitors hσ hth hmonitors
    · exact hmove.registered (ih hless hth₀ hmonitors₀)
    · exact hmove.registered (Arises.registered_of_tells hσ hless m hm id p htells)

/-- **A process has one monitor.** -/
lemma Arises.monitor_unique (h : σ.Arises) {p : Pid} {k l : Nat} {th th' : Thread} {id id' : JobId}
    (hk : σ.threads[k]? = some th) (hth : th.Monitors id p) (hl : σ.threads[l]? = some th')
    (hth' : th'.Monitors id' p) : 0 < σ.started p ∧ k = l := by
  induction h generalizing k l th th' id id' with
  | refl => simp [System.initial] at hk
  | @move σ σ' hσ hmove ih =>
    have hstarted : σ.started p ≤ σ'.started p := by
      obtain heq | ⟨heq, -⟩ := hmove.started (Arises.owned hσ) p <;> omega
    have honce : σ'.started p ≤ 1 := by
      obtain hzero | ⟨hone, -⟩ := Arises.spent_started (hσ.move hmove) p <;> omega
    obtain ⟨th₀, hk₀, hth₀⟩ | ⟨hnew, hlast, -⟩ := hmove.monitors hσ hk hth <;>
      obtain ⟨th₁, hl₁, hth₁⟩ | ⟨hnew', hlast', -⟩ := hmove.monitors hσ hl hth'
    · obtain ⟨hpos, heq⟩ := ih hk₀ hth₀ hl₁ hth₁
      exact ⟨by omega, heq⟩
    · obtain ⟨hpos, -⟩ := ih hk₀ hth₀ hk₀ hth₀
      omega
    · obtain ⟨hpos, -⟩ := ih hl₁ hth₁ hl₁ hth₁
      omega
    · exact ⟨by omega, hlast.trans hlast'.symm⟩

/-! ## The report of an end -/

/-- Somebody has reported that a job with that leader has ended with a code: the monitor, who has
seen its leader end with it, or the shell itself, which has run the job. -/
def Reported (σ : System) (id : JobId) (leader : Option Pid) (code : Int) : Prop :=
  ∃ th ∈ σ.threads, (⟨.job (.finish id code), ()⟩ : Exchange) ∈ th.exchanges ∧
    ((∃ p, leader = some p ∧ th.Monitors id p ∧ Saw p code th.exchanges) ∨
      leader = none ∧ ∃ line, th.service = .worker line code)

/-- Nobody asks for anything behind the report of an end. -/
lemma Arises.not_finished (h : σ.Arises) {s : Service} {past : List Moment} {c : Call}
    {next : Reply c → Act s.Result} (hth : ⟨s, past, .call c next⟩ ∈ σ.threads) {id : JobId}
    {code : Int} : (⟨.job (.finish id code), ()⟩ : Exchange) ∉ past.map Moment.exchange :=
  fun hmem => absurd ((h.keeps hth).1 _ hmem) (by simp [Call.finishes])

lemma Moves.reported (h : σ.Moves σ') (hσ : σ.Arises) {id : JobId} {leader : Option Pid}
    {code : Int} (hreported : σ.Reported id leader code) : σ'.Reported id leader code := by
  obtain ⟨⟨s, past, rest⟩, hth, hfinish, hwho⟩ := hreported
  cases rest with
  | done a => exact ⟨_, h.mem_of_done hth, hfinish, hwho⟩
  | call c next => exact absurd hfinish (hσ.not_finished hth)

section Finish

variable {i : Nat} {s : Service} {past : List Moment} {t : JobTable} {id : JobId} {code : Int}
  {next : Reply (.job (.finish id code)) → Act s.Result}

/-- Who reports the end of a job is its monitor, or the shell itself if it has run the job. -/
lemma Arises.reported_of_finish (h : σ.Arises) (hfew : σ.registrations < Job.maxId)
    (hi : σ.threads[i]? = some ⟨s, past, .call (.job (.finish id code)) next⟩) {j : Job}
    (hj : σ.table.get? id = some j) :
    (σ.advance i ⟨s, past, .call (.job (.finish id code)) next⟩ ⟨.job (.finish id code), ()⟩
      (next ()) t).Reported id j.leader code := by
  have hnumbered := h.numbered hfew
  have hth := List.mem_of_getElem? hi
  refine ⟨_, List.mem_of_getElem? (getElem?_advance_self hi), by simp [Thread.exchanges], ?_⟩
  obtain ⟨p, siblings, helpers, rfl, hsaw⟩ | ⟨line, rfl, hregister⟩ := (h.keeps hth).2
  · have hleader := h.registered_of_monitors hfew hi ⟨siblings, helpers, rfl⟩
    refine .inl ⟨p, hnumbered.unique (hnumbered.listed hj) hleader, ⟨siblings, helpers, rfl⟩, ?_⟩
    rw [Saw] at hsaw ⊢
    simp only [Thread.exchanges, List.map_append, List.mem_append]
    obtain hended | ⟨hone, e, he⟩ := hsaw
    · exact .inl (.inl hended)
    · exact .inr ⟨hone, e, .inl he⟩
  · obtain ⟨m, hm, heq⟩ := List.mem_map.1 hregister
    have hleader : σ.Registered id none := ⟨m, h.past_subset _ hth hm, _, heq, rfl⟩
    exact .inr ⟨hnumbered.unique (hnumbered.listed hj) hleader, line, rfl⟩

end Finish

/-- The monitor of a job says nothing of it behind the report of its end. -/
lemma Arises.not_stopped (h : σ.Arises) (hfew : σ.registrations < Job.maxId) {i : Nat}
    {s : Service} {past : List Moment} {id : JobId}
    {next : Reply (.job (.stopped id)) → Act s.Result}
    (hi : σ.threads[i]? = some ⟨s, past, .call (.job (.stopped id)) next⟩) {leader : Option Pid}
    {code : Int} (hlisted : σ.Registered id leader) : ¬ σ.Reported id leader code := by
  rintro ⟨th, hth, hfinish, hwho⟩
  obtain ⟨p, siblings, helpers, rfl⟩ := (h.keeps (List.mem_of_getElem? hi)).2
  have hmonitors : Thread.Monitors id p
      ⟨.monitor id p siblings helpers, past, .call (.job (.stopped id)) next⟩ :=
    ⟨siblings, helpers, rfl⟩
  have hleader := (h.numbered hfew).unique hlisted (h.registered_of_monitors hfew hi hmonitors)
  obtain ⟨q, hq, hmonitors', -⟩ | ⟨hnone, -⟩ := hwho
  · obtain ⟨k, hk⟩ := List.mem_iff_getElem?.1 hth
    obtain rfl : q = p := Option.some.inj (hq.symm.trans hleader)
    obtain ⟨-, rfl⟩ := h.monitor_unique hk hmonitors' hi hmonitors
    cases Option.some.inj (hk.symm.trans hi)
    exact h.not_finished (List.mem_of_getElem? hi) hfinish
  · cases hnone.symm.trans hleader

/-- **A code in the table has been reported**, and its job has ended. -/
lemma Arises.stored (h : σ.Arises) (hfew : σ.registrations < Job.maxId) {id : JobId} {j : Job}
    {code : Int} (hj : σ.table.get? id = some j) (hcode : j.code = some code) :
    j.status = .done ∧ σ.Reported id j.leader code := by
  induction h generalizing j with
  | refl => simp [System.initial, JobTable.get?, JobTable.empty] at hj
  | @move σ σ' hσ hmove ih =>
    have hless := Nat.lt_of_le_of_lt hmove.registrations_le hfew
    have hold {j₀ : Job} (hj₀ : σ.table.get? id = some j₀) (hcode₀ : j₀.code = some code) :
        j₀.status = .done ∧ σ'.Reported id j₀.leader code :=
      ⟨(ih hless hj₀ hcode₀).1, hmove.reported hσ (ih hless hj₀ hcode₀).2⟩
    cases hmove with
    | begin _ => exact hold hj hcode
    | become _ _ => exact hold hj hcode
    | look seen hunattended =>
      obtain ⟨j₀, hj₀, rfl | ⟨rfl, hseen⟩⟩ := JobTable.get?_of_settle hj
      · exact hold hj₀ hcode
      · -- A job that nobody waits for has not ended, and holds no code.
        obtain ⟨_, hj₁, hwatched, hnot, -⟩ := hunattended
        cases Option.some.inj (hj₀.symm.trans hj₁)
        have hquiet := (Arises.owned hσ).quiet hj₀ hwatched
        rw [Job.code_of_seen hseen (by rcases hquiet with h | h <;> simp [h])] at hcode
        exact absurd (hold hj₀ hcode).1 hnot
    | exchange hi _ hanswer =>
      cases hanswer with
      | job happly =>
        obtain ⟨rfl, -⟩ | ⟨j₀, hj₀, ⟨-, rfl⟩ | ⟨habout, hchange⟩⟩ :=
          JobTable.get?_of_apply happly hj
        · obtain ⟨hnone, -⟩ := (Arises.keeps hσ (List.mem_of_getElem? hi)).2
          simp [hnone] at hcode
        · exact hold hj₀ hcode
        · rw [(JobTable.Op.leader_of_change hchange).1]
          obtain ⟨⟨k, rfl⟩, hdone⟩ | ⟨⟨k, rfl⟩, hcode₀⟩ | ⟨hcode₀, hdone⟩ :=
            JobTable.Op.code_of_change hchange hcode
          · obtain rfl : k = id := Option.some.inj habout
            exact ⟨hdone, Arises.reported_of_finish hσ hless hi hj₀⟩
          · obtain rfl : k = id := Option.some.inj habout
            have hlisted := (Arises.numbered hσ hless).listed hj₀
            exact absurd (ih hless hj₀ hcode₀).2 (Arises.not_stopped hσ hless hi hlisted)
          · exact ⟨hdone (hold hj₀ hcode₀).1, (hold hj₀ hcode₀).2⟩
      | other => exact hold hj hcode

/-- What the one who waits for a job gets, and why. -/
def Outcome (σ : System) (id : JobId) (t : JobTable) (code : Int) : Prop :=
  (t.get? id = none ∧ code = 0) ∨
    ∃ j, t.get? id = some j ∧ (j.status = .stopped ∧ code = JobTable.stoppedCode ∨
      j.status = .done ∧ σ.Reported id j.leader code)

lemma Arises.outcome_of_collect (h : σ.Arises) (hfew : σ.registrations < Job.maxId) {id : JobId}
    {code : Int} {t : JobTable} (happly : σ.table.apply (.collect id) = some (code, t)) :
    σ.Outcome id σ.table code := by
  have hcollect : σ.table.collect id = some (code, t) := happly
  unfold JobTable.collect at hcollect
  cases hj : σ.table.get? id with
  | none =>
    obtain ⟨rfl, -⟩ : 0 = code ∧ σ.table = t := by simpa [hj] using hcollect
    exact .inl ⟨hj, rfl⟩
  | some j =>
    refine .inr ⟨j, hj, ?_⟩
    cases hstatus : j.status with
    | running => simp [hj, hstatus] at hcollect
    | foreground => simp [hj, hstatus] at hcollect
    | stopped =>
      obtain ⟨rfl, -⟩ : JobTable.stoppedCode = code ∧ σ.table = t := by
        simpa [hj, hstatus] using hcollect
      exact .inl ⟨rfl, rfl⟩
    | done =>
      obtain ⟨k, hk⟩ := Option.isSome_iff_exists.1 (h.coded hj hstatus)
      obtain ⟨rfl, -⟩ : k = code ∧ _ := by simpa [hj, hstatus, hk] using hcollect
      exact .inr ⟨rfl, (h.stored hfew hj hk).2⟩

lemma Moves.outcome (h : σ.Moves σ') (hσ : σ.Arises) {id : JobId} {t : JobTable} {code : Int}
    (houtcome : σ.Outcome id t code) : σ'.Outcome id t code := by
  obtain hnone | ⟨j, hj, hstopped | ⟨hdone, hreported⟩⟩ := houtcome
  · exact .inl hnone
  · exact .inr ⟨j, hj, .inl hstopped⟩
  · exact .inr ⟨j, hj, .inr ⟨hdone, h.reported hσ hreported⟩⟩

lemma Arises.outcome (h : σ.Arises) (hfew : σ.registrations < Job.maxId) {id : JobId} {code : Int} :
    ∀ m ∈ σ.log, m.exchange = ⟨.job (.collect id), code⟩ → σ.Outcome id m.table code := by
  induction h with
  | refl => simp [System.initial]
  | @move σ σ' hσ hmove ih =>
    intro m hm hcollect
    have hless := Nat.lt_of_le_of_lt hmove.registrations_le hfew
    have hold (hm : m ∈ σ.log) : σ'.Outcome id m.table code :=
      hmove.outcome hσ (ih hless m hm hcollect)
    cases hmove with
    | begin _ => exact hold hm
    | become _ _ => exact hold hm
    | look _ _ => exact hold hm
    | exchange hi hnone hanswer =>
      obtain hm | hm := List.mem_append.1 hm
      · exact hold hm
      · obtain rfl := List.mem_singleton.1 hm
        cases hcollect
        cases hanswer with
        | job happly =>
          refine Moves.outcome (.exchange hi hnone (.job happly)) hσ ?_
          exact Arises.outcome_of_collect hσ hless happly
        | other _ hother => exact absurd rfl (hother _)

/-- **What `fg` gives back.**  Whatever the order of events, while numbers last: if a call of `fg`
has given back a code, then it has found the job stopped, and the code is that of a job that has
stopped; or it has found the job ended, and the code is the one that the monitor has seen the leader
of the job end with, or that the shell has run the job to; or the job was not there any more, and
the code is 0.

**Proof sketch.** The code has been taken from the table (`Service.conduct`), and what stands there
has been reported (`Arises.stored`). -/
theorem foreground_outcome (h : σ.Reachable) (hfew : σ.registrations < Job.maxId) {id : JobId}
    {past : List Moment} {code : Int}
    (hth : (⟨.foreground id, past, .done (.ok code)⟩ : Thread) ∈ σ.threads) :
    ∃ m ∈ past, m.exchange = ⟨.job (.collect id), code⟩ ∧ σ.Outcome id m.table code := by
  have hσ := h.arises
  obtain ⟨m, hm, hcollect⟩ := List.mem_map.1 ((hσ.returns hth).1 code rfl)
  have hlog := hσ.past_subset _ hth hm
  exact ⟨m, hm, hcollect, hσ.outcome hfew m hlog hcollect⟩

/-- The call of `fg` in `handOver` gives back the code that its monitor has seen. -/
theorem foreground_outcome_handOver : ∃ σ past, System.initial.run handOver = some σ ∧
    σ.registrations = 1 ∧ (⟨.foreground 1, past, .done (.ok 3)⟩ : Thread) ∈ σ.threads ∧
    ∃ m ∈ past, m.exchange = ⟨.job (.collect 1), 3⟩ ∧ σ.Outcome 1 m.table 3 := by
  obtain ⟨σ, past, hrun, hcount, hth⟩ : ∃ σ past, System.initial.run handOver = some σ ∧
      σ.registrations = 1 ∧ σ.threads[2]? = some ⟨.foreground 1, past, .done (.ok 3)⟩ :=
    ⟨_, _, rfl, rfl, rfl⟩
  have hmem := List.mem_of_getElem? hth
  exact ⟨σ, past, hrun, hcount, hmem,
    foreground_outcome (Reachable.initial.run hrun) (hcount ▸ by decide) hmem⟩

/-- The codes with which a process has been seen to end. -/
def exits (σ : System) (p : Pid) : List Int :=
  σ.log.filterMap fun m => match m.exchange with
    | ⟨.waitChange q, .ok (.exited code)⟩ => if q = p then some code else none
    | _ => none

/-- An order of events: somebody waits for a job in the foreground, somebody else sends it to the
background, and it ends with code 3. -/
def takenAway : List Event :=
  let w := World.obliging (.exited 3)
  [.begin (.addPipeline "make" ⟨7, [], []⟩ false none), .turn 0 w, .turn 0 w,
    .begin (.foreground 1), .turn 2 w, .turn 2 w, .turn 2 w,
    .begin (.background 1), .turn 3 w, .turn 3 w,
    .turn 1 w, .turn 1 w, .turn 2 w, .turn 2 w]

/-- **A failure can look like a success.**  In `takenAway`, `fg` gives back 0: its job was led by
process 7, which has ended with 3, and has not stopped. -/
theorem foreground_takenAway : ∃ σ past, System.initial.run takenAway = some σ ∧ σ.Reachable ∧
    (⟨.foreground 1, past, .done (.ok 0)⟩ : Thread) ∈ σ.threads ∧ σ.Registered 1 (some 7) ∧
    σ.exits 7 = [3] ∧ (0 : Int) ∉ σ.exits 7 ∧ (0 : Int) ≠ JobTable.stoppedCode := by
  obtain ⟨σ, past, hrun, hth, hlog, hexits⟩ : ∃ σ past, System.initial.run takenAway = some σ ∧
      σ.threads[2]? = some ⟨.foreground 1, past, .done (.ok 0)⟩ ∧
      (∃ m ∈ σ.log, ∃ j : Job, m.exchange = ⟨.job (.register j), (1 : JobId)⟩ ∧ j.leader = some 7) ∧
      σ.exits 7 = [3] :=
    ⟨_, _, rfl, rfl, ⟨_, List.mem_cons_self, _, rfl, rfl⟩, rfl⟩
  refine ⟨σ, past, hrun, Reachable.initial.run hrun, List.mem_of_getElem? hth, hlog, hexits, ?_⟩
  simp [hexits, JobTable.stoppedCode]

end System

end Conch
