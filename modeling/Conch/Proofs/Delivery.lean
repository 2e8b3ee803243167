import Conch.Proofs.Conduct

/-!
# The end of a job is told once

Whoever finds that a job has ended looks at its status: if somebody waits for the job in the
foreground, the code goes into the table for him to take; if not, the job leaves the table and an
event tells of its end.  The status may change at any moment, and several parties may find the
end.  Still one party at most is told: an event comes only with the job leaving the table, the
code is taken only with the job leaving the table, and the number of a job is not used again.

## Main definitions

* `System.registrations` — how many jobs have been listed.
* `System.Registered` — a job has been listed under a number.
* `System.Numbered` — every number stands for one job.
* `System.published` — all events so far, reported or not.
* `System.taken` — how often a code has been taken from the table.

## Main results

* `System.Arises.numbered` — numbers are not used again while they last.
* `System.Moves.told` — the end of a job is told only when the job leaves the table.
* `System.end_told_once` — **the end of a job is told once**.
-/

set_option autoImplicit false

namespace Conch

/-! ## Numbers -/

/-- The request lists a job. -/
def Call.isRegister : Call → Bool
  | .job op => op.isRegister
  | _ => false

namespace System

variable {σ σ' : System}

/-- How many jobs have been listed. -/
def registrations (σ : System) : Nat := σ.log.countP fun m => m.exchange.1.isRegister

/-- A job with that leader has been listed under a number. -/
def Registered (σ : System) (id : JobId) (leader : Option Pid) : Prop :=
  ∃ m ∈ σ.log, ∃ j : Job, m.exchange = ⟨.job (.register j), id⟩ ∧ j.leader = leader

/-- Every number stands for one job. -/
structure Numbered (σ : System) : Prop where
  next : σ.table.nextId = σ.registrations + 1
  le {id : JobId} {leader : Option Pid} : σ.Registered id leader → id ≤ σ.registrations
  unique {id : JobId} {leader leader' : Option Pid} :
    σ.Registered id leader → σ.Registered id leader' → leader = leader'
  listed {id : JobId} {j : Job} : σ.table.get? id = some j → σ.Registered id j.leader

section Advance

variable {i : Nat} {th : Thread} {e : Exchange} {rest : Act th.service.Result} {t : JobTable}

lemma registrations_advance : (σ.advance i th e rest t).registrations =
    σ.registrations + if e.1.isRegister = true then 1 else 0 := by
  simp only [registrations, advance, List.countP_append, List.countP_singleton]

lemma registered_advance {id : JobId} {leader : Option Pid} :
    (σ.advance i th e rest t).Registered id leader ↔ σ.Registered id leader ∨
      ∃ j : Job, e = ⟨.job (.register j), id⟩ ∧ j.leader = leader := by
  simp only [Registered, advance, List.mem_append, List.mem_singleton, or_and_right, exists_or,
    exists_eq_left]

/-- A request that lists nothing leaves the numbers as they are. -/
lemma Numbered.advance (hσ : σ.Numbered) (he : e.1.isRegister = false)
    (hnext : t.nextId = σ.table.nextId)
    (hlisted : ∀ id j', t.get? id = some j' →
      ∃ j, σ.table.get? id = some j ∧ j'.leader = j.leader) :
    (σ.advance i th e rest t).Numbered := by
  have hregistered {id : JobId} {leader : Option Pid} :
      (σ.advance i th e rest t).Registered id leader ↔ σ.Registered id leader := by
    rw [registered_advance, or_iff_left]
    rintro ⟨j, rfl, -⟩
    cases he
  have hcount : (σ.advance i th e rest t).registrations = σ.registrations := by
    simp [registrations_advance, he]
  refine ⟨?_, fun h => ?_, fun h h' => ?_, fun {id j'} hj' => ?_⟩
  · rw [hcount, ← hσ.next]
    exact hnext
  · rw [hcount]
    exact hσ.le (hregistered.1 h)
  · exact hσ.unique (hregistered.1 h) (hregistered.1 h')
  · obtain ⟨j, hj, hleader⟩ := hlisted id j' hj'
    exact hregistered.2 (hleader ▸ hσ.listed hj)

/-- A new job gets a number that no job has had, unless the numbers have run out. -/
lemma Numbered.advance_register (hσ : σ.Numbered) {j : Job} {r : JobId}
    {rest : Act th.service.Result} (happly : σ.table.apply (.register j) = some (r, t))
    (hfew : (σ.advance i th ⟨.job (.register j), r⟩ rest t).registrations < Job.maxId) :
    (σ.advance i th ⟨.job (.register j), r⟩ rest t).Numbered := by
  have hcount : (σ.advance i th ⟨.job (.register j), r⟩ rest t).registrations =
      σ.registrations + 1 := by
    simp [registrations_advance, Call.isRegister, JobTable.Op.isRegister]
  have hr : r = σ.registrations + 1 := by
    rw [← hσ.next]
    exact (congrArg Prod.fst (Option.some.inj happly)).symm
  -- The number is above all those that are in use.
  have hnew {leader : Option Pid} : ¬ σ.Registered r leader := fun h => by
    have hle := hσ.le h
    simp only [JobId] at *
    omega
  refine ⟨?_, fun {id leader} h => ?_, fun {id l l'} h h' => ?_, fun {id j'} hj' => ?_⟩
  · have hnext := JobTable.nextId_apply happly
    rw [hcount] at hfew ⊢
    simp only [JobTable.Op.isRegister, if_true, hσ.next] at hnext
    exact hnext.trans (Nat.mod_eq_of_lt (by omega))
  · rw [hcount]
    obtain hold | ⟨_, heq, -⟩ := registered_advance.1 h
    · exact Nat.le_succ_of_le (hσ.le hold)
    · cases heq
      exact Nat.le_of_eq hr
  · obtain hold | ⟨_, heq, rfl⟩ := registered_advance.1 h <;>
      obtain hold' | ⟨_, heq', rfl⟩ := registered_advance.1 h'
    · exact hσ.unique hold hold'
    · cases heq'
      exact absurd hold hnew
    · cases heq
      exact absurd hold' hnew
    · cases heq
      cases heq'
      rfl
  · obtain ⟨heq, rfl⟩ | ⟨j₀, hj₀, ⟨-, rfl⟩ | ⟨habout, -⟩⟩ := JobTable.get?_of_apply happly hj'
    · cases heq
      refine registered_advance.2 (.inr ⟨j, ?_, rfl⟩)
      rw [hr, hσ.next]
    · exact registered_advance.2 (.inl (hσ.listed hj₀))
    · cases habout

end Advance

lemma Moves.registrations_le (h : σ.Moves σ') : σ.registrations ≤ σ'.registrations := by
  cases h with
  | exchange _ _ _ => exact registrations_advance ▸ Nat.le_add_right ..
  | _ => exact Nat.le_refl _

lemma Moves.numbered (h : σ.Moves σ') (hfew : σ'.registrations < Job.maxId) (hσ : σ.Numbered) :
    σ'.Numbered := by
  cases h with
  | begin _ => exact ⟨hσ.next, hσ.le, hσ.unique, hσ.listed⟩
  | become _ _ => exact ⟨hσ.next, hσ.le, hσ.unique, hσ.listed⟩
  | look seen _ =>
    refine ⟨?_, hσ.le, hσ.unique, fun {id j'} hj' => ?_⟩
    · exact (JobTable.nextId_settle ..).trans hσ.next
    · obtain ⟨j, hj, rfl | ⟨-, hseen⟩⟩ := JobTable.get?_of_settle hj'
      · exact hσ.listed hj
      · exact (Job.leader_of_seen hseen).1 ▸ hσ.listed hj
  | @exchange _ _ _ c _ _ _ _ _ hanswer =>
    cases hanswer with
    | @job op r t happly =>
      cases hregister : op.isRegister with
      | true =>
        cases op with
        | register j => exact hσ.advance_register happly hfew
        | _ => cases hregister
      | false =>
        refine hσ.advance hregister ?_ fun id j' hj' => ?_
        · simpa [hregister] using JobTable.nextId_apply happly
        · obtain ⟨rfl, -⟩ | ⟨j, hj, ⟨-, rfl⟩ | ⟨-, hchange⟩⟩ := JobTable.get?_of_apply happly hj'
          · cases hregister
          · exact ⟨j', hj, rfl⟩
          · exact ⟨j, hj, (JobTable.Op.leader_of_change hchange).1⟩
    | other _ hother =>
      have hregister : c.isRegister = false := by
        cases c with
        | job op => exact absurd rfl (hother op)
        | _ => rfl
      exact hσ.advance hregister rfl fun id j' hj' => ⟨j', hj', rfl⟩

lemma Moves.registered (h : σ.Moves σ') {id : JobId} {leader : Option Pid}
    (hid : σ.Registered id leader) : σ'.Registered id leader := by
  cases h with
  | exchange _ _ _ => exact registered_advance.2 (.inl hid)
  | _ => exact hid

/-- Only the next number comes into the table. -/
lemma Moves.listed (h : σ.Moves σ') {id : JobId} {j' : Job} (hj' : σ'.table.get? id = some j') :
    id = σ.table.nextId ∨ ∃ j, σ.table.get? id = some j := by
  cases h with
  | begin _ => exact .inr ⟨j', hj'⟩
  | become _ _ => exact .inr ⟨j', hj'⟩
  | look seen _ =>
    obtain ⟨j, hj, -⟩ := JobTable.get?_of_settle hj'
    exact .inr ⟨j, hj⟩
  | exchange _ _ hanswer =>
    cases hanswer with
    | job happly =>
      obtain ⟨-, hid⟩ | ⟨j, hj, -⟩ := JobTable.get?_of_apply happly hj'
      · exact .inl hid
      · exact .inr ⟨j, hj⟩
    | other => exact .inr ⟨j', hj'⟩

/-- **Numbers are not used again** while they last. -/
theorem Arises.numbered (h : σ.Arises) (hfew : σ.registrations < Job.maxId) : σ.Numbered := by
  induction h with
  | refl =>
    refine ⟨rfl, ?_, ?_, ?_⟩ <;> simp [Registered, System.initial, JobTable.get?, JobTable.empty]
  | move _ hmove ih =>
    exact hmove.numbered hfew (ih (Nat.lt_of_le_of_lt hmove.registrations_le hfew))

/-! ## Telling of an end -/

end System

/-- The events that an exchange takes out of the table. -/
def Exchange.drained : Exchange → List JobEvent
  | ⟨.job .takeEvents, events⟩ => events
  | _ => []

/-- The code of a job that has ended is taken out of the table. -/
def Moment.takes (id : JobId) (m : Moment) : Bool :=
  match m.exchange.1 with
  | .job (.collect k) => k = id && (m.table.get? id).any (·.status = .done)
  | _ => false

namespace System

variable {σ σ' : System}

/-- All events so far, whether somebody has taken them or not. -/
def published (σ : System) : List JobEvent :=
  σ.log.flatMap (fun m => Exchange.drained m.exchange) ++ σ.table.events

/-- How often the code of a job has been taken out of the table. -/
def taken (σ : System) (id : JobId) : Nat := σ.log.countP (Moment.takes id)

/-- How often the end of a job has been told, by an event or by its code. -/
def told (σ : System) (id : JobId) : Nat := JobTable.doneEvents id σ.published + σ.taken id

/-- The end of a job is told, if at all, by a step that takes the job out of the table. -/
def Tells (σ σ' : System) (id : JobId) : Prop :=
  σ'.told id = σ.told id ∨
    σ'.told id = σ.told id + 1 ∧ (σ.table.get? id).isSome ∧ σ'.table.get? id = none

section Advance

variable {i : Nat} {th : Thread} {id : JobId} {t : JobTable}

lemma told_advance (σ : System) (i : Nat) (th : Thread) (e : Exchange)
    (rest : Act th.service.Result) (t : JobTable) (id : JobId) :
    (σ.advance i th e rest t).told id + JobTable.doneEvents id σ.table.events =
      σ.told id + JobTable.doneEvents id (Exchange.drained e ++ t.events) +
        if Moment.takes id ⟨σ.table, e⟩ = true then 1 else 0 := by
  simp only [told, published, taken, advance, List.flatMap_append, List.flatMap_singleton,
    JobTable.doneEvents_append, List.countP_append, List.countP_singleton]
  omega

/-- Whoever takes the code of a job takes the job, too. -/
lemma tells_collect {k : JobId} {code : Int} {rest : Act th.service.Result}
    (happly : σ.table.apply (.collect k) = some (code, t)) :
    σ.Tells (σ.advance i th ⟨.job (.collect k), code⟩ rest t) id := by
  have htold := told_advance σ i th ⟨.job (.collect k), code⟩ rest t id
  simp only [Exchange.drained, List.nil_append, (JobTable.frame_collect happly).2] at htold
  by_cases htakes : Moment.takes id ⟨σ.table, ⟨.job (.collect k), code⟩⟩ = true
  · right
    obtain ⟨rfl, j, hj, hdone⟩ : k = id ∧ ∃ j, σ.table.get? id = some j ∧ j.status = .done := by
      simpa [Moment.takes, Option.any_eq_true] using htakes
    refine ⟨?_, by simp [hj], ?_⟩
    · rw [if_pos htakes] at htold
      omega
    · refine (JobTable.get?_apply happly k).trans ?_
      simp [JobTable.Op.entry, JobTable.Op.about, JobTable.Op.change, hj, hdone]
  · left
    rw [if_neg htakes] at htold
    omega

/-- Whoever announces the end of a job takes it out of the table. -/
lemma tells_apply {op : JobTable.Op} {r : op.Result} {rest : Act th.service.Result}
    (happly : σ.table.apply op = some (r, t)) (htake : op ≠ .takeEvents)
    (hcollect : ∀ k, op ≠ .collect k) (hpublish : ∀ k command, op ≠ .publish k .done command) :
    σ.Tells (σ.advance i th ⟨.job op, r⟩ rest t) id := by
  have htold := told_advance σ i th ⟨.job op, r⟩ rest t id
  have hdrained : Exchange.drained ⟨.job op, r⟩ = [] := by
    cases op <;> first | rfl | exact absurd rfl htake
  have htakes : Moment.takes id ⟨σ.table, ⟨.job op, r⟩⟩ = false := by
    cases op <;> first | rfl | exact absurd rfl (hcollect _)
  simp only [hdrained, htakes, List.nil_append, Bool.false_eq_true, if_false] at htold
  obtain heq | ⟨heq, hsome, hnone, -⟩ := JobTable.doneEvents_apply happly htake hpublish id
  · exact .inl (by omega)
  · exact .inr ⟨by omega, hsome, hnone⟩

/-- To take the events tells nobody else anything. -/
lemma tells_takeEvents {events : List JobEvent} {rest : Act th.service.Result}
    (happly : σ.table.apply .takeEvents = some (events, t)) :
    σ.Tells (σ.advance i th ⟨.job .takeEvents, events⟩ rest t) id := by
  obtain ⟨rfl, rfl⟩ : σ.table.events = events ∧ { σ.table with events := [] } = t := by
    simpa [JobTable.apply, JobTable.takeEvents] using happly
  have htold := told_advance σ i th ⟨.job .takeEvents, σ.table.events⟩ rest
    { σ.table with events := [] } id
  exact .inl (by simpa [Exchange.drained, Moment.takes] using htold)

end Advance

/-- **The end of a job is told only when the job leaves the table.** -/
lemma Moves.told (h : σ.Moves σ') (hσ : σ.Arises) (id : JobId) : σ.Tells σ' id := by
  cases h with
  | begin _ => exact .inl rfl
  | become _ _ => exact .inl rfl
  | @look k p seen _ =>
    have htold : (σ.look (k, p) seen).told id + JobTable.doneEvents id σ.table.events =
        σ.told id + JobTable.doneEvents id (σ.table.settle k seen).events := by
      simp only [System.told, published, taken, System.look, JobTable.doneEvents_append]
      omega
    obtain heq | ⟨heq, hsome, hnone⟩ := JobTable.doneEvents_settle σ.table id k seen
    · exact .inl (by omega)
    · exact .inr ⟨by omega, hsome, hnone⟩
  | @exchange i s past c next r t hi _ hanswer =>
    cases hanswer with
    | @job op r t happly =>
      cases op with
      | takeEvents => exact tells_takeEvents happly
      | collect k => exact tells_collect happly
      | publish k status command =>
        have hstopped : status = .stopped := (hσ.keeps (List.mem_of_getElem? hi)).2
        exact tells_apply happly nofun nofun (by simp [hstopped])
      | _ => exact tells_apply happly nofun nofun nofun
    | other _ hother =>
      left
      have htold := told_advance σ i ⟨s, past, .call c next⟩ ⟨c, r⟩ (next r) σ.table id
      have hdrained : Exchange.drained ⟨c, r⟩ = [] := by
        cases c <;> first | rfl | exact absurd rfl (hother _)
      have htakes : Moment.takes id ⟨σ.table, ⟨c, r⟩⟩ = false := by
        cases c <;> first | rfl | exact absurd rfl (hother _)
      simpa [hdrained, htakes] using htold

lemma Leads.registrations_le (h : σ.Leads σ') : σ.registrations ≤ σ'.registrations := by
  induction h with
  | refl => exact Nat.le_refl _
  | move _ hmove ih => exact Nat.le_trans ih hmove.registrations_le

/-- What has been told stays told. -/
lemma Leads.told_le (h : σ.Leads σ') (hσ : σ.Arises) (id : JobId) : σ.told id ≤ σ'.told id := by
  induction h with
  | refl => exact Nat.le_refl _
  | move hleads hmove ih =>
    obtain heq | ⟨heq, -⟩ := hmove.told (hσ.trans hleads) id <;> omega

/-- The end of a job that is listed has not been told, and that of any other once at most.  Nothing
is listed again, as its number has been used. -/
lemma Arises.told (h : σ.Arises) (hfew : σ.registrations < Job.maxId) (id : JobId) :
    σ.told id = 0 ∨ σ.told id = 1 ∧ σ.table.get? id = none ∧ ∃ leader, σ.Registered id leader := by
  induction h with
  | refl => exact .inl rfl
  | @move σ σ' hσ hmove ih =>
    have hless := Nat.lt_of_le_of_lt hmove.registrations_le hfew
    have hnumbered : σ.Numbered := Arises.numbered hσ hless
    obtain heq | ⟨heq, hsome, hnone⟩ := hmove.told hσ id
    · rw [heq]
      obtain hzero | ⟨hone, hnone, leader, hregistered⟩ := ih hless
      · exact .inl hzero
      · refine .inr ⟨hone, ?_, leader, hmove.registered hregistered⟩
        rw [Option.eq_none_iff_forall_ne_some]
        intro j' hj'
        obtain hid | ⟨j, hj⟩ := hmove.listed hj'
        · have hle := hnumbered.le hregistered
          have hnext := hnumbered.next
          simp only [JobId] at *
          omega
        · simp [hnone] at hj
    · obtain hzero | ⟨-, hnone', -⟩ := ih hless
      · obtain ⟨j, hj⟩ := Option.isSome_iff_exists.1 hsome
        exact .inr ⟨by omega, hnone, _, hmove.registered (hnumbered.listed hj)⟩
      · simp [hnone'] at hsome

/-- **The end of a job is told once.**  Whatever the order of events, while numbers last, and for
every number: at most one event tells that the job has ended; if there is such an event, nobody
has taken the code of the job out of the table, and the other way round; and once either has
happened, the number is not listed, nor will it be behind any further events.

**Proof sketch.** The end is told only by a step that takes the job out of the table
(`Moves.told`), and a number that has left the table does not come back (`Arises.numbered`). -/
theorem end_told_once {later : List Event} (h : σ.Reachable) (hrun : σ.run later = some σ')
    (hfew : σ'.registrations < Job.maxId) (id : JobId) :
    JobTable.doneEvents id σ.published ≤ 1 ∧
    ¬ (0 < JobTable.doneEvents id σ.published ∧ 0 < σ.taken id) ∧
    (0 < JobTable.doneEvents id σ.published ∨ 0 < σ.taken id →
      σ.table.get? id = none ∧ σ'.table.get? id = none) := by
  have hσ := h.arises
  have hleads := h.leads hrun
  have hless := Nat.lt_of_le_of_lt hleads.registrations_le hfew
  have hle := hleads.told_le hσ id
  have hnow := hσ.told hless id
  have hlater := (h.run hrun).arises.told hfew id
  simp only [System.told] at hle hnow hlater
  refine ⟨by omega, by omega, fun htold => ⟨?_, ?_⟩⟩
  · exact (hnow.resolve_left (by omega)).2.1
  · exact (hlater.resolve_left (by omega)).2.1

/-- Behind `handOver`, a job in the background ends and is announced. -/
def announce : List Event :=
  let w := World.obliging (.exited 0)
  [.begin (.addPipeline "make" ⟨8, [], []⟩ false none), .turn 5 w, .turn 5 w, .turn 6 w, .turn 6 w]

/-- The code of job 1 has been taken and the end of job 2 announced, each once; to take the events
changes nothing. -/
theorem end_told_once_announce : ∃ σ σ', System.initial.run (handOver ++ announce) = some σ ∧
    σ.run [.begin .takeEvents, .turn 7 (World.obliging .stopped)] = some σ' ∧
    σ'.registrations = 2 ∧ σ.taken 1 = 1 ∧ JobTable.doneEvents 2 σ.published = 1 ∧
    ∀ id, JobTable.doneEvents id σ.published ≤ 1 ∧
      ¬ (0 < JobTable.doneEvents id σ.published ∧ 0 < σ.taken id) ∧
      (0 < JobTable.doneEvents id σ.published ∨ 0 < σ.taken id →
        σ.table.get? id = none ∧ σ'.table.get? id = none) := by
  obtain ⟨σ, σ', hrun, hlater, hcount, htaken, hevents⟩ : ∃ σ σ',
      System.initial.run (handOver ++ announce) = some σ ∧
      σ.run [.begin .takeEvents, .turn 7 (World.obliging .stopped)] = some σ' ∧
      σ'.registrations = 2 ∧ σ.taken 1 = 1 ∧ JobTable.doneEvents 2 σ.published = 1 :=
    ⟨_, _, rfl, rfl, rfl, rfl, rfl⟩
  refine ⟨σ, σ', hrun, hlater, hcount, htaken, hevents, fun id => ?_⟩
  exact end_told_once (Reachable.initial.run hrun) hlater (hcount ▸ by decide) id

end System

end Conch
