import Conch.Proofs.Threads

/-!
# Jobs that cannot be reached

`fg` and `bg` send a signal to the job first, and drop a job that the signal does not reach.  Whom
the signal reaches depends on the processes: a process can be reached until somebody has waited for
it, a process group as long as one of its members can be.  Here the threads that work on the table
are put together with the processes, which end at any moment.  If `fg` or `bg` drops a job with a
process group of its own, then all processes of the group have ended.  Of a job without one only
the first process is known to have ended.

## Main definitions

* `Conch.Population` — the threads with the processes that have ended, and those that are gone.
* `Target.Lost` — a signal cannot reach its target any more.
* `Exchange.Truthful` — an answer says what is the case with the processes.
* `Population.step`, `Population.run` — processes end, and threads get answers that are truthful.
* `Conch.GivesUp` — a call of `fg` or `bg` drops a job.

## Main results

* `Service.givesUp` — `fg` and `bg` drop a job only behind a signal that has not reached it.
* `Population.run_faithful` — what a signal has not reached is gone, and what is gone has ended.
* `Population.dropped_job` — **which processes of a dropped job have ended**.
* `Population.live_job_dropped` — a job can be dropped while a process of it is running.
-/

set_option autoImplicit false

namespace Conch

/-! ## How a job is given up -/

/-- A job is dropped: it has been marked for somebody who wants it to go on, the signal has not
reached it, and it is taken out of the table. -/
structure GivesUp (id : JobId) (e : Errno) (past : List Exchange) (target : JobTarget) : Prop where
  found : (∃ unwatched, (⟨.job (.toForeground id), some (target, unwatched)⟩ : Exchange) ∈ past) ∨
    (⟨.job (.toBackground id), some target⟩ : Exchange) ∈ past
  unreached : (⟨.kill target.toTarget .resume, .error e⟩ : Exchange) ∈ past
  removed : ∃ j, (⟨.job (.remove id), j⟩ : Exchange) ∈ past

/-- What a service gives back when it drops a job. -/
def Service.DropsAs : (s : Service) → List Exchange → s.Result → Prop
  | .foreground id, past, r =>
    ∀ e, r = .error (.signalDelivery id e) → ∃ target, GivesUp id e past target
  | .background id, past, r =>
    ∀ e, r = .error (.signalDelivery id e) → ∃ target, GivesUp id e past target
  | _, _, _ => True

lemma Act.throughout_of_forall {α : Type} {Q : List Exchange → α → Prop} (hQ : ∀ past a, Q past a)
    (x : Act α) (past : List Exchange) : x.Throughout (fun _ _ => True) Q past := by
  induction x generalizing past with
  | done a => exact hQ past a
  | call c next ih => exact ⟨trivial, fun r => ih r _⟩

namespace Jobs

/-- What is left of `fg` drops the job only if the signal has not reached it. -/
lemma resume_givesUp {id : JobId} {target : JobTarget} {past : List Exchange}
    (hfound : ∃ unwatched,
      (⟨.job (.toForeground id), some (target, unwatched)⟩ : Exchange) ∈ past) :
    (resume id target).Throughout (fun _ _ => True) (Service.DropsAs (.foreground id)) past := by
  refine ⟨trivial, fun hold => ⟨trivial, fun r => ?_⟩⟩
  rcases r with e | ⟨⟩
  · refine ⟨trivial, fun j => ⟨trivial, fun _ => ?_⟩⟩
    rintro e' ⟨⟩
    obtain ⟨unwatched, hmem⟩ := hfound
    refine ⟨target, .inl ⟨unwatched, ?_⟩, ?_, j, ?_⟩
    · simp [hmem]
    · simp
    · simp
  · exact ⟨trivial, fun code => ⟨trivial, fun _ => nofun⟩⟩

lemma foreground_givesUp (id : JobId) :
    (foreground id).Throughout (fun _ _ => True) (Service.DropsAs (.foreground id)) [] := by
  rw [foreground_eq]
  refine ⟨trivial, fun r => ?_⟩
  rcases r with _ | ⟨target, _ | p⟩
  · exact nofun
  · exact resume_givesUp ⟨none, by simp⟩
  · exact ⟨trivial, fun _ => resume_givesUp ⟨some p, by simp⟩⟩

lemma background_givesUp (id : JobId) :
    (background id).Throughout (fun _ _ => True) (Service.DropsAs (.background id)) [] := by
  rw [background_eq]
  refine ⟨trivial, fun r => ?_⟩
  rcases r with _ | target
  · exact nofun
  · refine ⟨trivial, fun r => ?_⟩
    rcases r with e | ⟨⟩
    · refine ⟨trivial, fun j => ?_⟩
      rintro e' ⟨⟩
      refine ⟨target, .inr ?_, ?_, j, ?_⟩ <;> simp
    · exact nofun

end Jobs

/-- **A job is dropped only behind a signal that has not reached it.** -/
theorem Service.givesUp (s : Service) : s.act.Throughout (fun _ _ => True) s.DropsAs [] := by
  cases s with
  | foreground id => exact Jobs.foreground_givesUp id
  | background id => exact Jobs.background_givesUp id
  | _ => exact Act.throughout_of_forall (fun _ _ => trivial) _ _

namespace JobTable

variable {t t' : JobTable} {id : JobId} {target : JobTarget}

/-- Whoever brings a job to the foreground finds out how to reach it as it is listed. -/
lemma target_of_toForeground {unwatched : Option Pid}
    (h : t.toForeground id = (some (target, unwatched), t')) :
    ∃ j, t.get? id = some j ∧ j.target = target := by
  unfold toForeground at h
  cases hj : t.get? id with
  | none => simp [hj] at h
  | some j =>
    by_cases hdone : j.status = .done
    · simp [hj, hdone] at h
    · simp only [hj, hdone, if_false, Prod.mk.injEq, Option.some.injEq] at h
      exact ⟨j, rfl, h.1.1⟩

lemma target_of_toBackground (h : t.toBackground id = (some target, t')) :
    ∃ j, t.get? id = some j ∧ j.target = target := by
  unfold toBackground at h
  cases hj : t.get? id with
  | none => simp [hj] at h
  | some j =>
    by_cases hdone : j.status = .done
    · simp [hj, hdone] at h
    · simp only [hj, hdone, if_false, Prod.mk.injEq, Option.some.injEq] at h
      exact ⟨j, rfl, h.1⟩

end JobTable

namespace System

variable {σ σ' : System}

/-- What the table has answered is what it answers. -/
lemma Arises.answered (h : σ.Arises) {op : JobTable.Op} {r : op.Result} :
    ∀ m ∈ σ.log, m.exchange = ⟨.job op, r⟩ → ∃ t, m.table.apply op = some (r, t) := by
  induction h with
  | refl => simp [System.initial]
  | move _ hmove ih =>
    intro m hm hop
    cases hmove with
    | begin _ => exact ih m hm hop
    | become _ _ => exact ih m hm hop
    | look _ _ => exact ih m hm hop
    | exchange _ _ hanswer =>
      obtain hm | hm := List.mem_append.1 hm
      · exact ih m hm hop
      · obtain rfl := List.mem_singleton.1 hm
        cases hop
        cases hanswer with
        | job happly => exact ⟨_, happly⟩
        | other _ hother => exact absurd rfl (hother _)

/-- Whoever finds a job finds out how to reach it as it is listed. -/
lemma Arises.found (h : σ.Arises) {id : JobId} {past : List Moment} (hpast : past ⊆ σ.log)
    {e : Errno} {target : JobTarget}
    (hgives : GivesUp id e (past.map Moment.exchange) target) :
    ∃ m ∈ past, ∃ j, m.table.get? id = some j ∧ j.target = target := by
  obtain ⟨unwatched, hmem⟩ | hmem := hgives.found
  · obtain ⟨m, hm, hexchange⟩ := List.mem_map.1 hmem
    obtain ⟨t, happly⟩ := h.answered m (hpast hm) hexchange
    exact ⟨m, hm, JobTable.target_of_toForeground (Option.some.inj happly)⟩
  · obtain ⟨m, hm, hexchange⟩ := List.mem_map.1 hmem
    obtain ⟨t, happly⟩ := h.answered m (hpast hm) hexchange
    exact ⟨m, hm, JobTable.target_of_toBackground (Option.some.inj happly)⟩

lemma Moves.log_extends (h : σ.Moves σ') : σ.log <+: σ'.log := by
  cases h with
  | exchange _ _ _ => exact List.prefix_append _ _
  | _ => exact List.prefix_refl _

lemma Leads.log_extends (h : σ.Leads σ') : σ.log <+: σ'.log := by
  induction h with
  | refl => exact List.prefix_refl _
  | move _ hmove ih => exact ih.trans hmove.log_extends

end System

/-! ## Processes -/

/-- A signal cannot reach its target: of several processes the first counts, and it is gone; of a
process group no member is left. -/
def Target.Lost (members : Pid → List Pid) (gone : List Pid) : Target → Prop
  | .group g => ∀ p ∈ members g, p ∈ gone
  | .processes pids => ∃ p ∈ pids.head?, p ∈ gone

instance (members : Pid → List Pid) (gone : List Pid) :
    (t : Target) → Decidable (t.Lost members gone)
  | .group g => inferInstanceAs (Decidable (∀ p ∈ members g, p ∈ gone))
  | .processes pids => inferInstanceAs (Decidable (∃ p ∈ pids.head?, p ∈ gone))

lemma Target.Lost.mono {members : Pid → List Pid} {gone gone' : List Pid} {t : Target}
    (h : t.Lost members gone) (hle : gone ⊆ gone') : t.Lost members gone' := by
  cases t with
  | group g => exact fun p hp => hle (h p hp)
  | processes pids =>
    obtain ⟨p, hp, hgone⟩ := h
    exact ⟨p, hp, hle hgone⟩

/-- The process that an exchange has waited for to the end.  A wait that fails finds nothing to wait
for any more. -/
def Exchange.buried : Exchange → Option Pid
  | ⟨.waitExit p, _⟩ => some p
  | ⟨.waitPause p, .ok (some _)⟩ | ⟨.waitPause p, .error _⟩ => some p
  | ⟨.waitChange p, .ok (.exited _)⟩ | ⟨.waitChange p, .error _⟩ => some p
  | _ => none

/-- The process that a look has waited for to the end. -/
def Look.buried (l : Look) : Option Pid :=
  match l.seen with
  | .ok (some (.exited _)) | .error _ => some l.leader
  | _ => none

/-- The target of a signal, and whether the signal has reached it. -/
def Exchange.signalled : Exchange → Option (Target × Bool)
  | ⟨.kill t _, .ok _⟩ => some (t, true)
  | ⟨.kill t _, .error _⟩ => some (t, false)
  | _ => none

/-- The answer to a request says what is the case: only a process that has ended is waited for to
the end, and a signal fails exactly if its target is lost. -/
def Exchange.Truthful (members : Pid → List Pid) (ended gone : List Pid) (e : Exchange) : Prop :=
  (∀ p ∈ Exchange.buried e, p ∈ ended) ∧
    ∀ x ∈ Exchange.signalled e, x.2 = false ↔ x.1.Lost members gone

instance (members : Pid → List Pid) (ended gone : List Pid) (e : Exchange) :
    Decidable (Exchange.Truthful members ended gone e) :=
  inferInstanceAs (Decidable (_ ∧ _))

/-- The threads together with the processes. -/
structure Population where
  system : System
  /-- The processes that have ended. -/
  ended : List Pid
  /-- The processes that somebody has waited for to the end. -/
  gone : List Pid

namespace Population

/-- No thread, no job, and no process has ended. -/
def initial : Population := ⟨.initial, [], []⟩

/-- What can happen. -/
inductive Event where
  /-- A process ends. -/
  | ends (p : Pid)
  /-- Somebody else waits for a process that the shell has not started. -/
  | buried (p : Pid)
  /-- A thread begins or gets an answer. -/
  | system (e : System.Event)

/-- The requests since an earlier moment, with their answers. -/
def news (σ σ' : System) : List Exchange :=
  (σ'.log.drop σ.log.length).map Moment.exchange

/-- The looks since an earlier moment. -/
def newLooks (σ σ' : System) : List Look := σ'.looks.drop σ.looks.length

/-- What an event makes of threads and processes, given the members of each process group; nothing
if it cannot happen now.  All answers are truthful. -/
def step (members : Pid → List Pid) (h : Population) : Event → Option Population
  | .ends p => some { h with ended := p :: h.ended }
  | .buried p =>
    if p ∈ h.ended ∧ p ∉ h.system.given then some { h with gone := p :: h.gone } else none
  | .system e => (h.system.step e).bind fun σ =>
    if (∀ x ∈ news h.system σ, Exchange.Truthful members h.ended h.gone x) ∧
        ∀ l ∈ newLooks h.system σ, ∀ p ∈ l.buried, p ∈ h.ended then
      some ⟨σ, h.ended, (news h.system σ).filterMap Exchange.buried ++
        (newLooks h.system σ).filterMap Look.buried ++ h.gone⟩
    else none

/-- What a list of events makes of threads and processes. -/
def run (members : Pid → List Pid) (h : Population) (es : List Event) : Option Population :=
  replay (step members) h es

variable {members : Pid → List Pid} {h h' : Population}

/-- What is gone has ended, and a signal that has not reached its target could not. -/
structure Faithful (members : Pid → List Pid) (h : Population) : Prop where
  reachable : h.system.Reachable
  gone : h.gone ⊆ h.ended
  lost : ∀ m ∈ h.system.log, ∀ {t s e}, m.exchange = ⟨.kill t s, .error e⟩ →
    t.Lost members h.gone

lemma faithful_initial : initial.Faithful members :=
  ⟨.initial, List.nil_subset _, by simp [initial, System.initial]⟩

lemma mem_news {σ σ' : System} (hextends : σ.log <+: σ'.log) {m : Moment} (hm : m ∈ σ'.log) :
    m ∈ σ.log ∨ m.exchange ∈ news σ σ' := by
  obtain ⟨more, hmore⟩ := hextends
  rw [← hmore] at hm
  obtain hm | hm := List.mem_append.1 hm
  · exact .inl hm
  · right
    rw [news, ← hmore, List.drop_left]
    exact List.mem_map_of_mem hm

/-- The threads take a step. -/
lemma Faithful.system (hf : h.Faithful members) {e : System.Event} {σ : System}
    (hstep : h.system.step e = some σ)
    (hnews : ∀ x ∈ news h.system σ, Exchange.Truthful members h.ended h.gone x)
    (hlooks : ∀ l ∈ newLooks h.system σ, ∀ p ∈ l.buried, p ∈ h.ended) :
    Faithful members ⟨σ, h.ended, (news h.system σ).filterMap Exchange.buried ++
      (newLooks h.system σ).filterMap Look.buried ++ h.gone⟩ := by
  refine ⟨hf.reachable.step e hstep, ?_, fun m hm t s err hkill => ?_⟩
  · refine List.append_subset.2 ⟨List.append_subset.2 ⟨fun p hp => ?_, fun p hp => ?_⟩, hf.gone⟩
    · obtain ⟨x, hx, hburied⟩ := List.mem_filterMap.1 hp
      exact (hnews x hx).1 p hburied
    · obtain ⟨l, hl, hburied⟩ := List.mem_filterMap.1 hp
      exact hlooks l hl p hburied
  · have hleads : h.system.Leads σ := .step .refl hf.reachable.arises.ordered hstep
    have hlost : t.Lost members h.gone := by
      obtain hold | hnew := mem_news hleads.log_extends hm
      · exact hf.lost m hold hkill
      · rw [hkill] at hnew
        exact ((hnews _ hnew).2 (t, false) rfl).1 rfl
    exact hlost.mono (List.subset_append_right _ _)

lemma Faithful.step (hf : h.Faithful members) {e : Event} (hstep : h.step members e = some h') :
    h'.Faithful members := by
  cases e with
  | ends p =>
    obtain rfl := Option.some.inj hstep
    exact ⟨hf.reachable, List.Subset.trans hf.gone (List.subset_cons_self _ _), hf.lost⟩
  | buried p =>
    simp only [Population.step] at hstep
    obtain ⟨⟨hended, -⟩, heq⟩ := Option.ite_none_right_eq_some.1 hstep
    obtain rfl := Option.some.inj heq
    refine ⟨hf.reachable, List.cons_subset.2 ⟨hended, hf.gone⟩, fun m hm t s err hkill => ?_⟩
    exact (hf.lost m hm hkill).mono (List.subset_cons_self _ _)
  | system e =>
    obtain ⟨σ, hσ, hif⟩ := Option.bind_eq_some_iff.1 hstep
    obtain ⟨⟨hnews, hlooks⟩, heq⟩ := Option.ite_none_right_eq_some.1 hif
    obtain rfl := Option.some.inj heq
    exact hf.system hσ hnews hlooks

/-- Behind every run, what is gone has ended, and a signal that has not reached its target could
not. -/
lemma run_faithful {es : List Event} (hrun : h.run members es = some h')
    (hf : h.Faithful members) : h'.Faithful members :=
  replay_keeps (fun hstep hf => hf.step hstep) hrun hf

/-- Of a target that is lost, the processes that count have ended. -/
lemma Faithful.ended_of_lost (hf : h.Faithful members) {j : Job}
    (hlost : j.target.toTarget.Lost members h.gone) :
    (∀ g, j.group = some g → ∀ p ∈ members g, p ∈ h.ended) ∧
    (j.group = none → ∃ p rest, j.pids = p :: rest ∧ p ∈ h.ended) := by
  constructor
  · intro g hg p hp
    simp only [Job.target, JobTarget.toTarget, hg] at hlost
    exact hf.gone (hlost p hp)
  · intro hg
    simp only [Job.target, JobTarget.toTarget, hg] at hlost
    obtain ⟨p, hp, hgone⟩ := hlost
    obtain ⟨rest, hpids⟩ := List.head?_eq_some_iff.1 hp
    exact ⟨p, rest, hpids, hf.gone hgone⟩

/-- **Which processes of a dropped job have ended.**  Whatever the order in which threads take their
turns and processes end: if a call of `fg` or `bg` has given back that the signal has not reached
the job, then it has taken the job out of the table, and of the job as it was found

* all processes of the process group have ended, if the job has a process group of its own;
* the first process has ended, if the job has none;
* so all processes have ended if the process group holds them, or if there is only one.

**Proof sketch.** The job is dropped only behind a signal that has not reached it
(`Service.givesUp`), and what a signal has not reached has ended (`run_faithful`). -/
theorem dropped_job {es : List Event} (hrun : initial.run members es = some h) {id : JobId}
    {past : List Moment} {e : Errno}
    (hth : (⟨.foreground id, past, .done (.error (.signalDelivery id e))⟩ : Thread) ∈
        h.system.threads ∨
      (⟨.background id, past, .done (.error (.signalDelivery id e))⟩ : Thread) ∈
        h.system.threads) :
    (∃ m ∈ past, m.exchange.1 = .job (.remove id)) ∧
    ∃ m ∈ past, ∃ j, m.table.get? id = some j ∧
      (∀ g, j.group = some g → ∀ p ∈ members g, p ∈ h.ended) ∧
      (j.group = none → ∃ p rest, j.pids = p :: rest ∧ p ∈ h.ended) ∧
      ((∀ g, j.group = some g → j.pids ⊆ members g) → (j.group = none → j.pids.length = 1) →
        ∀ p ∈ j.pids, p ∈ h.ended) := by
  have hf := run_faithful hrun faithful_initial
  have harises := hf.reachable.arises
  obtain ⟨hpast, target, hgives⟩ : past ⊆ h.system.log ∧
      ∃ target, GivesUp id e (past.map Moment.exchange) target := by
    obtain hth | hth := hth
    · exact ⟨harises.past_subset _ hth, harises.throughout Service.givesUp _ hth e rfl⟩
    · exact ⟨harises.past_subset _ hth, harises.throughout Service.givesUp _ hth e rfl⟩
  constructor
  · obtain ⟨j, hremoved⟩ := hgives.removed
    obtain ⟨m, hm, hexchange⟩ := List.mem_map.1 hremoved
    exact ⟨m, hm, by rw [hexchange]⟩
  · obtain ⟨m, hm, j, hj, rfl⟩ := harises.found hpast hgives
    obtain ⟨m', hm', hkill⟩ := List.mem_map.1 hgives.unreached
    obtain ⟨hgroup, hfirst⟩ := hf.ended_of_lost (hf.lost m' (hpast hm') hkill)
    refine ⟨m, hm, j, hj, hgroup, hfirst, fun hmembers hone p hp => ?_⟩
    cases hg : j.group with
    | some g => exact hgroup g hg p (hmembers g hg hp)
    | none =>
      obtain ⟨q, rest, hpids, hq⟩ := hfirst hg
      obtain rfl : rest = [] := by simpa [hpids] using hone hg
      obtain rfl : p = q := by simpa [hpids] using hp
      exact hq

/-- A system in which a process that is waited for has ended with success, or stopped if somebody
waits for that; signals arrive, or do not. -/
def around (arrives : Bool) : World where
  answer
    | .fork _ => some 0
    | .kill .. => some (if arrives then .ok () else .error .noProcess)
    | .waitPause _ => some (.ok none)
    | .waitChange _ => some (.ok (.exited 0))
    | .waitExit _ => some (.ok (.exited 0))
    | _ => none
  looks := []

/-- A job in the process group 6 ends, and `bg` comes before its monitor has reported the end. -/
def late : List Event :=
  [.system (.begin (.addPipeline "make | sort" ⟨7, [6], []⟩ false (some 6))),
    .system (.turn 0 (around true)), .system (.turn 0 (around true)), .ends 7, .ends 6,
    .system (.turn 1 (around true)), .system (.turn 1 (around true)),
    .system (.begin (.background 1)), .system (.turn 2 (around true)),
    .system (.turn 2 (around false)), .system (.turn 2 (around false))]

/-- In `late` the job is dropped, and both its processes have ended. -/
theorem dropped_job_late : ∃ h past, initial.run (fun _ => [6, 7]) late = some h ∧
    (⟨.background 1, past, .done (.error (.signalDelivery 1 .noProcess))⟩ : Thread) ∈
      h.system.threads ∧
    (∃ m ∈ past, m.exchange.1 = .job (.remove 1)) ∧
    ∃ m ∈ past, ∃ j, m.table.get? 1 = some j ∧
      (∀ g, j.group = some g → ∀ p ∈ [6, 7], p ∈ h.ended) ∧
      (j.group = none → ∃ p rest, j.pids = p :: rest ∧ p ∈ h.ended) ∧
      ((∀ g, j.group = some g → j.pids ⊆ [6, 7]) → (j.group = none → j.pids.length = 1) →
        ∀ p ∈ j.pids, p ∈ h.ended) := by
  obtain ⟨h, past, hrun, hth⟩ : ∃ h past, initial.run (fun _ => [6, 7]) late = some h ∧
      h.system.threads[2]? =
        some ⟨.background 1, past, .done (.error (.signalDelivery 1 .noProcess))⟩ :=
    ⟨_, _, rfl, rfl⟩
  have hmem := List.mem_of_getElem? hth
  exact ⟨h, past, hrun, hmem, dropped_job hrun (.inr hmem)⟩

/-- A pipeline stops in the foreground and goes on in the background.  Its last process ends, and
somebody runs `bg` again. -/
def partlyEnded : List Event :=
  let w := around true
  [.system (.begin (.runForeground "cat | head" ⟨7, [6], []⟩)), .system (.turn 0 w),
    .system (.turn 0 w), .system (.turn 0 w), .system (.turn 0 w), .system (.turn 0 w),
    .system (.turn 0 w),
    .system (.begin (.background 1)), .system (.turn 2 w), .system (.turn 2 w),
    .ends 7, .system (.turn 1 w),
    .system (.begin (.background 1)), .system (.turn 3 w),
    .system (.turn 3 (around false)), .system (.turn 3 (around false))]

/-- A job that the shell runs itself waits for a pipeline, the last process of which ends; somebody
runs `bg` for the job. -/
def halfWay : List Event :=
  let w := around true
  [.system (.begin (.worker "( cat | head; make )" 0)), .system (.turn 0 w),
    .system (.begin (.runInJob 1 ⟨7, [6], []⟩)), .system (.turn 1 w),
    .ends 7, .system (.turn 1 w),
    .system (.begin (.background 1)), .system (.turn 2 w),
    .system (.turn 2 (around false)), .system (.turn 2 (around false))]

/-- **A job can be dropped while it is running.**  In `partlyEnded`, `bg` says that the signal has
not reached the job and takes it out of the table, but process 6 of the pipeline has not ended.  In
`halfWay` that holds as well, and the thread that runs the job has not come to its end. -/
theorem live_job_dropped :
    (∃ h past, initial.run (fun _ => []) partlyEnded = some h ∧
      (⟨.background 1, past, .done (.error (.signalDelivery 1 .noProcess))⟩ : Thread) ∈
        h.system.threads ∧
      (∃ m ∈ past, ∃ j, m.table.get? 1 = some j ∧ j.pids = [7, 6]) ∧
      h.system.table.get? 1 = none ∧ 6 ∉ h.ended) ∧
    ∃ h past worker next, initial.run (fun _ => []) halfWay = some h ∧
      (⟨.background 1, past, .done (.error (.signalDelivery 1 .noProcess))⟩ : Thread) ∈
        h.system.threads ∧
      h.system.table.get? 1 = none ∧ 6 ∉ h.ended ∧
      (⟨.worker "( cat | head; make )" 0, worker, .call (.job (.finish 1 0)) next⟩ : Thread) ∈
        h.system.threads := by
  constructor
  · obtain ⟨h, past, hrun, hth, hfound, hnone, hended⟩ : ∃ h past,
        initial.run (fun _ => []) partlyEnded = some h ∧
        h.system.threads[3]? =
          some ⟨.background 1, past, .done (.error (.signalDelivery 1 .noProcess))⟩ ∧
        (∃ m ∈ past, ∃ j, m.table.get? 1 = some j ∧ j.pids = [7, 6]) ∧
        h.system.table.get? 1 = none ∧ h.ended = [7] :=
      ⟨_, _, rfl, rfl, ⟨_, List.mem_cons_self, _, rfl, rfl⟩, rfl, rfl⟩
    exact ⟨h, past, hrun, List.mem_of_getElem? hth, hfound, hnone, by simp [hended]⟩
  · obtain ⟨h, past, worker, next, hrun, hth, hnone, hended, hworker⟩ : ∃ h past worker next,
        initial.run (fun _ => []) halfWay = some h ∧
        h.system.threads[2]? =
          some ⟨.background 1, past, .done (.error (.signalDelivery 1 .noProcess))⟩ ∧
        h.system.table.get? 1 = none ∧ h.ended = [7] ∧
        h.system.threads[0]? =
          some ⟨.worker "( cat | head; make )" 0, worker, .call (.job (.finish 1 0)) next⟩ :=
      ⟨_, _, _, _, rfl, rfl, rfl, rfl, rfl⟩
    refine ⟨h, past, worker, next, hrun, List.mem_of_getElem? hth, hnone, by simp [hended], ?_⟩
    exact List.mem_of_getElem? hworker

end Population

end Conch
