import Conch.Proofs.Rights

/-!
# One owner for the wait

A process may be waited for by one party only: a second wait would lose its status, or hit another
process with the same number.  Each step of the system hands the right to wait from one party to
another at most, so whatever the order of the steps, nobody waits for a process that another
party waits for, and nobody waits for one whose end has been reported.

## Main definitions

* `Conch.Party` — a thread, or the one who looks at a job that nobody waits for.
* `System.Has` — a party has a right; with `Call.waits`, it is entitled to wait.
* `System.Owned` — the invariant: every right has one owner.
* `System.started`, `System.ends` — how many monitors have been started for a process, and how
  often its end has been reported.
* `System.Spent` — something happens to a process once only, and takes the right to it.

## Main results

* `System.Moves.has` — only one party gets anything in a step, and what it gets, another loses.
* `System.Moves.owned`, `System.Moves.spent` — what one step preserves.
* `System.one_wait_owner` — **one party waits for a process**, and learns of its end once.
-/

set_option autoImplicit false

namespace Conch

/-- Who can have a right about a process: a thread, or whoever looks at a job that nobody waits
for. -/
inductive Party where
  | thread (i : Nat)
  | reaper (id : JobId)
  deriving DecidableEq, Repr

/-- A right that listing a process needs, and that a monitor has only if starting it needs it. -/
structure Right (use : Pid → Call → Prop) : Prop where
  le {p : Pid} {c : Call} : use p c → c.uses p
  register {p : Pid} {c : Call} : c.registers p → use p c
  fork {p : Pid} {id : JobId} {leader : Pid} {siblings : List Pid} {helpers : List Helper} :
    (Service.monitor id leader siblings helpers).act.May use p →
      use p (.fork (.monitor id leader siblings helpers))
  become {p : Pid} {id : JobId} {leader : Pid} {siblings : List Pid} {helpers : List Helper} :
    (Service.monitor id leader siblings helpers).act.May use p →
      use p (.become (.monitor id leader siblings helpers))

lemma Right.uses : Right Call.uses where
  le := id
  register := .inr
  fork h := .inl (Service.may_act h)
  become h := .inl (Service.may_act h)

/-- A monitor starts no monitor and lists no job. -/
lemma not_may_start_monitor {p : Pid} {id : JobId} {leader : Pid} {siblings : List Pid}
    {helpers : List Helper} :
    ¬ (Service.monitor id leader siblings helpers).act.May Call.starts p := by
  have hgather : ∀ c : Call, c.isGathering → ¬ c.starts p := by
    intro c hc
    cases c <;> simp [Call.isGathering] at hc <;> simp
  change ¬ (Jobs.monitor id leader siblings helpers).May Call.starts p
  rw [Jobs.monitor_eq]
  rintro (hwait | ⟨r, -, hrest⟩)
  · simp at hwait
  · rcases r with e | (code | _ | _)
    · simp [Act.may_call] at hrest
    · obtain hcollect | ⟨_, hjoin⟩ := hrest.bind
      · exact (Jobs.collectAll_gathers siblings).not_may hgather hcollect
      · obtain hjoin | ⟨_, hfinish⟩ := hjoin.bind
        · exact (Jobs.joinAll_gathers helpers).not_may hgather hjoin
        · simp [Act.may_call] at hfinish
    · simp [Act.may_call, Act.become] at hrest
    · simp [Act.may_call, Act.become] at hrest

lemma Right.starts : Right Call.starts where
  le := by
    rintro p c (hstart | hregister)
    · left
      cases c with
      | fork b =>
        cases b <;> simp at hstart
        simp [hstart]
      | _ => simp at hstart
    · exact .inr hregister
  register := .inr
  fork h := absurd h not_may_start_monitor
  become h := absurd h not_may_start_monitor

namespace System

variable {σ σ' : System}

/-- A party has a right about a process. -/
def Has (σ : System) (use : Pid → Call → Prop) (p : Pid) : Party → Prop
  | .thread i => ∃ th, σ.threads[i]? = some th ∧ th.rest.May use p
  | .reaper id => σ.table.Unwatched id p

lemma Has.mono {use use' : Pid → Call → Prop} {p : Pid} {a : Party}
    (hle : ∀ c, use p c → use' p c) (h : σ.Has use p a) : σ.Has use' p a := by
  cases a with
  | thread i =>
    obtain ⟨th, hth, hmay⟩ := h
    exact ⟨th, hth, hmay.mono hle⟩
  | reaper id => exact h

/-- Every right has one owner, and nobody keeps what he has given away. -/
structure Owned (σ : System) : Prop where
  unique {p : Pid} {a b : Party} : σ.Has Call.uses p a → σ.Has Call.uses p b → a = b
  given {p : Pid} {a : Party} : σ.Has Call.uses p a → p ∈ σ.given
  linear {th : Thread} : th ∈ σ.threads → th.rest.Linear
  quiet {id : JobId} {j : Job} : σ.table.get? id = some j → j.watched = false →
    j.status = .running ∨ j.status = .stopped

/-! ## What a party gets in a step -/

/-- The party that an exchange of a thread gives something to. -/
def newcomer (σ : System) (i : Nat) : Call → Party
  | .fork _ => .thread σ.threads.length
  | .job (.register _) => .reaper σ.table.nextId
  | _ => .thread i

section Advance

variable {i : Nat} {s : Service} {past : List Moment} {c : Call} {next : Reply c → Act s.Result}
  {r : Reply c} {t : JobTable}

/-- What the table hands to a thread, the thread has not had before. -/
lemma Owned.not_may_of_hands (hσ : σ.Owned) (hi : σ.threads[i]? = some ⟨s, past, .call c next⟩)
    (hanswer : σ.table.Answers c r t) {p : Pid} (hhands : Exchange.hands p ⟨c, r⟩) :
    ¬ (Act.call c next).May Call.uses p := by
  intro hmay
  obtain ⟨id, hunwatched, -⟩ := hanswer.unwatched_of_hands hhands
  have heq := hσ.unique (a := .thread i) (b := .reaper id) ⟨_, hi, hmay⟩ hunwatched
  cases heq

lemma Owned.linear_next (hσ : σ.Owned) (hi : σ.threads[i]? = some ⟨s, past, .call c next⟩)
    (hanswer : σ.table.Answers c r t) :
    (∀ p, c.gives p ∨ Exchange.ends p ⟨c, r⟩ → ¬ (next r).May Call.uses p) ∧ (next r).Linear :=
  (hσ.linear (List.mem_of_getElem? hi)).2 r fun _ => hσ.not_may_of_hands hi hanswer

lemma may_of_has_advance {use : Pid → Call → Prop} {p : Pid}
    (hi : σ.threads[i]? = some ⟨s, past, .call c next⟩)
    (h : (σ.advance i ⟨s, past, .call c next⟩ ⟨c, r⟩ (next r) t).Has use p (.thread i)) :
    (next r).May use p := by
  obtain ⟨th, hth, hmay⟩ := h
  have hlt : i < σ.threads.length := (List.getElem?_eq_some_iff.1 hi).1
  obtain ⟨-, rfl⟩ | ⟨hne, -⟩ | ⟨hlast, -⟩ := getElem?_advance hi hth
  · exact hmay
  · exact absurd rfl hne
  · omega

/-- What a thread gives away, or knows to have ended, it has no more. -/
lemma Owned.not_has_of_gives (hσ : σ.Owned) (hi : σ.threads[i]? = some ⟨s, past, .call c next⟩)
    (hanswer : σ.table.Answers c r t) {p : Pid} (hp : c.gives p ∨ Exchange.ends p ⟨c, r⟩) :
    ¬ (σ.advance i ⟨s, past, .call c next⟩ ⟨c, r⟩ (next r) t).Has Call.uses p (.thread i) :=
  fun h => (hσ.linear_next hi hanswer).1 p hp (may_of_has_advance hi h)

lemma Owned.has_advance (hσ : σ.Owned) (hi : σ.threads[i]? = some ⟨s, past, .call c next⟩)
    (hanswer : σ.table.Answers c r t) {use : Pid → Call → Prop} (hright : Right use) {p : Pid}
    {a : Party} (ha : (σ.advance i ⟨s, past, .call c next⟩ ⟨c, r⟩ (next r) t).Has use p a) :
    σ.Has use p a ∨ a = σ.newcomer i c ∧ ∃ b, σ.Has use p b ∧
      ¬ (σ.advance i ⟨s, past, .call c next⟩ ⟨c, r⟩ (next r) t).Has Call.uses p b := by
  cases a with
  | thread k =>
    obtain ⟨th, hth, hmay⟩ := ha
    obtain ⟨rfl, rfl⟩ | ⟨-, hold⟩ | ⟨rfl, id, leader, siblings, helpers, rfl, rfl⟩ :=
      getElem?_advance hi hth
    · by_cases hhands : Exchange.hands p ⟨c, r⟩
      · -- The table takes the process from the job that it belongs to.
        obtain ⟨id, hunwatched, hgone⟩ := hanswer.unwatched_of_hands hhands
        refine .inr ⟨?_, .reaper id, hunwatched, hgone p⟩
        cases c with
        | job op =>
          cases op with
          | register j => exact hhands.elim
          | _ => rfl
        | fork b => exact hhands.elim
        | _ => rfl
      · exact .inl ⟨_, hi, .inr ⟨r, hhands, hmay⟩⟩
    · exact .inl ⟨th, hold, hmay⟩
    · have huse := hright.fork hmay
      have hgives : Call.gives p (.fork (.monitor id leader siblings helpers)) := by
        simpa using hright.le huse
      exact .inr ⟨rfl, .thread i, ⟨_, hi, .inl huse⟩, hσ.not_has_of_gives hi hanswer (.inl hgives)⟩
  | reaper id =>
    obtain hold | ⟨rfl, j, rfl, hgives⟩ := hanswer.unwatched ha
    · exact .inl hold
    · have huse := hright.register (show Call.registers p (.job (.register j)) from hgives.2)
      exact .inr ⟨rfl, .thread i, ⟨_, hi, .inl huse⟩, hσ.not_has_of_gives hi hanswer (.inl hgives)⟩

end Advance

/-- **Only one party gets anything in a step**, and what it gets is new or another party loses
it. -/
lemma Moves.has (h : σ.Moves σ') (hσ : σ.Owned) : ∃ new : Party,
    ∀ use, Right use → ∀ p a, σ'.Has use p a →
      σ.Has use p a ∨ a = new ∧
        (p ∉ σ.given ∧ p ∈ σ'.given ∨ ∃ b, σ.Has use p b ∧ ¬ σ'.Has Call.uses p b) := by
  cases h with
  | @begin s hs =>
    refine ⟨.thread σ.threads.length, fun use hright p a ha => ?_⟩
    cases a with
    | thread k =>
      obtain ⟨th, hth, hmay⟩ := ha
      obtain hold | ⟨rfl, rfl⟩ := getElem?_begin hth
      · exact .inl ⟨th, hold, hmay⟩
      · have hp : p ∈ s.pids := Service.may_act (hmay.mono fun c => hright.le)
        exact .inr ⟨rfl, .inl ⟨hs.2.2 p hp, List.mem_append_left _ hp⟩⟩
    | reaper id => exact .inl ha
  | @become i s s' past c next hi hbecomes =>
    refine ⟨.thread i, fun use hright p a ha => .inl ?_⟩
    cases a with
    | thread k =>
      obtain ⟨th, hth, hmay⟩ := ha
      obtain ⟨-, hold⟩ | ⟨rfl, rfl⟩ := getElem?_become hth
      · exact ⟨th, hold, hmay⟩
      · obtain ⟨id, leader, siblings, helpers, rfl, rfl⟩ := Call.eq_of_becomes? hbecomes
        exact ⟨_, hi, .inl (hright.become hmay)⟩
    | reaper id => exact ha
  | look seen _ =>
    refine ⟨.thread 0, fun use hright p a ha => .inl ?_⟩
    cases a with
    | thread k => exact ha
    | reaper id => exact JobTable.unwatched_of_settle ha
  | @exchange i s past c next r t hi _ hanswer =>
    refine ⟨σ.newcomer i c, fun use hright p a ha => ?_⟩
    obtain hold | ⟨hnew, hfrom⟩ := hσ.has_advance hi hanswer hright ha
    · exact .inl hold
    · exact .inr ⟨hnew, .inr hfrom⟩

/-! ## The invariant -/

lemma Moves.quiet (h : σ.Moves σ') (hσ : σ.Owned) {id : JobId} {j' : Job}
    (hj' : σ'.table.get? id = some j') (hwatched : j'.watched = false) :
    j'.status = .running ∨ j'.status = .stopped := by
  cases h with
  | begin _ => exact hσ.quiet hj' hwatched
  | become _ _ => exact hσ.quiet hj' hwatched
  | look seen _ =>
    obtain ⟨j, hj, rfl | ⟨-, hseen⟩⟩ := JobTable.get?_of_settle hj'
    · exact hσ.quiet hj hwatched
    · exact Job.quiet_of_seen hseen (hσ.quiet hj ((Job.leader_of_seen hseen).2 ▸ hwatched))
  | exchange hi _ hanswer =>
    cases hanswer with
    | job happly =>
      obtain ⟨rfl, -⟩ | ⟨j, hj, ⟨-, rfl⟩ | ⟨-, hchange⟩⟩ := JobTable.get?_of_apply happly hj'
      · exact .inl ((hσ.linear (List.mem_of_getElem? hi)).1 hwatched)
      · exact hσ.quiet hj hwatched
      · have hbefore := (JobTable.Op.leader_of_change hchange).2 hwatched
        exact JobTable.Op.quiet_of_change hchange hwatched (hσ.quiet hj hbefore)
    | other => exact hσ.quiet hj' hwatched

lemma Moves.linear (h : σ.Moves σ') (hσ : σ.Owned) {th : Thread} (hth : th ∈ σ'.threads) :
    th.rest.Linear := by
  obtain ⟨k, hk⟩ := List.mem_iff_getElem?.1 hth
  cases h with
  | begin hs =>
    obtain hold | ⟨-, rfl⟩ := getElem?_begin hk
    · exact hσ.linear (List.mem_of_getElem? hold)
    · exact Service.linear_act hs.2.1
  | become hi hbecomes =>
    obtain ⟨-, hold⟩ | ⟨-, rfl⟩ := getElem?_become hk
    · exact hσ.linear (List.mem_of_getElem? hold)
    · obtain ⟨id, leader, siblings, helpers, rfl, rfl⟩ := Call.eq_of_becomes? hbecomes
      exact Service.linear_act (s := .monitor ..) (hσ.linear (List.mem_of_getElem? hi)).1
  | look _ _ => exact hσ.linear hth
  | exchange hi _ hanswer =>
    obtain ⟨-, rfl⟩ | ⟨-, hold⟩ | ⟨-, id, leader, siblings, helpers, rfl, rfl⟩ :=
      getElem?_advance hi hk
    · exact (hσ.linear_next hi hanswer).2
    · exact hσ.linear (List.mem_of_getElem? hold)
    · exact Service.linear_act (s := .monitor ..) (hσ.linear (List.mem_of_getElem? hi)).1

lemma Moves.given_subset (h : σ.Moves σ') : σ.given ⊆ σ'.given := by
  cases h with
  | begin _ => exact List.subset_append_right _ _
  | become _ _ => exact fun _ => id
  | look _ _ => exact fun _ => id
  | exchange _ _ _ => exact fun _ => id

/-- **Every right keeps one owner.** -/
lemma Moves.owned (h : σ.Moves σ') (hσ : σ.Owned) : σ'.Owned := by
  obtain ⟨new, hnew⟩ := h.has hσ
  have hfrom {p : Pid} {a : Party} (ha : σ'.Has Call.uses p a) := hnew Call.uses .uses p a ha
  refine ⟨fun {p a b} ha hb => ?_, fun {p a} ha => ?_, h.linear hσ, h.quiet hσ⟩
  · obtain hold | ⟨rfl, hcame⟩ := hfrom ha <;> obtain hold' | ⟨rfl, hcame'⟩ := hfrom hb
    · exact hσ.unique hold hold'
    · -- What `b` gets, `a` would have lost.
      obtain ⟨hfresh, -⟩ | ⟨b', hb', hlost⟩ := hcame'
      · exact absurd (hσ.given hold) hfresh
      · exact absurd (hσ.unique hold hb' ▸ ha) hlost
    · obtain ⟨hfresh, -⟩ | ⟨a', ha', hlost⟩ := hcame
      · exact absurd (hσ.given hold') hfresh
      · exact absurd (hσ.unique hold' ha' ▸ hb) hlost
    · rfl
  · obtain hold | ⟨-, ⟨-, hgiven⟩ | ⟨b, hb, -⟩⟩ := hfrom ha
    · exact h.given_subset (hσ.given hold)
    · exact hgiven
    · exact h.given_subset (hσ.given hb)

theorem Arises.owned (h : σ.Arises) : σ.Owned := by
  induction h with
  | refl =>
    have hnobody (p : Pid) (a : Party) : ¬ System.initial.Has Call.uses p a := by
      cases a <;> simp [Has, System.initial, JobTable.Unwatched, JobTable.get?, JobTable.empty]
    refine ⟨fun ha => absurd ha (hnobody _ _), fun ha => absurd ha (hnobody _ _), ?_, ?_⟩
    · simp [System.initial]
    · simp [System.initial, JobTable.get?, JobTable.empty]
  | move _ hmove ih => exact hmove.owned ih

/-! ## What happens once only -/

/-- How many monitors have been started for a process. -/
def started (σ : System) (p : Pid) : Nat :=
  σ.log.countP fun m => m.exchange.1.startsMonitor p

/-- How often the end of a process has been reported. -/
def ends (σ : System) (p : Pid) : Nat :=
  σ.log.countP (fun m => Exchange.ends p m.exchange) + σ.looks.countP (Look.ends p)

lemma started_advance (σ : System) (i : Nat) (th : Thread) (e : Exchange)
    (rest : Act th.service.Result) (t : JobTable) (p : Pid) :
    (σ.advance i th e rest t).started p =
      σ.started p + if e.1.startsMonitor p = true then 1 else 0 := by
  simp only [System.started, System.advance, List.countP_append, List.countP_singleton]

lemma ends_advance (σ : System) (i : Nat) (th : Thread) (e : Exchange)
    (rest : Act th.service.Result) (t : JobTable) (p : Pid) :
    (σ.advance i th e rest t).ends p = σ.ends p + if Exchange.ends p e = true then 1 else 0 := by
  simp only [System.ends, System.advance, List.countP_append, List.countP_singleton]
  omega

lemma ends_look (σ : System) (job : JobId × Pid) (seen : Except Errno (Option Transition))
    (p : Pid) : (σ.look job seen).ends p =
      σ.ends p + if Look.ends p ⟨σ.table, job.1, job.2, seen⟩ = true then 1 else 0 := by
  simp only [System.ends, System.look, List.countP_append, List.countP_singleton]
  omega

/-- What has happened `n` times to a process has happened at most once, and nobody has the right to
it any more. -/
def Spent (σ : System) (use : Pid → Call → Prop) (p : Pid) (n : Nat) : Prop :=
  n = 0 ∨ n = 1 ∧ p ∈ σ.given ∧ ∀ a, ¬ σ.Has use p a

/-- **A right that nobody has never comes back.**  So what takes the right away from the last one
who has it happens once only. -/
lemma Moves.spent (h : σ.Moves σ') (hσ : σ.Owned) {use : Pid → Call → Prop} (hright : Right use)
    {p : Pid} {n n' : Nat} (hn : σ.Spent use p n)
    (hstep : n' = n ∨ n' = n + 1 ∧ (∃ a, σ.Has use p a) ∧ ∀ a, ¬ σ'.Has use p a) :
    σ'.Spent use p n' := by
  obtain ⟨new, hnew⟩ := h.has hσ
  obtain rfl | ⟨rfl, ⟨a, ha⟩, hnobody⟩ := hstep
  · obtain rfl | ⟨rfl, hgiven, hnobody⟩ := hn
    · exact .inl rfl
    · refine .inr ⟨rfl, h.given_subset hgiven, fun a ha => ?_⟩
      obtain hold | ⟨-, ⟨hfresh, -⟩ | ⟨b, hb, -⟩⟩ := hnew use hright p a ha
      · exact hnobody a hold
      · exact hfresh hgiven
      · exact hnobody b hb
  · obtain rfl | ⟨-, -, hbefore⟩ := hn
    · have hgiven : p ∈ σ.given := hσ.given (ha.mono fun c => hright.le)
      exact .inr ⟨rfl, h.given_subset hgiven, hnobody⟩
    · exact absurd ha (hbefore a)

section Advance

variable {i : Nat} {s : Service} {past : List Moment} {c : Call} {next : Reply c → Act s.Result}
  {r : Reply c} {t : JobTable}

/-- A thread that gives a process away, or learns of its end, was the only one who had it: nobody
has it now but the one who gets it. -/
lemma Owned.eq_newcomer (hσ : σ.Owned) (hi : σ.threads[i]? = some ⟨s, past, .call c next⟩)
    (hanswer : σ.table.Answers c r t) {use : Pid → Call → Prop} (hright : Right use) {p : Pid}
    (huses : c.uses p) (hp : c.gives p ∨ Exchange.ends p ⟨c, r⟩) {a : Party}
    (ha : (σ.advance i ⟨s, past, .call c next⟩ ⟨c, r⟩ (next r) t).Has use p a) :
    a = σ.newcomer i c ∧ a ≠ .thread i := by
  have hnot := hσ.not_has_of_gives hi hanswer hp
  have hne : a ≠ .thread i := by
    rintro rfl
    exact hnot (ha.mono fun c => hright.le)
  obtain hold | ⟨hnew, -⟩ := hσ.has_advance hi hanswer hright ha
  · have hthis : σ.Has Call.uses p (.thread i) := ⟨_, hi, .inl huses⟩
    exact absurd (hσ.unique (hold.mono fun c => hright.le) hthis) hne
  · exact ⟨hnew, hne⟩

end Advance

lemma Moves.started (h : σ.Moves σ') (hσ : σ.Owned) (p : Pid) :
    σ'.started p = σ.started p ∨ σ'.started p = σ.started p + 1 ∧
      (∃ a, σ.Has Call.starts p a) ∧ ∀ a, ¬ σ'.Has Call.starts p a := by
  cases h with
  | begin _ => exact .inl rfl
  | become _ _ => exact .inl rfl
  | look _ _ => exact .inl rfl
  | @exchange i s past c next r t hi _ hanswer =>
    by_cases hstarts : c.startsMonitor p = true
    · right
      obtain ⟨id, siblings, helpers, rfl⟩ :
          ∃ id siblings helpers, c = .fork (.monitor id p siblings helpers) := by
        cases c with
        | fork b =>
          cases b <;> simp at hstarts
          exact ⟨_, _, _, by rw [hstarts]⟩
        | _ => simp at hstarts
      refine ⟨by rw [started_advance, if_pos hstarts], ⟨.thread i, _, hi, ?_⟩, ?_⟩
      · exact .inl (.inl hstarts)
      · intro a ha
        -- The new monitor has the process, but starts no monitor.
        obtain ⟨rfl, hne⟩ := hσ.eq_newcomer hi hanswer .starts (by simp) (.inl (by simp)) ha
        obtain ⟨th, hth, hmay⟩ := ha
        obtain ⟨heq, -⟩ | ⟨-, hold⟩ | ⟨-, _, _, _, _, -, rfl⟩ := getElem?_advance hi hth
        · exact hne (congrArg Party.thread heq)
        · simp at hold
        · exact not_may_start_monitor hmay
    · exact .inl (by rw [started_advance, if_neg hstarts, Nat.add_zero])

lemma waits_of_ends {p : Pid} {c : Call} {r : Reply c} (h : Exchange.ends p ⟨c, r⟩) :
    c.waits p := by
  cases c with
  | waitExit q => rcases r with _ | _ <;> simp at h; exact h
  | waitPause q => rcases r with _ | _ | _ <;> simp at h; exact h
  | waitChange q => rcases r with _ | (_ | _ | _) <;> simp at h; exact h
  | _ => simp at h

/-- Nobody gets a process that has ended. -/
lemma newcomer_of_ends {i : Nat} {p : Pid} {c : Call} {r : Reply c}
    (h : Exchange.ends p ⟨c, r⟩) : σ.newcomer i c = .thread i := by
  cases c with
  | fork b => simp at h
  | job op => simp at h
  | _ => rfl

lemma Moves.ends (h : σ.Moves σ') (hσ : σ.Owned) (p : Pid) :
    σ'.ends p = σ.ends p ∨ σ'.ends p = σ.ends p + 1 ∧
      (∃ a, σ.Has Call.uses p a) ∧ ∀ a, ¬ σ'.Has Call.uses p a := by
  cases h with
  | begin _ => exact .inl rfl
  | become _ _ => exact .inl rfl
  | @look id q seen hunattended =>
    by_cases hends : Look.ends p ⟨σ.table, id, q, seen⟩ = true
    · right
      obtain ⟨code, rfl, rfl⟩ : ∃ code, seen = .ok (some (.exited code)) ∧ q = p := by
        rcases seen with _ | _ | (code | _ | _) <;> simp [Look.ends] at hends
        exact ⟨code, rfl, hends⟩
      obtain ⟨j, hj, hwatched, -, hleader⟩ := hunattended
      have hthis : σ.Has Call.uses q (.reaper id) := ⟨j, hj, hwatched, hleader⟩
      refine ⟨by rw [ends_look, if_pos hends], ⟨_, hthis⟩, ?_⟩
      intro a ha
      cases a with
      | thread k => cases hσ.unique (a := .thread k) ha hthis
      | reaper k =>
        cases hσ.unique (a := .reaper k) (JobTable.unwatched_of_settle ha) hthis
        -- Nobody waits for the job in the foreground, so it leaves the table.
        obtain ⟨j', hj', -⟩ := ha
        have hnot : j.status ≠ .foreground := by
          rcases hσ.quiet hj hwatched with hstatus | hstatus <;> simp [hstatus]
        simp [System.look, JobTable.get?_settle, hj, Job.seen, Job.ended, hnot] at hj'
    · exact .inl (by rw [ends_look, if_neg hends, Nat.add_zero])
  | @exchange i s past c next r t hi _ hanswer =>
    by_cases hends : Exchange.ends p ⟨c, r⟩ = true
    · right
      have hwaits : c.waits p := waits_of_ends hends
      refine ⟨by rw [ends_advance, if_pos hends],
        ⟨.thread i, _, hi, .inl (.inl hwaits)⟩, fun a ha => ?_⟩
      obtain ⟨hnew, hne⟩ := hσ.eq_newcomer hi hanswer .uses (.inl hwaits) (.inr hends) ha
      exact hne (hnew.trans (newcomer_of_ends hends))
    · exact .inl (by rw [ends_advance, if_neg hends, Nat.add_zero])

lemma Arises.spent_started (h : σ.Arises) (p : Pid) : σ.Spent Call.starts p (σ.started p) := by
  induction h with
  | refl => exact .inl rfl
  | move hσ hmove ih =>
    have howned := Arises.owned hσ
    exact hmove.spent howned .starts ih (hmove.started howned p)

lemma Arises.spent_ends (h : σ.Arises) (p : Pid) : σ.Spent Call.uses p (σ.ends p) := by
  induction h with
  | refl => exact .inl rfl
  | move hσ hmove ih =>
    have howned := Arises.owned hσ
    exact hmove.spent howned .uses ih (hmove.ends howned p)

/-- Only jobs without a monitor are looked at. -/
lemma Arises.unwatched_of_look (h : σ.Arises) : ∀ l ∈ σ.looks, l.table.Unwatched l.id l.leader := by
  induction h with
  | refl => simp [System.initial]
  | move _ hmove ih =>
    cases hmove with
    | begin _ => exact ih
    | become _ _ => exact ih
    | look seen hunattended =>
      intro l hl
      obtain hl | hl := List.mem_append.1 hl
      · exact ih l hl
      · obtain rfl := List.mem_singleton.1 hl
        obtain ⟨j, hj, hwatched, -, hleader⟩ := hunattended
        exact ⟨j, hj, hwatched, hleader⟩
    | exchange _ _ _ => exact ih

/-- **One party waits for a process.**  Whatever the order of events, and for every process:

* at most one party may wait for it — the thread that has started it until it hands it on, a
  monitor, or whoever looks at the jobs that nobody waits for;
* at most one monitor has been started for it;
* all looks have been at jobs without a monitor;
* its end has been reported at most once, and nobody may wait for it then.

**Proof sketch.** In every step one party at most gets a right, and it gets it from one who has it
no more (`Moves.has`); so rights have one owner (`Moves.owned`).  A monitor that is started, and an
end that is reported, take a right from the only one who has it, and a right that nobody has never
comes back (`Moves.spent`). -/
theorem one_wait_owner (h : σ.Reachable) :
    (∀ p a b, σ.Has Call.waits p a → σ.Has Call.waits p b → a = b) ∧
    (∀ p, σ.started p ≤ 1) ∧
    (∀ l ∈ σ.looks, ∃ j, l.table.get? l.id = some j ∧ j.watched = false ∧
      j.leader = some l.leader) ∧
    ∀ p, σ.ends p ≤ 1 ∧ (σ.ends p = 1 → ∀ a, ¬ σ.Has Call.waits p a) := by
  have hσ := h.arises
  refine ⟨fun p a b ha hb => ?_, fun p => ?_, hσ.unwatched_of_look, fun p => ?_⟩
  · exact hσ.owned.unique (ha.mono fun _ => .inl) (hb.mono fun _ => .inl)
  · obtain hzero | ⟨hone, -⟩ := hσ.spent_started p <;> omega
  · obtain hzero | ⟨hone, -, hnobody⟩ := hσ.spent_ends p
    · exact ⟨by omega, by omega⟩
    · exact ⟨by omega, fun _ a ha => hnobody a (ha.mono fun _ => .inl)⟩

/-- The process of `handOver` is looked at once, then gets a monitor, who learns of its end. -/
theorem one_wait_owner_handOver : ∃ σ, System.initial.run handOver = some σ ∧
    σ.looks.length = 1 ∧ σ.started 7 = 1 ∧ σ.ends 7 = 1 ∧
    (∀ p a b, σ.Has Call.waits p a → σ.Has Call.waits p b → a = b) ∧
    (∀ p, σ.started p ≤ 1) ∧
    (∀ l ∈ σ.looks, ∃ j, l.table.get? l.id = some j ∧ j.watched = false ∧
      j.leader = some l.leader) ∧
    ∀ p, σ.ends p ≤ 1 ∧ (σ.ends p = 1 → ∀ a, ¬ σ.Has Call.waits p a) := by
  obtain ⟨σ, hrun, hlooks, hstarted, hends⟩ : ∃ σ, System.initial.run handOver = some σ ∧
      σ.looks.length = 1 ∧ σ.started 7 = 1 ∧ σ.ends 7 = 1 := ⟨_, rfl, rfl, rfl, rfl⟩
  exact ⟨σ, hrun, hlooks, hstarted, hends, one_wait_owner (Reachable.initial.run hrun)⟩

end System

end Conch
