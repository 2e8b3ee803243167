import Conch.Proofs.Delivery

/-!
# What is announced of a job behind its end

Events are queued by several parties.  Whoever announces a job that is listed does so in the step
that looks at the job, so he says nothing of a job that has left the table.  One party is different:
a pipeline that stops in the foreground is listed and gets its monitor first, and its stop is
announced afterwards.  In between the monitor may find that the pipeline has ended and announce
that.  So the end of a job is the last that is announced of it, but for this one belated event.

## Main definitions

* `Thread.Owes` — a thread has listed a pipeline that has stopped and not announced it.
* `Service.Announces` — who asks to announce a job himself.
* `System.Follows` — what has been announced since an earlier moment.

## Main results

* `Service.announces` — only he who has listed a pipeline announces it himself, and only once.
* `System.Moves.published` — a step announces jobs that are listed, or what a thread owes.
* `System.done_last` — **the end of a job is the last that is announced of it**, unless a thread
  owes the announcement of its stop.
* `System.stop_announced_late` — such an announcement can come behind the end.
-/

set_option autoImplicit false

namespace Conch

/-! ## What an operation announces -/

namespace JobTable

/-- The events of the second table are those of the first and more, all of them about jobs that the
first table lists. -/
def Adds (t t' : JobTable) : Prop :=
  ∃ new, t'.events = t.events ++ new ∧ ∀ e ∈ new, (t.get? e.id).isSome

lemma adds_of_events {t t' : JobTable} (h : t'.events = t.events) : t.Adds t' :=
  ⟨[], by simp [h], nofun⟩

lemma adds_publish {t t' : JobTable} {id : JobId} {status : JobStatus} {command : String}
    (h : t'.events = t.events ++ [⟨id, status, command⟩]) (hlisted : (t.get? id).isSome) :
    t.Adds t' :=
  ⟨_, h, fun e he => by simpa [List.mem_singleton.1 he] using hlisted⟩

lemma adds_stopped (t : JobTable) (id : JobId) : t.Adds (t.stopped id) := by
  unfold stopped
  cases hj : t.get? id with
  | none => exact adds_of_events rfl
  | some j =>
    by_cases hstatus : j.status = .stopped
    · simp only [hstatus, if_true]
      exact adds_of_events rfl
    · simp only [hstatus, if_false]
      exact adds_publish rfl (by simp [hj])

lemma adds_finish (t : JobTable) (id : JobId) (code : Int) : t.Adds (t.finish id code) := by
  unfold finish
  cases hj : t.get? id with
  | none => exact adds_of_events rfl
  | some j =>
    by_cases hstatus : j.status = .foreground
    · simp only [hstatus, if_true]
      exact adds_of_events rfl
    · simp only [hstatus, if_false]
      exact adds_publish rfl (by simp [hj])

lemma adds_settle (t : JobTable) (id : JobId) (seen : Except Errno (Option Transition)) :
    t.Adds (t.settle id seen) := by
  rcases seen with e | _ | (code | _ | _)
  · refine adds_of_events ?_
    unfold settle
    split <;> first | rfl | contradiction
  · exact adds_of_events rfl
  · exact adds_finish t id code
  · unfold settle
    cases hj : t.get? id with
    | none => exact adds_of_events rfl
    | some j => exact adds_publish rfl (by simp [hj])
  · exact adds_of_events rfl

/-- Every other operation announces only jobs that are listed. -/
lemma adds_apply {t t' : JobTable} {op : Op} {r : op.Result} (h : t.apply op = some (r, t'))
    (htake : op ≠ .takeEvents) (hpublish : ∀ i status command, op ≠ .publish i status command) :
    t.Adds t' := by
  cases op with
  | takeEvents => exact absurd rfl htake
  | publish i status command => exact absurd rfl (hpublish i status command)
  | finish i code => exact table_of_apply h rfl ▸ adds_finish t i code
  | stopped i => exact table_of_apply h rfl ▸ adds_stopped t i
  | collect i => exact adds_of_events (frame_collect h).2
  | watch i => exact table_of_apply h rfl ▸ adds_of_events (frame_watch t i).2
  | toForeground i => exact table_of_apply h rfl ▸ adds_of_events (frame_toForeground t i).2
  | toBackground i => exact table_of_apply h rfl ▸ adds_of_events (frame_toBackground t i).2
  | seize job pids => exact table_of_apply h rfl ▸ adds_of_events (frame_seize t job pids).2
  | yieldBack hold => exact table_of_apply h rfl ▸ adds_of_events (frame_yieldBack t hold).2
  | _ => exact table_of_apply h rfl ▸ adds_of_events rfl

end JobTable

/-! ## Who announces a job himself -/

/-- The request announces a job. -/
def Call.isPublish : Call → Bool
  | .job (.publish ..) => true
  | _ => false

/-- The service waits for a pipeline in the foreground. -/
def Service.runsForeground : Service → Bool
  | .runForeground .. => true
  | _ => false

/-- A job has been listed under the number, and none has been announced. -/
structure Indebted (id : JobId) (past : List Exchange) : Prop where
  listed : ∃ j, (⟨.job (.register j), id⟩ : Exchange) ∈ past
  silent : ∀ e ∈ past, e.1.isPublish = false

/-- Who announces a job himself has run it in the foreground, has listed it, and has announced
nothing before. -/
def Service.Announces (s : Service) (past : List Exchange) : Call → Prop
  | .job (.publish id _ _) => s.runsForeground = true ∧ Indebted id past
  | _ => True

/-- The thread has listed a pipeline that has stopped in the foreground and not announced it. -/
def Thread.Owes (id : JobId) (th : Thread) : Prop :=
  th.service.runsForeground = true ∧ Indebted id th.exchanges

lemma Service.announces_of_silent {s : Service} {past : List Exchange} {c : Call}
    (hc : c.isPublish = false) : s.Announces past c := by
  unfold Service.Announces
  split
  · cases hc
  · trivial

/-- A tree that announces nothing. -/
abbrev Act.IsSilent {α : Type} (x : Act α) : Prop := x.Asks fun c => !c.isPublish

lemma Act.IsSilent.announces {α : Type} {x : Act α} (h : x.IsSilent) {s : Service}
    (past : List Exchange) : x.Throughout s.Announces (fun _ _ => True) past := by
  induction x generalizing past with
  | done a => trivial
  | call c next ih =>
    exact ⟨Service.announces_of_silent (by simpa using h.1), fun r => ih r (h.2 r) _⟩

namespace Jobs

lemma silent_of_gathers {α : Type} {x : Act α} (h : x.Asks Call.isGathering) : x.IsSilent := by
  induction x with
  | done a => trivial
  | call c next ih =>
    refine ⟨?_, fun r => ih r (h.2 r)⟩
    have hc := h.1
    cases c <;> first | rfl | cases hc

/-- Behind the wait for processes and helpers. -/
lemma silent_gather {α : Type} {pids : List Pid} {helpers : List Helper} {f : List Int → Act α}
    (hf : ∀ codes, (f codes).IsSilent) :
    (collectAll pids >>= fun codes => joinAll helpers >>= fun _ => f codes).IsSilent :=
  (silent_of_gathers (collectAll_gathers pids)).bind fun codes =>
    (silent_of_gathers (joinAll_gathers helpers)).bind fun _ => hf codes

lemma silent_monitor (id : JobId) (leader : Pid) (siblings : List Pid) (helpers : List Helper) :
    (monitor id leader siblings helpers).IsSilent := by
  rw [monitor_eq]
  refine ⟨rfl, fun r => ?_⟩
  rcases r with e | (code | _ | _)
  · exact ⟨rfl, fun _ => trivial⟩
  · exact silent_gather fun codes => ⟨rfl, fun _ => trivial⟩
  · exact ⟨rfl, fun _ => ⟨rfl, nofun⟩⟩
  · exact ⟨rfl, fun _ => ⟨rfl, nofun⟩⟩

lemma silent_runInJob (id : JobId) (s : Started) : (runInJob id s).IsSilent := by
  rw [runInJob_eq]
  refine ⟨rfl, fun _ => ⟨rfl, fun r => ?_⟩⟩
  exact silent_gather fun codes => ⟨rfl, fun _ => trivial⟩

lemma silent_watch (id : JobId) (siblings : List Pid) (helpers : List Helper) :
    (watch id siblings helpers).IsSilent := by
  rw [watch_eq]
  refine ⟨rfl, fun r => ?_⟩
  rcases r with _ | p
  · trivial
  · exact ⟨rfl, fun _ => trivial⟩

lemma silent_resume (id : JobId) (target : JobTarget) : (resume id target).IsSilent := by
  refine ⟨rfl, fun hold => ⟨rfl, fun r => ?_⟩⟩
  rcases r with e | ⟨⟩
  · exact ⟨rfl, fun _ => ⟨rfl, fun _ => trivial⟩⟩
  · exact ⟨rfl, fun _ => ⟨rfl, fun _ => trivial⟩⟩

lemma silent_foreground (id : JobId) : (foreground id).IsSilent := by
  rw [foreground_eq]
  refine ⟨rfl, fun r => ?_⟩
  rcases r with _ | ⟨target, _ | p⟩
  · trivial
  · exact silent_resume id target
  · exact ⟨rfl, fun _ => silent_resume id target⟩

lemma silent_background (id : JobId) : (background id).IsSilent := by
  rw [background_eq]
  refine ⟨rfl, fun r => ?_⟩
  rcases r with _ | target
  · trivial
  · refine ⟨rfl, fun r => ?_⟩
    rcases r with e | ⟨⟩
    · exact ⟨rfl, fun _ => trivial⟩
    · trivial

/-- He who waits for a pipeline in the foreground announces it if it stops, behind listing it. -/
lemma runForeground_announces (line : String) (s : Started) :
    (runForeground line s).Throughout (Service.Announces (.runForeground line s))
      (fun _ _ => True) [] := by
  rw [runForeground_eq]
  refine ⟨trivial, fun hold => ⟨trivial, fun r => ?_⟩⟩
  rcases r with e | _ | code
  · exact ⟨trivial, fun _ => trivial⟩
  · rw [register_eq]
    refine ⟨trivial, fun id => ⟨trivial, fun task => ⟨⟨rfl, ?_, ?_⟩, fun _ => ?_⟩⟩⟩
    · exact ⟨.ofProcesses line s.primary s.siblings none .stopped, by simp⟩
    · simp [Call.isPublish]
    · exact ⟨trivial, fun _ => trivial⟩
  · refine Act.IsSilent.announces ?_ _
    exact silent_gather fun codes => ⟨rfl, fun _ => trivial⟩

end Jobs

/-- **Only he who has listed a pipeline announces it himself, and only once.** -/
theorem Service.announces (s : Service) :
    s.act.Throughout s.Announces (fun _ _ => True) [] := by
  cases s with
  | addJob command leader => exact ⟨trivial, fun _ => trivial⟩
  | addPipeline line started stopped group => exact ⟨trivial, fun _ => ⟨trivial, fun _ => trivial⟩⟩
  | runForeground line started => exact Jobs.runForeground_announces line started
  | runInJob id started => exact (Jobs.silent_runInJob id started).announces _
  | worker line code => exact ⟨trivial, fun _ => ⟨trivial, fun _ => trivial⟩⟩
  | watch id siblings helpers => exact (Jobs.silent_watch id siblings helpers).announces _
  | foreground id => exact (Jobs.silent_foreground id).announces _
  | background id => exact (Jobs.silent_background id).announces _
  | remove id => exact ⟨trivial, fun _ => trivial⟩
  | reap => exact ⟨trivial, fun _ => trivial⟩
  | takeEvents => exact ⟨trivial, fun _ => trivial⟩
  | monitor id leader siblings helpers =>
    exact (Jobs.silent_monitor id leader siblings helpers).announces _

namespace System

variable {σ σ' : System} {id : JobId}

/-! ## Who owes an announcement -/

lemma not_owes_begin (s : Service) : ¬ (Thread.begin s).Owes id := by
  rintro ⟨-, ⟨j, hj⟩, -⟩
  cases hj

/-- A thread comes to owe an announcement only by listing a job under the next number, and a step
does that for one thread at most. -/
lemma Moves.owes (h : σ.Moves σ') (id : JobId) : ∃ i : Nat, ∀ {k : Nat} {th' : Thread},
    σ'.threads[k]? = some th' → th'.Owes id →
      (∃ th, σ.threads[k]? = some th ∧ th.Owes id) ∨ id = σ.table.nextId ∧ k = i := by
  cases h with
  | begin _ =>
    refine ⟨0, fun {k th'} hk howes => ?_⟩
    obtain hold | ⟨-, rfl⟩ := getElem?_begin hk
    · exact .inl ⟨th', hold, howes⟩
    · exact absurd howes (not_owes_begin _)
  | become _ _ =>
    refine ⟨0, fun {k th'} hk howes => ?_⟩
    obtain ⟨-, hold⟩ | ⟨-, rfl⟩ := getElem?_become hk
    · exact .inl ⟨th', hold, howes⟩
    · exact absurd howes (not_owes_begin _)
  | look _ _ => exact ⟨0, fun {k th'} hk howes => .inl ⟨th', hk, howes⟩⟩
  | @exchange i _ _ _ _ _ _ hi _ hanswer =>
    refine ⟨i, fun {k th'} hk howes => ?_⟩
    obtain ⟨rfl, rfl⟩ | ⟨-, hold⟩ | ⟨-, _, _, _, _, -, rfl⟩ := getElem?_advance hi hk
    · obtain ⟨hservice, ⟨j, hj⟩, hsilent⟩ := howes
      simp only [Thread.exchanges, List.map_append, List.map_cons, List.map_nil, List.mem_append,
        List.mem_singleton] at hj hsilent
      obtain hj | hj := hj
      · exact .inl ⟨_, hi, hservice, ⟨j, hj⟩, fun e he => hsilent e (.inl he)⟩
      · cases hj
        cases hanswer with
        | job happly => exact .inr ⟨(congrArg Prod.fst (Option.some.inj happly)).symm, rfl⟩
        | other _ hother => exact absurd rfl (hother _)
    · exact .inl ⟨th', hold, howes⟩
    · exact absurd howes (not_owes_begin _)

/-- A thread that owes an announcement has listed the job. -/
lemma Arises.registered_of_owes (h : σ.Arises) {th : Thread} (hth : th ∈ σ.threads)
    (howes : th.Owes id) : ∃ leader, σ.Registered id leader := by
  obtain ⟨j, hj⟩ := howes.2.listed
  obtain ⟨m, hm, hexchange⟩ := List.mem_map.1 hj
  exact ⟨j.leader, m, h.past_subset th hth hm, j, hexchange, rfl⟩

/-- A number under which a job has been listed is not the next one. -/
lemma Numbered.ne_nextId (h : σ.Numbered) {leader : Option Pid} (hid : σ.Registered id leader) :
    id ≠ σ.table.nextId := by
  rintro rfl
  have hle := h.le hid
  have hnext := h.next
  simp only [JobId] at *
  omega

/-- One thread at most owes the announcement of a job. -/
lemma Arises.owes_unique (h : σ.Arises) (hfew : σ.registrations < Job.maxId) {k k' : Nat}
    {th th' : Thread} (hk : σ.threads[k]? = some th) (hk' : σ.threads[k']? = some th')
    (howes : th.Owes id) (howes' : th'.Owes id) : k = k' := by
  induction h generalizing k k' th th' with
  | refl => simp [System.initial] at hk
  | @move σ σ' hσ hmove ih =>
    have hless := Nat.lt_of_le_of_lt hmove.registrations_le hfew
    have hnumbered : σ.Numbered := Arises.numbered hσ hless
    -- Who owes the announcement of a job has listed it, so its number is not the next one.
    have hnot {k : Nat} {th : Thread} (hk : σ.threads[k]? = some th) (howes : th.Owes id) :
        id ≠ σ.table.nextId := by
      obtain ⟨leader, hid⟩ := Arises.registered_of_owes hσ (List.mem_of_getElem? hk) howes
      exact hnumbered.ne_nextId hid
    obtain ⟨i, hi⟩ := hmove.owes id
    obtain ⟨th₀, hth₀, howes₀⟩ | ⟨hid, hki⟩ := hi hk howes <;>
      obtain ⟨th₁, hth₁, howes₁⟩ | ⟨hid', hki'⟩ := hi hk' howes'
    · exact ih hless hth₀ hth₁ howes₀ howes₁
    · exact absurd hid' (hnot hth₀ howes₀)
    · exact absurd hid (hnot hth₁ howes₁)
    · exact hki.trans hki'.symm

/-! ## What a step announces -/

/-- The step announces jobs that are listed, or pays what a thread owes. -/
def Announced (σ σ' : System) (new : List JobEvent) : Prop :=
  (∀ e ∈ new, (σ.table.get? e.id).isSome) ∨
    ∃ (k : Nat) (th th' : Thread) (e : JobEvent), new = [e] ∧ e.status = .stopped ∧
      σ.threads[k]? = some th ∧ th.Owes e.id ∧ σ'.threads[k]? = some th' ∧ ¬ th'.Owes e.id

lemma published_advance (σ : System) (i : Nat) (th : Thread) (e : Exchange)
    (rest : Act th.service.Result) (t : JobTable) :
    (σ.advance i th e rest t).published =
      σ.log.flatMap (fun m => Exchange.drained m.exchange) ++ (Exchange.drained e ++ t.events) := by
  simp [published, System.advance]

/-- **A step announces jobs that are listed, or what a thread owes.** -/
lemma Moves.published (h : σ.Moves σ') (hσ : σ.Arises) :
    ∃ new, σ'.published = σ.published ++ new ∧ σ.Announced σ' new := by
  cases h with
  | begin _ => exact ⟨[], by simp [System.published, System.begin], .inl nofun⟩
  | become _ _ => exact ⟨[], by simp [System.published, System.become], .inl nofun⟩
  | @look k p seen _ =>
    obtain ⟨new, hevents, hlisted⟩ := JobTable.adds_settle σ.table k seen
    refine ⟨new, ?_, .inl hlisted⟩
    simp [System.published, System.look, hevents]
  | @exchange i s past c next r t hi _ hanswer =>
    cases hanswer with
    | @job op r _ happly =>
      by_cases htake : op = .takeEvents
      · subst htake
        obtain ⟨rfl, rfl⟩ : σ.table.events = r ∧ { σ.table with events := [] } = t := by
          simpa [JobTable.apply, JobTable.takeEvents] using happly
        refine ⟨[], ?_, .inl nofun⟩
        rw [published_advance]
        simp [System.published, Exchange.drained]
      · have hdrained : Exchange.drained ⟨.job op, r⟩ = [] := by
          cases op <;> first | rfl | exact absurd rfl htake
        by_cases hpublish : ∃ k status command, op = .publish k status command
        · obtain ⟨k, status, command, rfl⟩ := hpublish
          have hmem := List.mem_of_getElem? hi
          obtain ⟨hruns, howes⟩ := (hσ.throughout Service.announces _ hmem).1
          obtain ⟨-, hstopped⟩ := hσ.keeps hmem
          rw [← JobTable.table_of_apply happly rfl]
          refine ⟨[⟨k, status, command⟩], ?_, .inr ⟨i, _, _, _, rfl, hstopped, hi, ⟨hruns, howes⟩,
            getElem?_advance_self hi, ?_⟩⟩
          · rw [published_advance, hdrained]
            simp [System.published, JobTable.publish]
          · rintro ⟨-, -, hsilent⟩
            have hthis := hsilent ⟨.job (.publish k status command), r⟩ (by simp [Thread.exchanges])
            cases hthis
        · obtain ⟨new, hevents, hlisted⟩ := JobTable.adds_apply happly htake
            fun k status command heq => hpublish ⟨k, status, command, heq⟩
          refine ⟨new, ?_, .inl hlisted⟩
          rw [published_advance, hdrained, hevents]
          simp [System.published]
    | other _ hother =>
      have hdrained : Exchange.drained ⟨c, r⟩ = [] := by
        cases c <;> first | rfl | exact absurd rfl (hother _)
      refine ⟨[], ?_, .inl nofun⟩
      rw [published_advance, hdrained]
      simp [System.published]

/-! ## Behind the end of a job -/

/-- The events about a job. -/
def about (id : JobId) (events : List JobEvent) : List JobEvent := events.filter (·.id = id)

/-- What has been announced of a job since an earlier moment: nothing, and whoever owes something
owed it then; or what somebody owed then, and nobody owes anything now. -/
def Follows (σ₀ σ : System) (id : JobId) : Prop :=
  ∃ new, σ.published = σ₀.published ++ new ∧
    (about id new = [] ∧
        (∀ th ∈ σ.threads, th.Owes id → ∃ th₀ ∈ σ₀.threads, th₀.Owes id) ∨
      (∃ e, about id new = [e] ∧ e.status = .stopped) ∧
        (∃ th₀ ∈ σ₀.threads, th₀.Owes id) ∧ ∀ th ∈ σ.threads, ¬ th.Owes id)

/-- Nobody comes to owe the announcement of a job that has been listed. -/
lemma Moves.mem_owes (h : σ.Moves σ') (hnumbered : σ.Numbered) {leader : Option Pid}
    (hid : σ.Registered id leader) {k : Nat} {th' : Thread} (hk : σ'.threads[k]? = some th')
    (howes : th'.Owes id) : ∃ th, σ.threads[k]? = some th ∧ th.Owes id := by
  obtain ⟨i, hi⟩ := h.owes id
  obtain hold | ⟨hnext, -⟩ := hi hk howes
  · exact hold
  · exact absurd hnext (hnumbered.ne_nextId hid)

/-- The step announces nothing of the job. -/
lemma Follows.quiet {σ₀ : System} {more : List JobEvent} (h : σ₀.Follows σ id)
    (hmore : σ'.published = σ.published ++ more) (hnone : about id more = [])
    (hback : ∀ th' ∈ σ'.threads, th'.Owes id → ∃ th ∈ σ.threads, th.Owes id) :
    σ₀.Follows σ' id := by
  obtain ⟨new, hnew, hcases⟩ := h
  have habout : about id (new ++ more) = about id new := by
    rw [about, List.filter_append, ← about, ← about, hnone, List.append_nil]
  refine ⟨new ++ more, by rw [hmore, hnew, List.append_assoc], ?_⟩
  rw [habout]
  obtain ⟨hnil, howed⟩ | ⟨hone, howed, hnobody⟩ := hcases
  · refine .inl ⟨hnil, fun th' hth' howes' => ?_⟩
    obtain ⟨th, hth, howes⟩ := hback th' hth' howes'
    exact howed th hth howes
  · refine .inr ⟨hone, howed, fun th' hth' howes' => ?_⟩
    obtain ⟨th, hth, howes⟩ := hback th' hth' howes'
    exact hnobody th hth howes

/-- The step announces what a thread owes: that has happened to nobody before, and nobody else owes
it. -/
lemma Follows.paid {σ₀ : System} {e : JobEvent} (h : σ₀.Follows σ e.id)
    (hmore : σ'.published = σ.published ++ [e]) (hstatus : e.status = .stopped)
    (howed : ∃ th ∈ σ.threads, th.Owes e.id) (hnobody : ∀ th ∈ σ'.threads, ¬ th.Owes e.id) :
    σ₀.Follows σ' e.id := by
  obtain ⟨new, hnew, hcases⟩ := h
  obtain ⟨th, hth, howes⟩ := howed
  obtain ⟨hnil, hbefore⟩ | ⟨-, -, hnot⟩ := hcases
  · have habout : about e.id (new ++ [e]) = [e] := by
      rw [about, List.filter_append, ← about, hnil]
      simp
    refine ⟨new ++ [e], by rw [hmore, hnew, List.append_assoc], ?_⟩
    exact .inr ⟨⟨e, habout, hstatus⟩, hbefore th hth howes, hnobody⟩
  · exact absurd howes (hnot th hth)

/-- Behind the end of a job, one step. -/
lemma Follows.move {σ₀ : System} (h : σ₀.Follows σ id) (hσ : σ.Arises) (hmove : σ.Moves σ')
    (hfew : σ'.registrations < Job.maxId) (htold : 0 < σ.told id) : σ₀.Follows σ' id := by
  have hless := Nat.lt_of_le_of_lt hmove.registrations_le hfew
  have hnumbered : σ.Numbered := hσ.numbered hless
  obtain ⟨-, hunlisted, leader, hid⟩ := (hσ.told hless id).resolve_left (by omega)
  have hback {k : Nat} {th' : Thread} (hk : σ'.threads[k]? = some th') (howes : th'.Owes id) :
      ∃ th, σ.threads[k]? = some th ∧ th.Owes id := hmove.mem_owes hnumbered hid hk howes
  have hbackMem (th' : Thread) (hth' : th' ∈ σ'.threads) (howes : th'.Owes id) :
      ∃ th ∈ σ.threads, th.Owes id := by
    obtain ⟨k, hk⟩ := List.mem_iff_getElem?.1 hth'
    obtain ⟨th, hth, howes⟩ := hback hk howes
    exact ⟨th, List.mem_of_getElem? hth, howes⟩
  obtain ⟨more, hmore, hlisted | ⟨k, th, th', e, rfl, hstatus, hk, howes, hk', hnot⟩⟩ :=
    hmove.published hσ
  · -- The job is not listed any more, so nothing is said of it.
    refine h.quiet hmore (List.filter_eq_nil_iff.2 fun e he => ?_) hbackMem
    have hsome := hlisted e he
    simp only [decide_eq_true_eq]
    rintro rfl
    rw [hunlisted] at hsome
    cases hsome
  · by_cases heq : e.id = id
    · subst heq
      refine h.paid hmore hstatus ⟨th, List.mem_of_getElem? hk, howes⟩ fun th'' hth'' howes'' => ?_
      obtain ⟨k'', hk''⟩ := List.mem_iff_getElem?.1 hth''
      obtain ⟨th₀, hth₀, howes₀⟩ := hback hk'' howes''
      obtain rfl := hσ.owes_unique hless hk hth₀ howes howes₀
      obtain rfl := Option.some.inj (hk'.symm.trans hk'')
      exact hnot howes''
    · exact h.quiet hmore (by simp [about, heq]) hbackMem

lemma Leads.follows (h : σ.Leads σ') (hσ : σ.Arises) (hfew : σ'.registrations < Job.maxId)
    (htold : 0 < σ.told id) : σ.Follows σ' id := by
  induction h with
  | refl => exact ⟨[], by simp, .inl ⟨rfl, fun th hth howes => ⟨th, hth, howes⟩⟩⟩
  | move hleads hmove ih =>
    have hless := Nat.lt_of_le_of_lt hmove.registrations_le hfew
    have hmore := Nat.lt_of_lt_of_le htold (hleads.told_le hσ id)
    exact (ih hless).move (hσ.trans hleads) hmove hfew hmore

/-- **The end of a job is the last that is announced of it**, but for one belated event.  Whatever
the order of events, while numbers last, and for every number: once an event tells that the job has
ended, no further event about it is queued, unless some thread has listed the job as a pipeline that
has stopped in the foreground and has not announced that; then the stop may be announced later,
once.

**Proof sketch.** A job that has been announced as ended is not listed (`Arises.told`), so those who
look at the job first say nothing of it (`Moves.published`).  One thread at most owes an
announcement (`Arises.owes_unique`), and nobody comes to owe one as the number is not used again. -/
theorem done_last {later : List Event} (h : σ.Reachable) (hrun : σ.run later = some σ')
    (hfew : σ'.registrations < Job.maxId) (hdone : 0 < JobTable.doneEvents id σ.published) :
    ∃ new, σ'.published = σ.published ++ new ∧
      (about id new = [] ∨
        (∃ th ∈ σ.threads, th.Owes id) ∧ ∃ e, about id new = [e] ∧ e.status = .stopped) := by
  have htold : 0 < σ.told id := Nat.lt_of_lt_of_le hdone (Nat.le_add_right ..)
  obtain ⟨new, hnew, ⟨hnil, -⟩ | ⟨hone, howed, -⟩⟩ := (h.leads hrun).follows h.arises hfew htold
  · exact ⟨new, hnew, .inl hnil⟩
  · exact ⟨new, hnew, .inr ⟨howed, hone⟩⟩

/-- A pipeline stops in the foreground; its monitor sees it end before the stop is announced. -/
def overtaken : List Event :=
  let w := World.obliging (.exited 0)
  let stops : World := { w with answer := fun | .waitPause _ => some (.ok none) | c => w.answer c }
  [.begin (.runForeground "cat" ⟨7, [], []⟩), .turn 0 w, .turn 0 stops, .turn 0 w, .turn 0 w,
    .turn 1 w, .turn 1 w]

/-- In `overtaken` the thread still owes the announcement, and pays it in its next turn. -/
theorem done_last_overtaken : ∃ σ σ', System.initial.run overtaken = some σ ∧
    σ.run [.turn 0 (World.obliging .stopped)] = some σ' ∧ σ'.registrations < Job.maxId ∧
    0 < JobTable.doneEvents 1 σ.published ∧ ∃ new, σ'.published = σ.published ++ new ∧
      (about 1 new = [] ∨
        (∃ th ∈ σ.threads, th.Owes 1) ∧ ∃ e, about 1 new = [e] ∧ e.status = .stopped) := by
  obtain ⟨σ, σ', hrun, hlater, hcount, hdone⟩ : ∃ σ σ', System.initial.run overtaken = some σ ∧
      σ.run [.turn 0 (World.obliging .stopped)] = some σ' ∧ σ'.registrations = 1 ∧
      JobTable.doneEvents 1 σ.published = 1 := ⟨_, _, rfl, rfl, rfl, rfl⟩
  have hfew : σ'.registrations < Job.maxId := hcount ▸ by decide
  have hpos : 0 < JobTable.doneEvents 1 σ.published := Nat.lt_of_lt_of_eq Nat.one_pos hdone.symm
  exact ⟨σ, σ', hrun, hlater, hfew, hpos,
    done_last (Reachable.initial.run hrun) hlater hfew hpos⟩

/-- **The stop of a job can be announced behind its end.**  Behind `overtaken` and one more turn,
the events are the end of job 1 and then its stop. -/
theorem stop_announced_late : ∃ σ, σ.Reachable ∧ σ.registrations = 1 ∧
    System.initial.run (overtaken ++ [.turn 0 (World.obliging .stopped)]) = some σ ∧
    σ.published = [⟨1, .done, "cat"⟩, ⟨1, .stopped, "cat"⟩] := by
  obtain ⟨σ, hrun, hcount, hevents⟩ : ∃ σ,
      System.initial.run (overtaken ++ [.turn 0 (World.obliging .stopped)]) = some σ ∧
      σ.registrations = 1 ∧ σ.published = [⟨1, .done, "cat"⟩, ⟨1, .stopped, "cat"⟩] :=
    ⟨_, rfl, rfl, rfl⟩
  exact ⟨σ, Reachable.initial.run hrun, hcount, hrun, hevents⟩

end System

end Conch
