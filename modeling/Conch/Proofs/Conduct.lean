import Conch.Proofs.Threads

/-!
# What services ask for

Each service asks for certain things only, and for some of them only behind certain answers: a
monitor reports a code that it has seen its leader end with, a monitor is started only for a
process that is known to lead the job, and `fg` gives back what it has taken from the table.  Here
this is read off the requests of the services once; what follows for the jobs is shown elsewhere.

## Main definitions

* `Exchange.tells` — an exchange from which one knows the leader of a job.
* `Exchange.brings`, `Call.leaves` — where the stay of a job in the foreground begins and ends.
* `Conch.Saw` — what a monitor has seen of its leader.
* `Service.Permits`, `Service.Returns` — what a service asks for, and what it gives back.

## Main results

* `Service.conduct` — every service asks for what it may ask for, and for nothing behind the
  report of an end.
-/

set_option autoImplicit false

namespace Conch

namespace Exchange

/-- The exchange tells which process leads a job: the job is listed with it, or the wait for it is
handed out. -/
def tells (id : JobId) (p : Pid) : Exchange → Prop
  | ⟨.job (.register j), r⟩ => r = id ∧ j.leader = some p
  | ⟨.job (.watch k), r⟩ => k = id ∧ r = some p
  | ⟨.job (.toForeground k), r⟩ => k = id ∧ ∃ target, r = some (target, some p)
  | _ => False

/-- The exchange brings a job to the foreground. -/
def brings (id : JobId) : Exchange → Prop
  | ⟨.job (.toForeground k), r⟩ => k = id ∧ r ≠ none
  | _ => False

end Exchange

namespace Call

/-- The request ends the stay of a job in the foreground: it takes what the job has come to, or
the job itself. -/
def leaves (id : JobId) (c : Call) : Prop := c = .job (.collect id) ∨ c = .job (.remove id)

/-- The request reports the end of a job. -/
def finishes : Call → Bool
  | .job (.finish ..) => true
  | _ => false

end Call

/-- A monitor has seen its leader end with a code; a wait that fails counts as code 1. -/
def Saw (leader : Pid) (code : Int) (past : List Exchange) : Prop :=
  (⟨.waitChange leader, .ok (.exited code)⟩ : Exchange) ∈ past ∨
    code = 1 ∧ ∃ e, (⟨.waitChange leader, .error e⟩ : Exchange) ∈ past

namespace Service

/-- What a service may ask for behind the exchanges `past`. -/
def Permits (s : Service) (past : List Exchange) : Call → Prop
  | .job (.register j) => j.code = none ∧ (j.status = .running ∨ j.status = .stopped)
  | .job (.publish _ status _) => status = .stopped
  | .job (.toForeground id) => s = .foreground id ∧ past = []
  | .job (.stopped id) => ∃ leader siblings helpers, s = .monitor id leader siblings helpers
  | .job (.finish id code) =>
    (∃ leader siblings helpers, s = .monitor id leader siblings helpers ∧ Saw leader code past) ∨
      ∃ line, s = .worker line code ∧ (⟨.job (.register (.ofWorker line)), id⟩ : Exchange) ∈ past
  | .fork (.monitor id leader _ _) => ∃ e ∈ past, Exchange.tells id leader e
  | .become (.monitor id leader siblings helpers) => s = .monitor id leader siblings helpers
  | _ => True

/-- What a service gives back behind the exchanges `past`. -/
def Returns : (s : Service) → List Exchange → s.Result → Prop
  | .foreground id, past, r =>
    (∀ code, r = .ok code → (⟨.job (.collect id), code⟩ : Exchange) ∈ past) ∧
      ((∃ e ∈ past, Exchange.brings id e) → ∃ e ∈ past, e.1.leaves id)
  | _, _, _ => True

end Service

/-- No end of a job has been reported. -/
def Unfinished (past : List Exchange) : Prop := ∀ e ∈ past, e.1.finishes = false

@[simp] lemma unfinished_nil : Unfinished [] := by simp [Unfinished]

@[simp] lemma unfinished_append {past more : List Exchange} :
    Unfinished (past ++ more) ↔ Unfinished past ∧ Unfinished more := by
  simp only [Unfinished, List.mem_append, or_imp, forall_and]

@[simp] lemma unfinished_cons {e : Exchange} {past : List Exchange} :
    Unfinished (e :: past) ↔ e.1.finishes = false ∧ Unfinished past := by
  simp only [Unfinished, List.mem_cons, forall_eq_or_imp]

namespace Service

/-- The request is one that the service may ask for, and no end has been reported before. -/
def Keeps (s : Service) (past : List Exchange) (c : Call) : Prop :=
  Unfinished past ∧ s.Permits past c

lemma unfinished_of_gathering {past : List Exchange} (h : ∀ e ∈ past, e.1.isGathering = true) :
    Unfinished past := by
  rintro ⟨c, r⟩ he
  have hc := h _ he
  cases c <;> first | rfl | cases hc

/-- What follows the wait for processes and helpers. -/
lemma throughout_gather {α : Type} {s : Service} {past : List Exchange} (hpast : Unfinished past)
    {Q : List Exchange → α → Prop} {pids : List Pid} {helpers : List Helper}
    {f : List Int → Act α}
    (hf : ∀ codes more, Unfinished more → (f codes).Throughout s.Keeps Q (past ++ more)) :
    (Jobs.collectAll pids >>= fun codes => Jobs.joinAll helpers >>= fun _ =>
      f codes).Throughout s.Keeps Q past := by
  have hkeeps {before : List Exchange} (hbefore : Unfinished before) (more : List Exchange)
      (c : Call) (hmore : ∀ e ∈ more, e.1.isGathering = true) (hc : c.isGathering = true) :
      s.Keeps (before ++ more) c := by
    refine ⟨unfinished_append.2 ⟨hbefore, unfinished_of_gathering hmore⟩, ?_⟩
    cases c <;> trivial
  refine Act.throughout_bind (Jobs.collectAll_gathers pids) (hkeeps hpast)
    fun codes more hmore => ?_
  have hmore' := unfinished_of_gathering hmore
  refine Act.throughout_bind (Jobs.joinAll_gathers helpers)
    (hkeeps (unfinished_append.2 ⟨hpast, hmore'⟩)) fun _ rest hrest => ?_
  rw [List.append_assoc]
  exact hf codes _ (unfinished_append.2 ⟨hmore', unfinished_of_gathering hrest⟩)

end Service

namespace Jobs

open Act (Throughout)

variable {α : Type} {s : Service} {past : List Exchange}

lemma conduct_register (hpast : Unfinished past) {Q : List Exchange → α → Prop} {line : String}
    {started : Started} {status : JobStatus} (hstatus : status = .running ∨ status = .stopped)
    {group : Option Pid} {f : JobId → Act α}
    (hf : ∀ id more, Unfinished more → (f id).Throughout s.Keeps Q (past ++ more)) :
    (register line started status group >>= f).Throughout s.Keeps Q past := by
  rw [register_eq]
  refine ⟨⟨hpast, rfl, hstatus⟩, fun id => ⟨⟨by simp [hpast, Call.finishes], ?_⟩, fun task => ?_⟩⟩
  · exact ⟨_, List.mem_append_right _ (List.mem_singleton_self _), rfl, rfl⟩
  · rw [List.append_assoc]
    exact hf id _ (by simp [Call.finishes])

lemma conduct_monitor {id : JobId} {leader : Pid} {siblings : List Pid} {helpers : List Helper}
    (hs : s = .monitor id leader siblings helpers) {Q : List Exchange → Int → Prop}
    (hQ : ∀ past code, Q past code) :
    (monitor id leader siblings helpers).Throughout s.Keeps Q [] := by
  rw [monitor_eq]
  refine ⟨⟨unfinished_nil, trivial⟩, fun r => ?_⟩
  rcases r with e | (code | _ | _)
  · refine ⟨⟨by simp [Call.finishes], .inl ⟨leader, siblings, helpers, hs, .inr ⟨rfl, e, ?_⟩⟩⟩, ?_⟩
    · simp
    · exact fun _ => hQ _ _
  · refine Service.throughout_gather (by simp [Call.finishes]) fun codes more hmore => ?_
    refine ⟨⟨by simp [Call.finishes, hmore], .inl ⟨leader, siblings, helpers, hs, .inl ?_⟩⟩, ?_⟩
    · simp
    · exact fun _ => hQ _ _
  · refine ⟨⟨by simp [Call.finishes], leader, siblings, helpers, hs⟩, fun _ => ⟨⟨?_, hs⟩, nofun⟩⟩
    simp [Call.finishes]
  · refine ⟨⟨by simp [Call.finishes], trivial⟩, fun _ => ⟨⟨?_, hs⟩, nofun⟩⟩
    simp [Call.finishes]

lemma conduct_watch {id : JobId} {siblings : List Pid} {helpers : List Helper}
    {Q : List Exchange → Unit → Prop} (hQ : ∀ past u, Q past u) :
    (watch id siblings helpers).Throughout s.Keeps Q [] := by
  rw [watch_eq]
  refine ⟨⟨unfinished_nil, trivial⟩, fun r => ?_⟩
  rcases r with _ | p
  · exact hQ _ _
  · refine ⟨⟨by simp [Call.finishes], ⟨_, List.mem_singleton_self _, rfl, rfl⟩⟩, fun _ => hQ _ _⟩

lemma conduct_runForeground {line : String} {started : Started}
    {Q : List Exchange → Completion → Prop} (hQ : ∀ past c, Q past c) :
    (runForeground line started).Throughout s.Keeps Q [] := by
  rw [runForeground_eq]
  refine ⟨⟨unfinished_nil, trivial⟩, fun hold => ⟨⟨by simp [Call.finishes], trivial⟩, fun r => ?_⟩⟩
  rcases r with e | _ | code
  · exact ⟨⟨by simp [Call.finishes], trivial⟩, fun _ => hQ _ _⟩
  · refine conduct_register (by simp [Call.finishes]) (.inr rfl) fun id more hmore => ?_
    refine ⟨⟨by simp [Call.finishes, hmore], rfl⟩, fun _ => ⟨⟨?_, trivial⟩, fun _ => hQ _ _⟩⟩
    simp [Call.finishes, hmore]
  · refine Service.throughout_gather (by simp [Call.finishes]) fun codes more hmore => ?_
    exact ⟨⟨by simp [Call.finishes, hmore], trivial⟩, fun _ => hQ _ _⟩

lemma conduct_runInJob {id : JobId} {started : Started} {Q : List Exchange → Completion → Prop}
    (hQ : ∀ past c, Q past c) : (runInJob id started).Throughout s.Keeps Q [] := by
  rw [runInJob_eq]
  refine ⟨⟨unfinished_nil, trivial⟩, fun _ => ⟨⟨by simp [Call.finishes], trivial⟩, fun r => ?_⟩⟩
  refine Service.throughout_gather (by simp [Call.finishes]) fun codes more hmore => ?_
  exact ⟨⟨by simp [Call.finishes, hmore], trivial⟩, fun _ => hQ _ _⟩

lemma conduct_resume {id : JobId} (target : JobTarget) (hpast : Unfinished past) :
    (resume id target).Throughout s.Keeps (Service.Returns (.foreground id)) past := by
  refine ⟨⟨hpast, trivial⟩, fun hold => ⟨⟨by simp [Call.finishes, hpast], trivial⟩, fun r => ?_⟩⟩
  rcases r with e | ⟨⟩
  · refine ⟨⟨by simp [Call.finishes, hpast], trivial⟩, fun j => ⟨⟨?_, trivial⟩, fun _ => ?_⟩⟩
    · simp [Call.finishes, hpast]
    · refine ⟨nofun, fun _ => ⟨⟨.job (.remove id), j⟩, by simp, .inr rfl⟩⟩
  · refine ⟨⟨by simp [Call.finishes, hpast], trivial⟩, fun code => ⟨⟨?_, trivial⟩, fun _ => ?_⟩⟩
    · simp [Call.finishes, hpast]
    · refine ⟨?_, fun _ => ⟨⟨.job (.collect id), code⟩, by simp, .inl rfl⟩⟩
      rintro _ ⟨⟩
      simp

lemma conduct_foreground (id : JobId) : (foreground id).Throughout
    (Service.Keeps (.foreground id)) (Service.Returns (.foreground id)) [] := by
  rw [foreground_eq]
  refine ⟨⟨unfinished_nil, rfl, rfl⟩, fun r => ?_⟩
  rcases r with _ | ⟨target, _ | p⟩
  · refine ⟨nofun, ?_⟩
    rintro ⟨e, he, hbrings⟩
    obtain rfl := List.mem_singleton.1 he
    exact absurd rfl hbrings.2
  · exact conduct_resume target (by simp [Call.finishes])
  · refine ⟨⟨by simp [Call.finishes], _, List.mem_singleton_self _, rfl, target, rfl⟩, fun _ => ?_⟩
    exact conduct_resume target (by simp [Call.finishes])

lemma conduct_background {id : JobId} {Q : List Exchange → Except ShellError Unit → Prop}
    (hQ : ∀ past r, Q past r) : (background id).Throughout s.Keeps Q [] := by
  rw [background_eq]
  refine ⟨⟨unfinished_nil, trivial⟩, fun r => ?_⟩
  rcases r with _ | target
  · exact hQ _ _
  · refine ⟨⟨by simp [Call.finishes], trivial⟩, fun r => ?_⟩
    rcases r with e | ⟨⟩
    · exact ⟨⟨by simp [Call.finishes], trivial⟩, fun _ => hQ _ _⟩
    · exact hQ _ _

end Jobs

/-- **Every service asks for what it may ask for**, and gives back what it should. -/
theorem Service.conduct (s : Service) : s.act.Throughout s.Keeps s.Returns [] := by
  cases s with
  | addJob command leader => exact ⟨⟨unfinished_nil, rfl, .inl rfl⟩, fun _ => trivial⟩
  | addPipeline line started stopped group =>
    rw [act, ← bind_pure (Jobs.register ..)]
    refine Jobs.conduct_register unfinished_nil ?_ fun _ _ _ => trivial
    cases stopped <;> simp
  | runForeground line started => exact Jobs.conduct_runForeground fun _ _ => trivial
  | runInJob id started => exact Jobs.conduct_runInJob fun _ _ => trivial
  | worker line code =>
    refine ⟨⟨unfinished_nil, rfl, .inl rfl⟩, fun id =>
      ⟨⟨by simp [Call.finishes], ?_⟩, fun _ => trivial⟩⟩
    exact .inr ⟨line, rfl, List.mem_singleton_self _⟩
  | watch id siblings helpers => exact Jobs.conduct_watch fun _ _ => trivial
  | foreground id => exact Jobs.conduct_foreground id
  | background id => exact Jobs.conduct_background fun _ _ => trivial
  | remove id => exact ⟨⟨unfinished_nil, trivial⟩, fun _ => trivial⟩
  | reap => exact ⟨⟨unfinished_nil, trivial⟩, fun _ => trivial⟩
  | takeEvents => exact ⟨⟨unfinished_nil, trivial⟩, fun _ => trivial⟩
  | monitor id leader siblings helpers => exact Jobs.conduct_monitor rfl fun _ _ => trivial

namespace System

variable {σ : System} {s : Service} {past : List Moment}

lemma Arises.keeps (h : σ.Arises) {c : Call} {next : Reply c → Act s.Result}
    (hth : ⟨s, past, .call c next⟩ ∈ σ.threads) : s.Keeps (past.map Moment.exchange) c :=
  (h.throughout Service.conduct _ hth).1

lemma Arises.returns (h : σ.Arises) {a : s.Result} (hth : ⟨s, past, .done a⟩ ∈ σ.threads) :
    s.Returns (past.map Moment.exchange) a :=
  h.throughout Service.conduct _ hth

end System

end Conch
