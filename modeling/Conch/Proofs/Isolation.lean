import Conch.Interpreter
import Conch.Proofs.Runs

/-!
# Isolation of the session

A pipeline of several stages, a subshell and a pipeline in the background work on copies of the
session, and a program never sees the session at all.  So whatever such a pipeline runs, at
whatever depth, and however the system answers, the session behind it is the one in front of it.
The one exception is `$!`: a pipeline of programs in the background leaves there the process that
it has started last.

## Main definitions

* `Conch.started` — the processes that a run has started, read off its exchanges.
* `Pipeline.Isolated` — the pipelines that work on copies by their form.
* `Pipeline.External` — a run in which every stage is a program.

## Main results

* `Stage.runInside_session`, `Pipeline.launchFrom_session` — a stage on a copy, and stages that
  all work on copies, leave the session alone.
* `Pipeline.launchFrom_pids` — the processes that have been launched are those that were started.
* `Pipeline.run_session` — the session behind a pipeline that works on copies.
-/

set_option autoImplicit false

namespace Conch

open Act (ask jobs)

/-! ## Processes of a run -/

/-- The process that the exchange has started. -/
def Exchange.started : Exchange → Option Pid
  | ⟨.spawn _, .ok (pid, _)⟩ => some pid
  | _ => none

/-- The processes that a run has started, in order. -/
def started (tr : List Exchange) : List Pid := tr.filterMap Exchange.started

@[simp] lemma started_nil : started [] = [] := rfl

@[simp] lemma started_append (tr tr' : List Exchange) :
    started (tr ++ tr') = started tr ++ started tr' := by
  simp [started]

lemma Exchange.started_of_isPlain {e : Exchange} (h : e.1.isPlain = true) : e.started = none := by
  obtain ⟨c, r⟩ := e
  cases c <;> first | rfl | cases h

/-- Plain requests start no process. -/
lemma Act.Asks.ensures_started {α : Type} {x : Act α} (h : x.IsPlain) :
    x.Ensures fun tr _ => started tr = [] :=
  h.ensures.mono fun _ _ hplain =>
    List.filterMap_eq_nil_iff.2 fun e he => Exchange.started_of_isPlain (hplain e he)

/-! ## One stage -/

/-- The action leaves the session alone wherever it runs: it is a program or a subshell. -/
def Action.isApart : Action → Bool
  | .program .. => true
  | .nested _ copy => copy
  | _ => false

lemma Action.isApart_of_isProgram {action : Action} (h : action.isProgram = true) :
    action.isApart = true := by
  cases action <;> first | rfl | cases h

/-- **A stage that works on a copy leaves the session alone**, whatever it runs. -/
lemma Stage.runInside_session {action : Action} {copied : Bool}
    (h : copied = true ∨ action.isApart = true) (nested : Nested) (streams : Streams)
    (s : Session) :
    (Stage.runInside action copied nested streams s).Ensures fun _ r => r.2 = s := by
  cases action with
  | program argv vars => simp [Stage.runInside]
  | builtin b argv =>
    have hcopied : copied = true := h.resolve_right (by simp [Action.isApart])
    exact Act.ensures_behind fun r => by simp [hcopied]
  | assign vars =>
    have hcopied : copied = true := h.resolve_right (by simp [Action.isApart])
    simp [Stage.runInside, hcopied]
  | nested body copy =>
    have hcopy : (copied || copy) = true := by
      simpa [Action.isApart] using h
    refine Act.ensures_behind fun shared => Act.ensures_behind fun r => ?_
    refine Act.ensures_behind fun _ => Act.ensures_behind fun _ => ?_
    simp [hcopy]

namespace Pipeline

/-- Starting a program starts one process, unless it fails. -/
lemma startProgram_started (argv : List String) (vars : List (String × String))
    (streams : Streams) (group : Option (Option Pid)) (s : Session) :
    (startProgram argv vars streams group s).Ensures fun tr r =>
      started tr = match r with
        | .ok (pid, _) => [pid]
        | .error _ => [] := by
  unfold startProgram
  split
  · simp only [Act.ask_bind, Act.ensures_call]
    intro p r _
    cases r with
    | error e => exact Act.ensures_call.2 fun _ => Act.ensures_pure.2 rfl
    | ok r => exact Act.ensures_call.2 fun _ => Act.ensures_call.2 fun _ => Act.ensures_pure.2 rfl
  · simp only [ask, Act.ensures_call, Act.ensures_done]
    intro r
    cases r <;> rfl

section Launch

variable (isolate copied : Bool) (nested : Nested) (streams : Streams)

/-- A stage that the shell runs itself runs on the spot or on a thread. -/
lemma launchOne_inside {stage : Stage} (h : stage.action.isProgram = false) (isLast : Bool)
    (l : Launched) :
    launchOne isolate copied isLast nested stage streams l =
      if isLast then do
        let r ← Stage.runInside stage.action copied nested streams l.session
        return { l.add (.finished r.1) [] with session := r.2 }
      else do
        let t ← ask (.fork (.stage stage streams l.session))
        return l.add (.thread t) [.thread t] := by
  obtain ⟨action, redirects⟩ := stage
  cases action with
  | program argv vars => cases h
  | _ => rfl

/-- Launching a program leaves the session alone and adds the process that it starts. -/
lemma launchOne_program {stage : Stage} (h : stage.action.isProgram = true) (isLast : Bool)
    (l : Launched) :
    (launchOne isolate copied isLast nested stage streams l).Ensures fun tr l' =>
      l'.session = l.session ∧ l'.pids = l.pids ++ started tr := by
  obtain ⟨action, redirects⟩ := stage
  cases action with
  | program argv vars =>
    refine (startProgram_started argv vars streams _ l.session).bind fun front r hfront => ?_
    cases r with
    | error e =>
      refine (Sink.report_isPlain streams.stderr _).ensures_started.bind fun tr _ htr => ?_
      simp [hfront, htr, Launched.pids, Launched.add]
    | ok r => simp [hfront, Launched.pids, Launched.add]
  | _ => cases h

/-- Launching a stage that works on a copy leaves the session alone. -/
lemma launchOne_session {stage : Stage} (h : copied = true ∨ stage.action.isApart = true)
    (isLast : Bool) (l : Launched) :
    (launchOne isolate copied isLast nested stage streams l).Ensures fun _ l' =>
      l'.session = l.session := by
  cases hprogram : stage.action.isProgram with
  | true =>
    exact (launchOne_program isolate copied nested streams hprogram isLast l).mono
      fun _ _ hl => hl.1
  | false =>
    rw [launchOne_inside isolate copied nested streams hprogram]
    cases isLast with
    | true =>
      refine (Stage.runInside_session h nested streams l.session).bind fun _ r hr => ?_
      simpa using hr
    | false => exact Act.ensures_behind fun t => by simp [Launched.add]

/-- **Stages that all work on copies leave the session alone.** -/
lemma launchFrom_session {stages : List Stage}
    (h : copied = true ∨ ∀ stage ∈ stages, stage.action.isApart = true) (pipes : List PipeId)
    (input : Option PipeId) (l : Launched) :
    (launchFrom isolate copied nested streams stages pipes input l).Ensures fun _ l' =>
      l'.session = l.session := by
  induction stages generalizing pipes input l with
  | nil => simp [launchFrom]
  | cons stage rest ih =>
    have hstage : copied = true ∨ stage.action.isApart = true := h.imp_right fun h => h _ (by simp)
    have hrest : copied = true ∨ ∀ stage ∈ rest, stage.action.isApart = true :=
      h.imp_right fun h stage hmem => h stage (by simp [hmem])
    refine (launchOne_session isolate copied nested _ hstage _ l).bind fun _ l' hl' => ?_
    refine Act.ensures_behind fun _ => ?_
    exact (ih hrest _ _ l').mono fun _ _ h => h.trans hl'

/-- **The processes of launched programs are those that the run has started**, in order. -/
lemma launchFrom_pids {stages : List Stage}
    (h : ∀ stage ∈ stages, stage.action.isProgram = true) (pipes : List PipeId)
    (input : Option PipeId) (l : Launched) :
    (launchFrom isolate copied nested streams stages pipes input l).Ensures fun tr l' =>
      l'.pids = l.pids ++ started tr := by
  induction stages generalizing pipes input l with
  | nil => simp [launchFrom]
  | cons stage rest ih =>
    have hstage := h stage (by simp)
    refine (launchOne_program isolate copied nested _ hstage _ l).bind fun front l' hl' => ?_
    refine (closeAll_isPlain _).ensures_started.bind fun mid _ hmid => ?_
    refine (ih (fun stage hmem => h stage (by simp [hmem])) _ _ l').mono fun rest l'' hl'' => ?_
    rw [hl'', hl'.2, started_append, started_append, hmid, List.nil_append, List.append_assoc]

end Launch

/-- Wait for processes that have been started, for a job of the shell itself or in the
foreground. -/
def await (job : Option JobId) (line : String) (started : Jobs.Started) : Act Jobs.Completion :=
  match job with
  | some id => Jobs.runInJob id started
  | none => Jobs.runForeground line started

/-- The status of a pipeline whose processes have ended or stopped. -/
def completed (s : Session) (l : Launched) : Jobs.Completion → Act Int
  | .stopped _ => pure JobTable.stoppedCode
  | .exited code siblings => do
    let unknown := List.replicate (l.pids.dropLast.length - siblings.length) 1
    return exitCode s.pipefail (← stageCodes l.stages (siblings ++ unknown ++ [code]))

/-- Wait for a pipeline that has been launched: its status. -/
def conclude (line : String) (s : Session) (l : Launched) : Act Int :=
  match l.pids.getLast? with
  | none => do
    Jobs.joinAll l.helpers
    return exitCode s.pipefail (← stageCodes l.stages [])
  | some primary => await s.job line ⟨primary, l.pids.dropLast, l.helpers⟩ >>= completed s l

/-- The stages all work on copies of the session: there are several, or each is a program or a
subshell. -/
def OnCopies (stages : List Stage) : Prop :=
  1 < stages.length ∨ ∀ stage ∈ stages, stage.action.isApart = true

section Stages

variable (isolate : Bool) (line : String) (nested : Nested) (streams : Streams) (s : Session)

lemma launch_session {stages : List Stage} (h : OnCopies stages) :
    (launch isolate nested stages streams s).Ensures fun _ l => l.session = s := by
  refine Act.ensures_behind fun pipes => ?_
  exact launchFrom_session isolate _ nested streams (h.imp_left decide_eq_true) pipes none _

lemma launch_pids {stages : List Stage} (h : ∀ stage ∈ stages, stage.action.isProgram = true) :
    (launch isolate nested stages streams s).Ensures fun tr l => l.pids = started tr := by
  refine (makePipes_isPlain _).ensures_started.bind fun front pipes hfront => ?_
  refine (launchFrom_pids isolate _ nested streams h pipes none _).mono fun rest l hl => ?_
  rw [hl, started_append, hfront]
  rfl

/-- A pipeline that is waited for leaves the session as launching it does. -/
lemma runStages_eq (stages : List Stage) :
    runStages line nested stages streams s = do
      let l ← launch s.job.isSome nested stages streams s
      let code ← conclude line s l
      return (code, l.session) := by
  refine bind_congr fun l => ?_
  unfold conclude
  cases l.pids.getLast? with
  | none => simp only [bind_assoc, pure_bind]
  | some primary =>
    -- both ways to wait are followed by the same cases
    cases s.job <;> simp only [await, bind_assoc] <;> refine bind_congr fun completion => ?_ <;>
      cases completion <;> simp only [completed, bind_assoc, pure_bind]

lemma runStages_session {stages : List Stage} (h : OnCopies stages) :
    (runStages line nested stages streams s).Ensures fun _ r => r.2 = s := by
  rw [runStages_eq]
  refine (launch_session s.job.isSome nested streams s h).bind fun _ l hl => ?_
  exact Act.ensures_behind fun code => by simpa using hl

/-- Programs in the background leave the last process that was started in `$!`. -/
lemma startBackground_session {stages : List Stage}
    (h : ∀ stage ∈ stages, stage.action.isProgram = true) :
    (startBackground line nested stages streams s).Ensures fun tr s' =>
      s' = if started tr = [] then s
        else { s with backgroundPid := (started tr).getLast? } := by
  refine (launch_pids true nested { streams with stdin := .null } s h).bind fun front l hl => ?_
  rw [hl]
  cases hlast : (started front).getLast? with
  | none =>
    refine (Jobs.joinAll_isPlain _).ensures_started.bind fun rest _ hrest => ?_
    simp [hrest, List.getLast?_eq_none_iff.1 hlast]
  | some primary =>
    refine (Jobs.register_isPlain ..).ensures_started.bind fun mid id hmid => ?_
    refine (Act.tell_isPlain ..).ensures_started.bind fun rest _ hrest => ?_
    have hne : started front ≠ [] := by
      intro hnil
      simp [hnil] at hlast
    simp [hmid, hrest, hlast, hne]

end Stages

end Pipeline

/-! ## Planned pipelines -/

/-- A plan has one stage for each element. -/
lemma Element.planAll_length (s : Session) (es : List Element) :
    (Element.planAll s es).Ensures fun _ r => ∀ stages, r = .ok stages →
      stages.length = es.length := by
  induction es with
  | nil => simp [Element.planAll]
  | cons e rest ih =>
    refine Act.ensures_behind fun stage => ?_
    cases stage with
    | error e => simp
    | ok stage =>
      refine ih.bind fun _ stages hstages => ?_
      cases stages with
      | error e => simp
      | ok stages => simpa using hstages

namespace Pipeline

/-- The pipeline works on copies by its form: it has several elements, or is a subshell, or runs
in the background. -/
def Isolated (p : Pipeline) : Prop :=
  2 ≤ p.elements.length ∨ (∃ body, p.elements = [.subshell body]) ∨ p.background = true

/-- In this run from `s`, every stage of the pipeline is a program. -/
def External (p : Pipeline) (s : Session) (tr : List Exchange) : Prop :=
  ∃ front rest stages, tr = front ++ rest ∧ (Element.planAll s p.elements).Runs front (.ok stages) ∧
    ∀ stage ∈ stages, stage.action.isProgram = true

/-- In this run from `s`, the pipeline starts processes in the background that are all of it. -/
def Detaches (p : Pipeline) (s : Session) (tr : List Exchange) : Prop :=
  p.background = true ∧ p.External s tr ∧ started tr ≠ []

/-- A run that begins with a plan is external exactly if the plan is. -/
lemma external_append {p : Pipeline} {s : Session} {front : List Exchange}
    (rest : List Exchange) {plan : Except ShellError (List Stage)}
    (h : (Element.planAll s p.elements).Runs front plan) :
    p.External s (front ++ rest) ↔
      ∃ stages, plan = .ok stages ∧ ∀ stage ∈ stages, stage.action.isProgram = true := by
  constructor
  · rintro ⟨front', rest', stages, happend, h', hall⟩
    obtain ⟨-, -, rfl⟩ := h.unique h' happend
    exact ⟨stages, rfl, hall⟩
  · rintro ⟨stages, rfl, hall⟩
    exact ⟨front, rest, stages, rfl, h, hall⟩

/-- The stages of a pipeline that is isolated by its form, or has only programs, work on copies. -/
lemma onCopies_of_isolated {p : Pipeline} {s : Session} {front rest : List Exchange}
    {stages : List Stage} (hplan : (Element.planAll s p.elements).Runs front (.ok stages))
    (hforeground : p.background = false) (h : p.Isolated ∨ p.External s (front ++ rest)) :
    OnCopies stages := by
  rcases h with (hseveral | ⟨body, hsubshell⟩ | hbackground) | hexternal
  · have hlength := Element.planAll_length s p.elements _ _ hplan stages rfl
    exact .inl (by omega)
  · rw [hsubshell] at hplan
    obtain ⟨-, hstages⟩ := Act.runs_done.1 hplan
    cases hstages
    exact .inr (by simp [Action.isApart])
  · simp [hforeground] at hbackground
  · obtain ⟨_, ⟨⟩, hall⟩ := (external_append rest hplan).1 hexternal
    exact .inr fun stage hmem => Action.isApart_of_isProgram (hall stage hmem)

/-- Run something with the foreground pointer, unless the session belongs to a job, which has
another way to be reached. -/
def held {α : Type} (s : Session) (x : Act α) : Act α :=
  if s.job.isSome then x
  else do
    let hold ← jobs (.seize none [])
    let r ← x
    jobs (.yieldBack hold)
    return r

/-- Run planned stages in the background. -/
def detach (line : String) (nested : Nested) (stages : List Stage) (streams : Streams)
    (s : Session) : Act (Int × Session) :=
  if stages.all (·.action.isProgram) then
    return (0, ← startBackground line nested stages streams s)
  else do
    startWorker line stages streams s
    return (0, s)

/-- Run planned stages. -/
def proceed (p : Pipeline) (nested : Nested) (streams : Streams) (s : Session) :
    Except ShellError (List Stage) → Act (Int × Session)
  | .error e => do
    streams.stderr.report e.describe
    return (1, s)
  | .ok [] => return (0, s)
  | .ok stages =>
    if p.background then detach p.commandLine nested stages streams s
    else held s (runStages p.commandLine nested stages streams s)

/-- A pipeline is planned first, and runs as the plan says. -/
lemma execute_eq (p : Pipeline) (nested : Nested) (streams : Streams) (s : Session) :
    p.execute nested streams s = Element.planAll s p.elements >>= proceed p nested streams s := by
  refine bind_congr fun plan => ?_
  rcases plan with e | (_ | ⟨stage, stages⟩) <;> rfl

lemma run_eq (p : Pipeline) (streams : Streams) (s : Session) :
    p.run streams s =
      Element.planAll s p.elements >>= proceed p (Element.runLast p.elements) streams s := by
  cases p
  exact execute_eq ..

/-! ## The session behind a pipeline -/

lemma held_ensures {α : Type} {Q : α → Prop} {x : Act α} (h : x.Ensures fun _ a => Q a)
    (s : Session) : (held s x).Ensures fun _ a => Q a := by
  unfold held
  split
  · exact h
  · refine Act.ensures_behind fun hold => h.bind fun _ a ha => ?_
    exact Act.ensures_behind fun _ => by simpa using ha

section Proceed

variable {p : Pipeline} (nested : Nested) (streams : Streams) (s : Session)

lemma proceed_error_session (e : ShellError) :
    (proceed p nested streams s (.error e)).Ensures fun _ r => r.2 = s :=
  Act.ensures_behind fun _ => by simp

/-- In the background only programs change the session, and only its `$!`. -/
lemma proceed_background_session {stages : List Stage} (hbackground : p.background = true) :
    (proceed p nested streams s (.ok stages)).Ensures fun tr r =>
      r.2 = if (∀ stage ∈ stages, stage.action.isProgram = true) ∧ started tr ≠ [] then
        { s with backgroundPid := (started tr).getLast? } else s := by
  cases stages with
  | nil => simp [proceed]
  | cons stage stages =>
    simp only [proceed, hbackground, if_true, detach]
    split
    case isTrue hall =>
      have hprograms : ∀ st ∈ stage :: stages, st.action.isProgram = true := by
        simpa using hall
      refine (startBackground_session _ nested streams s hprograms).bind fun tr s' hs' => ?_
      rw [Act.ensures_pure, List.append_nil, hs']
      by_cases hnil : started tr = []
      · simp only [hnil, if_true, ne_eq, not_true_eq_false, and_false, if_false]
      · simp only [hnil, if_false, ne_eq, not_false_eq_true, and_true, if_pos hprograms]
    case isFalse hall =>
      have hprograms : ¬∀ st ∈ stage :: stages, st.action.isProgram = true := by
        simpa using hall
      exact Act.ensures_bind.2 fun _ _ _ =>
        Act.ensures_pure.2 (if_neg fun h => hprograms h.1).symm

/-- In the foreground, stages that all work on copies leave the session alone. -/
lemma proceed_foreground_session {stages : List Stage} (hforeground : p.background = false)
    (h : OnCopies stages) :
    (proceed p nested streams s (.ok stages)).Ensures fun _ r => r.2 = s := by
  cases stages with
  | nil => simp [proceed]
  | cons stage stages =>
    simp only [proceed, hforeground, Bool.false_eq_true, if_false]
    exact held_ensures (runStages_session _ nested streams s h) s

end Proceed

/-- **Isolation.**  A pipeline that has several elements, is a subshell or runs in the background
leaves the session as it is, whatever its commands do and however the system answers; so does a
program by itself.  Only a pipeline in the background that has started processes, all of its
stages being programs, leaves the last of them in `$!`.

**Proof sketch.** A run begins with the plan, which starts no process and decides whether all
stages are programs.  Behind it, a pipeline in the foreground either has several stages, so that
the last one gets a copy, or its only stage is a subshell or a program; launching and waiting
pass the session on.  In the background the session is not passed on at all. -/
theorem run_session {p : Pipeline} {streams : Streams} {s s' : Session} {tr : List Exchange}
    {code : Int} (h : (p.run streams s).Runs tr (code, s'))
    (hp : p.Isolated ∨ p.External s tr) :
    (p.Detaches s tr → s' = { s with backgroundPid := (started tr).getLast? }) ∧
      (¬p.Detaches s tr → s' = s) := by
  rw [run_eq] at h
  obtain ⟨front, rest, plan, rfl, hplan, hrest⟩ := Act.runs_bind.1 h
  have hfront : started front = [] := (Element.planAll_isPlain s _).ensures_started _ _ hplan
  have hexternal := external_append rest hplan
  cases plan with
  | error e =>
    have hs : s' = s := proceed_error_session _ streams s e _ _ hrest
    refine ⟨fun ⟨_, hall, _⟩ => ?_, fun _ => hs⟩
    obtain ⟨_, ⟨⟩, -⟩ := hexternal.1 hall
  | ok stages =>
    cases hbackground : p.background with
    | true =>
      have hs : s' = _ := proceed_background_session _ streams s hbackground _ _ hrest
      have hdetaches : p.Detaches s (front ++ rest) ↔
          (∀ stage ∈ stages, stage.action.isProgram = true) ∧ started rest ≠ [] := by
        simp [Detaches, hbackground, hexternal, hfront]
      rw [hdetaches, started_append, hfront, List.nil_append, hs]
      exact ⟨fun hd => if_pos hd, fun hd => if_neg hd⟩
    | false =>
      have hcopies := onCopies_of_isolated hplan hbackground hp
      have hs : s' = s := proceed_foreground_session _ streams s hbackground hcopies _ _ hrest
      exact ⟨fun ⟨h, _⟩ => by simp [hbackground] at h, fun _ => hs⟩

/-- `X=1 sleep 5 | nosuch &`, where only the first program can be started. -/
def sleepers : Pipeline :=
  ⟨[.simple ⟨["X=1", "sleep", "5"], [], false⟩, .simple ⟨["nosuch"], [], true⟩], true⟩

/-- A system in which one program can be started, as process 7, and no other. -/
def onlyOne : Act.Answers
  | _, .view => some default
  | _, .pipe => some 0
  | past, .spawn _ => match started past with
    | [] => some (.ok (7, []))
    | _ => some (.error (.os .noEntry))
  | _, .write .. => some (.ok ())
  | _, .close _ => some ()
  | _, .job (.register _) => some 1
  | _, .fork _ => some 0
  | _, _ => none

/-- Isolation at two programs in the background, of which the second is not found: the session
behind them differs in `$!`, which is the first. -/
theorem run_session_second_not_found :
    ∃ tr s', (sleepers.run .inherit (.new "/" .empty)).Runs tr (0, s') ∧ sleepers.Isolated ∧
      sleepers.Detaches (.new "/" .empty) tr ∧
      s' = { Session.new "/" .empty with backgroundPid := some 7 } := by
  have hplay : (sleepers.run .inherit (.new "/" .empty)).play onlyOne [] = (_, some (0, _)) := rfl
  have hplan : (Element.planAll (.new "/" .empty) sleepers.elements).play onlyOne [] =
      (_, some (.ok _)) := rfl
  obtain ⟨tr, htr, hrun⟩ := Act.runs_of_play hplay
  obtain ⟨front, hfront, hplanned⟩ := Act.runs_of_play hplan
  have hstarted : started tr = [7] := congrArg started htr.symm
  have hexternal : sleepers.External (.new "/" .empty) tr := by
    have happend : tr = front ++ tr.drop front.length := by
      rw [show tr = _ from htr.symm, show front = _ from hfront.symm]
      rfl
    refine ⟨front, tr.drop front.length, _, happend, hplanned, ?_⟩
    exact List.forall_mem_cons.2 ⟨rfl, List.forall_mem_cons.2 ⟨rfl, List.forall_mem_nil _⟩⟩
  have hisolated : sleepers.Isolated := .inr (.inr rfl)
  have hdetaches : sleepers.Detaches (.new "/" .empty) tr := ⟨rfl, hexternal, by simp [hstarted]⟩
  refine ⟨tr, _, hrun, hisolated, hdetaches, ?_⟩
  rw [(run_session hrun (.inl hisolated)).1 hdetaches, hstarted]
  rfl

end Pipeline

end Conch
