import Conch.Proofs.Gathering

/-!
# The codes of the stages

The code of a stage can come on four ways: a program that cannot be started has one at once, as has
a stage that the shell runs on the spot; a stage on a thread leaves its code where the shell finds
it once the thread has ended; and processes report theirs in the order in which they are waited
for, the last process first, which need not be the last stage.  Here every code is shown to come
to its own stage.

What becomes of processes and threads is not for the shell to say, so it is given as `Fates`: how
each of them ends.  A system is truthful if it answers whoever waits with that.

## Main definitions

* `Conch.Fates`, `Fates.Truthful` — how processes and threads end, and exchanges that tell so.
* `Act.Learns` — what a tree comes to in every truthful system.
* `Stage.Exits`, `Stage.AllExit` — the exit codes of stages that have been launched.
* `Pipeline.codes` — wait for a pipeline that has been launched: the codes of its stages.
* `Pipeline.StatusOf` — the status that codes make.

## Main results

* `Pipeline.codes_learns` — the codes are those of the processes and threads of the stages.
* `Pipeline.launchFrom_exits` — what has been launched for a stage has the exit code of the stage.
* `Pipeline.runStages_codes` — **every code lands on its own stage**.
-/

set_option autoImplicit false

namespace Conch

open Act (ask jobs)
open Text (Octets)

/-! ## Fates -/

/-- How the processes and threads that a shell has started end. -/
structure Fates where
  process : Pid → Ending
  thread : TaskId → Int

namespace Fates

variable (w : Fates)

/-- The code of somebody who has been started. -/
def code : Runner → Int
  | .process pid => (w.process pid).status
  | .thread t => w.thread t

/-- The thread has run to its end with its code, whatever it was forked for. -/
def HasRun (past : List Exchange) (t : TaskId) : Prop :=
  ∀ b : Body, ⟨.fork b, t⟩ ∈ past → ∃ tr, b.act.Runs tr (w.thread t)

variable {w} in
lemma HasRun.mono {past past' : List Exchange} {t : TaskId} (h : w.HasRun past' t)
    (hsub : past ⊆ past') : w.HasRun past t :=
  fun b hb => h b (hsub hb)

/-- The answer tells whoever waits what has become of a process or a thread.  A process that has
not stopped is reported with its end, and a wait that has to name the signal fails if it has no
name.  A thread that has been waited for has run to its end, and then its code can be seen. -/
def Tells (past : List Exchange) : Exchange → Prop
  | ⟨.waitPause pid, r⟩ => r = match (w.process pid).named? with
    | some code => .ok (some code)
    | none => .error .invalid
  | ⟨.waitExit pid, r⟩ => r = .ok (w.process pid)
  | ⟨.join (.thread t), _⟩ => w.HasRun past t
  | ⟨.result t, r⟩ => ⟨.join (.thread t), ()⟩ ∈ past → r = some (w.thread t)
  | _ => True

/-- Every answer behind the exchanges `past` tells what has become of those who were started. -/
def Truthful : List Exchange → List Exchange → Prop
  | _, [] => True
  | past, e :: tr => w.Tells past e ∧ Truthful (past ++ [e]) tr

@[simp] lemma truthful_nil (past : List Exchange) : w.Truthful past [] := trivial

lemma truthful_cons {past tr : List Exchange} {e : Exchange} :
    w.Truthful past (e :: tr) ↔ w.Tells past e ∧ w.Truthful (past ++ [e]) tr :=
  Iff.rfl

lemma truthful_append {past tr tr' : List Exchange} :
    w.Truthful past (tr ++ tr') ↔ w.Truthful past tr ∧ w.Truthful (past ++ tr) tr' := by
  induction tr generalizing past with
  | nil => simp
  | cons e tr ih => simp [truthful_cons, ih, and_assoc]

end Fates

/-! ## What is learnt from a truthful system -/

/-- In every truthful system, behind the exchanges `past`, the tree comes to what `P` says of all
exchanges and of the value. -/
def Act.Learns {α : Type} (w : Fates) (past : List Exchange) (x : Act α)
    (P : List Exchange → α → Prop) : Prop :=
  ∀ tr a, x.Runs tr a → w.Truthful past tr → P (past ++ tr) a

namespace Act

variable {α β : Type} {w : Fates} {past : List Exchange} {P : List Exchange → α → Prop}

lemma learns_done {a : α} : (Act.done a).Learns w past P ↔ P past a := by
  simp [Learns]

lemma learns_call {c : Call} {next : Reply c → Act α} :
    (Act.call c next).Learns w past P ↔
      ∀ r, w.Tells past ⟨c, r⟩ → (next r).Learns w (past ++ [⟨c, r⟩]) P := by
  constructor
  · intro h r hr tr a hrun htr
    simpa using h _ a (.call r hrun) ⟨hr, htr⟩
  · intro h tr a hrun htr
    obtain ⟨r, rest, rfl, hrest⟩ := runs_call.1 hrun
    simpa using h r htr.1 rest a hrest htr.2

lemma Learns.mono {x : Act α} {Q : List Exchange → α → Prop} (h : x.Learns w past P)
    (hPQ : ∀ past' a, past ⊆ past' → P past' a → Q past' a) : x.Learns w past Q :=
  fun tr a hrun htr => hPQ _ a (List.subset_append_left ..) (h tr a hrun htr)

lemma Learns.bind {x : Act α} {f : α → Act β} {Q : List Exchange → β → Prop}
    (h : x.Learns w past P) (hf : ∀ past' a, past ⊆ past' → P past' a → (f a).Learns w past' Q) :
    (x >>= f).Learns w past Q := by
  intro tr b hrun htr
  obtain ⟨front, rest, a, rfl, hx, hrest⟩ := runs_bind.1 hrun
  obtain ⟨hfront, htruthful⟩ := w.truthful_append.1 htr
  have hP := h front a hx hfront
  simpa using hf _ a (List.subset_append_left ..) hP rest b hrest htruthful

end Act

open Act (learns_done learns_call)

namespace Jobs

variable {w : Fates}

/-- Processes report their own endings. -/
lemma collectAll_learns (pids : List Pid) (past : List Exchange) :
    (collectAll pids).Learns w past fun _ codes =>
      codes = pids.map fun pid => w.code (.process pid) := by
  induction pids generalizing past with
  | nil => exact learns_done.2 rfl
  | cons pid rest ih =>
    refine learns_call.2 fun r hr => ?_
    obtain rfl : r = .ok (w.process pid) := hr
    refine (ih _).bind fun past' codes _ hcodes => learns_done.2 ?_
    rw [hcodes]
    rfl

/-- Threads that have been waited for have run to their ends. -/
lemma joinAll_learns (helpers : List Helper) (past : List Exchange) :
    (joinAll helpers).Learns w past fun past' _ => ∀ t, .thread t ∈ helpers →
      ⟨.join (.thread t), ()⟩ ∈ past' ∧ w.HasRun past t := by
  induction helpers generalizing past with
  | nil => exact learns_done.2 (by simp)
  | cons h rest ih =>
    refine learns_call.2 fun r hr => (ih _).mono fun past' _ hsub hrest t ht => ?_
    obtain rfl | ht := List.mem_cons.1 ht
    · exact ⟨hsub (by simp), hr⟩
    · exact ⟨(hrest t ht).1, (hrest t ht).2.mono (List.subset_append_left ..)⟩

/-- The other processes and the helpers are waited for behind the last process. -/
lemma gather_learns {α : Type} {siblings : List Pid} {helpers : List Helper}
    {past : List Exchange} {next : List Int → Act α} {P : List Exchange → α → Prop}
    (hnext : ∀ past', (∀ t, .thread t ∈ helpers →
        ⟨.join (.thread t), ()⟩ ∈ past' ∧ w.HasRun past t) →
      (next (siblings.map fun pid => w.code (.process pid))).Learns w past' P) :
    (collectAll siblings >>= fun codes => joinAll helpers >>= fun _ => next codes).Learns
      w past P := by
  refine (collectAll_learns siblings past).bind fun past₁ codes hsub hcodes => ?_
  subst hcodes
  refine (joinAll_learns helpers past₁).bind fun past₂ _ _ hjoined => hnext past₂ fun t ht => ?_
  exact ⟨(hjoined t ht).1, (hjoined t ht).2.mono hsub⟩

end Jobs

namespace Pipeline

variable {w : Fates}

/-- Every stage gets its own code: a process the next one of those that have been reported, a thread
what it has left. -/
lemma stageCodes_learns {stages : List Running} {past : List Exchange}
    (hjoined : ∀ t, .thread t ∈ stages → ⟨.join (.thread t), ()⟩ ∈ past) {pids : List Pid}
    (hpids : pids = stages.filterMap fun
      | .process pid => some pid
      | _ => none) :
    (stageCodes stages (pids.map fun pid => w.code (.process pid))).Learns w past
      fun _ codes => codes = stages.map (Running.status w.code) := by
  induction stages generalizing past pids with
  | nil => exact learns_done.2 rfl
  | cons r rest ih =>
    have hrest {past' : List Exchange} (hsub : past ⊆ past') (t : TaskId)
        (ht : .thread t ∈ rest) : ⟨.join (.thread t), ()⟩ ∈ past' :=
      hsub (hjoined t (by simp [ht]))
    cases r with
    | process pid =>
      subst hpids
      refine (ih (hrest (List.Subset.refl _)) rfl).bind fun _ codes _ hcodes => ?_
      exact learns_done.2 (by rw [hcodes]; rfl)
    | thread t =>
      refine learns_call.2 fun r hr => ?_
      obtain rfl : r = some (w.thread t) := hr (hjoined t (by simp))
      have hrest' := hrest (List.subset_append_left past [⟨.result t, some (w.thread t)⟩])
      refine (ih hrest' hpids).bind fun _ codes _ hcodes => ?_
      exact learns_done.2 (by rw [hcodes]; rfl)
    | finished c =>
      refine (ih (hrest (List.Subset.refl _)) hpids).bind fun _ codes _ hcodes => ?_
      exact learns_done.2 (by rw [hcodes]; rfl)

/-! ## The codes of a pipeline -/

/-- Wait for a pipeline that has been launched: the codes of its stages, unless it has stopped. -/
def codes (job : Option JobId) (line : String) (l : Launched) : Act (Option (List Int)) :=
  match l.pids.getLast? with
  | none => do
    Jobs.joinAll l.helpers
    return some (← stageCodes l.stages [])
  | some primary => do
    match ← await job line ⟨primary, l.pids.dropLast, l.helpers⟩ with
    | .stopped _ => return none
    | .exited code siblings =>
      let unknown := List.replicate (l.pids.dropLast.length - siblings.length) 1
      return some (← stageCodes l.stages (siblings ++ unknown ++ [code]))

/-- The status of a pipeline is made of the codes of its stages. -/
lemma conclude_eq_codes (line : String) (s : Session) (l : Launched) :
    conclude line s l = do
      match ← codes s.job line l with
      | none => return JobTable.stoppedCode
      | some codes => return exitCode s.pipefail codes := by
  unfold conclude codes
  cases l.pids.getLast? with
  | none => simp only [bind_assoc, pure_bind]
  | some primary =>
    simp only [bind_assoc]
    refine bind_congr fun completion => ?_
    cases completion <;> simp only [completed, bind_assoc, pure_bind]

/-- No wait for the pipeline fails: its last process, whose signal has to be named, is not ended by
a signal without a name. -/
def Launched.Reports (l : Launched) (w : Fates) : Prop :=
  ∀ pid, l.pids.getLast? = some pid → (w.process pid).named? = some (w.process pid).status

/-- Whoever waits for a pipeline gets the codes of its processes. -/
lemma await_learns {l : Launched} (hreports : l.Reports w) {siblings : List Pid} {primary : Pid}
    (hpids : l.pids = siblings ++ [primary]) (job : Option JobId) (line : String)
    (past : List Exchange) :
    (await job line ⟨primary, siblings, l.helpers⟩).Learns w past fun past' completion =>
      completion = .exited (w.code (.process primary))
        (siblings.map fun pid => w.code (.process pid)) ∧
      ∀ t, .thread t ∈ l.helpers → ⟨.join (.thread t), ()⟩ ∈ past' ∧ w.HasRun past t := by
  have hnamed : (w.process primary).named? = some (w.process primary).status :=
    hreports primary (by simp [hpids])
  cases job with
  | none =>
    simp only [await, Jobs.runForeground_eq]
    refine learns_call.2 fun hold _ => learns_call.2 fun r hr => ?_
    obtain rfl : r = .ok (some (w.process primary).status) := by
      simpa [Fates.Tells, hnamed] using hr
    refine Jobs.gather_learns fun past' hjoined => learns_call.2 fun _ _ => learns_done.2 ?_
    refine ⟨rfl, fun t ht => ⟨by simp [hjoined t ht], (hjoined t ht).2.mono (by simp)⟩⟩
  | some id =>
    simp only [await, Jobs.runInJob_eq]
    refine learns_call.2 fun _ _ => learns_call.2 fun r hr => ?_
    obtain rfl : r = .ok (w.process primary) := hr
    refine Jobs.gather_learns fun past' hjoined => learns_call.2 fun _ _ => learns_done.2 ?_
    refine ⟨by simp [hnamed, Fates.code], fun t ht => ?_⟩
    exact ⟨by simp [hjoined t ht], (hjoined t ht).2.mono (by simp)⟩

/-- **The codes of a pipeline that has been launched** are those of the processes and threads that
run its stages, and these threads have run to their ends. -/
lemma codes_learns {l : Launched} (hreports : l.Reports w)
    (hthreads : ∀ t, .thread t ∈ l.stages → .thread t ∈ l.helpers) (job : Option JobId)
    (line : String) (past : List Exchange) :
    (codes job line l).Learns w past fun _ codes =>
      codes = some (l.stages.map (Running.status w.code)) ∧
        ∀ t, .thread t ∈ l.stages → w.HasRun past t := by
  unfold codes
  cases hlast : l.pids.getLast? with
  | none =>
    have hnone : l.pids = [] := List.getLast?_eq_none_iff.1 hlast
    refine (Jobs.joinAll_learns l.helpers past).bind fun past' _ _ hjoined => ?_
    have hcodes := stageCodes_learns (w := w) (fun t ht => (hjoined t (hthreads t ht)).1)
      hnone.symm
    refine hcodes.bind fun _ codes _ hcodes => learns_done.2 ⟨by rw [hcodes], fun t ht => ?_⟩
    exact (hjoined t (hthreads t ht)).2
  | some primary =>
    have hpids : l.pids = l.pids.dropLast ++ [primary] :=
      (List.dropLast_append_getLast? primary hlast).symm
    refine (await_learns hreports hpids job line past).bind ?_
    rintro past' _ - ⟨rfl, hjoined⟩
    -- everybody has reported, so no code is unknown
    have hcodes := stageCodes_learns (w := w) (fun t ht => (hjoined t (hthreads t ht)).1)
      (rfl : l.pids = _)
    rw [hpids, List.map_append] at hcodes
    simp only [List.length_map, Nat.sub_self, List.replicate_zero, List.append_nil]
    refine hcodes.bind fun _ codes _ hcodes => learns_done.2 ⟨by rw [hcodes], fun t ht => ?_⟩
    exact (hjoined t (hthreads t ht)).2

end Pipeline

/-! ## The exit code of a stage -/

/-- The program that the exchange asks to start, by its words, and the process or what has gone
wrong. -/
def Exchange.spawned : Exchange → Option (List Octets × Except IoError Pid)
  | ⟨.spawn s, r⟩ => some (s.argv, r.map Prod.fst)
  | _ => none

/-- The programs that a run has asked to start, in order. -/
def spawned (tr : List Exchange) : List (List Octets × Except IoError Pid) :=
  tr.filterMap Exchange.spawned

@[simp] lemma spawned_append (tr tr' : List Exchange) :
    spawned (tr ++ tr') = spawned tr ++ spawned tr' := by
  simp [spawned]

/-- Plain requests start no program. -/
lemma Act.Asks.ensures_spawned {α : Type} {x : Act α} (h : x.IsPlain) :
    x.Ensures fun tr _ => spawned tr = [] := by
  refine h.ensures.mono fun tr _ hplain => List.filterMap_eq_nil_iff.2 fun e he => ?_
  obtain ⟨c, r⟩ := e
  have hc : c.isPlain = true := hplain _ he
  cases c <;> first | rfl | cases hc

/-- The exit code of a stage that was launched through the given exchanges on the session `s`.
`copied` tells that the stage works on a copy of the session, `isLast` that it is the last one. -/
inductive Stage.Exits (w : Fates) (nested : Nested) (copied isLast : Bool) (s : Session)
    (stage : Stage) : List Exchange → Int → Prop where
  /-- A program that has been started has the status of its process. -/
  | started {argv : List String} {vars : List (String × String)} {part : List Exchange}
      {pid : Pid} : stage.action = .program argv vars →
      spawned part = [((Pipeline.called s argv).map Octets.ofText, .ok pid)] →
      Exits w nested copied isLast s stage part (w.process pid).status
  /-- A program that could not be started has failed. -/
  | refused {argv : List String} {vars : List (String × String)} {part : List Exchange}
      {e : IoError} : stage.action = .program argv vars →
      spawned part = [((Pipeline.called s argv).map Octets.ofText, .error e)] →
      Exits w nested copied isLast s stage part 1
  /-- The last stage, if the shell runs it, has the code that it comes to on the spot. -/
  | onTheSpot {streams : Streams} {part : List Exchange} {code : Int} {after : Session} :
      stage.action.isProgram = false → isLast = true →
      (Stage.runInside stage.action copied nested streams s).Runs part (code, after) →
      Exits w nested copied isLast s stage part code
  /-- Any other stage that the shell runs has the code that it comes to on its thread. -/
  | onThread {streams : Streams} {t : TaskId} {inner : List Exchange} {after : Session} :
      stage.action.isProgram = false → isLast = false →
      (Stage.runInside stage.action true stage.runBody streams s).Runs inner (w.thread t, after) →
      Exits w nested copied isLast s stage [⟨.fork (.stage stage streams s), t⟩] (w.thread t)

/-- The exit codes of stages that were launched through the given exchanges, one after the other;
the shell closes ends of pipes in between. -/
inductive Stage.AllExit (w : Fates) (nested : Nested) (copied : Bool) (s : Session) :
    List Stage → List Exchange → List Int → Prop where
  | nil : AllExit w nested copied s [] [] []
  | cons {stage : Stage} {rest : List Stage} {ends : List End} {part closing tr : List Exchange}
      {code : Int} {codes : List Int} :
      stage.Exits w nested copied rest.isEmpty s part code → (closeAll ends).Runs closing () →
      AllExit w nested copied s rest tr codes →
      AllExit w nested copied s (stage :: rest) (part ++ closing ++ tr) (code :: codes)

lemma Stage.AllExit.length_eq {w : Fates} {nested : Nested} {copied : Bool} {s : Session}
    {stages : List Stage} {tr : List Exchange} {codes : List Int}
    (h : Stage.AllExit w nested copied s stages tr codes) : codes.length = stages.length := by
  induction h with
  | nil => rfl
  | cons _ _ _ ih => simp [ih]

/-- Where no stage is left, the session does not matter. -/
lemma Stage.AllExit.of_nil {w : Fates} {nested : Nested} {copied : Bool} {s s' : Session}
    {tr : List Exchange} {codes : List Int} (h : Stage.AllExit w nested copied s [] tr codes) :
    Stage.AllExit w nested copied s' [] tr codes := by
  cases h
  exact .nil

namespace Pipeline

/-! ## Launching -/

/-- Starting a program asks for one process, with the words of the program. -/
lemma startProgram_spawned (argv : List String) (vars : List (String × String))
    (streams : Streams) (group : Option (Option Pid)) (s : Session) :
    (startProgram argv vars streams group s).Ensures fun tr r =>
      spawned tr = [((called s argv).map Octets.ofText, r.map Prod.fst)] := by
  unfold startProgram
  split
  · simp only [Act.ask_bind, Act.ensures_call]
    intro p r _
    cases r with
    | error e => exact Act.ensures_call.2 fun _ => Act.ensures_pure.2 rfl
    | ok r => exact Act.ensures_call.2 fun _ => Act.ensures_call.2 fun _ => Act.ensures_pure.2 rfl
  · simp only [ask, Act.ensures_call, Act.ensures_done]
    exact fun _ => rfl

/-- The thread of a stage has run that stage. -/
lemma exists_runInside {w : Fates} {past : List Exchange} {stage : Stage} {streams : Streams}
    {s : Session} {t : TaskId} (hrun : w.HasRun past t)
    (hfork : ⟨.fork (.stage stage streams s), t⟩ ∈ past) :
    ∃ inner after, (Stage.runInside stage.action true stage.runBody streams s).Runs inner
      (w.thread t, after) := by
  obtain ⟨tr, htr⟩ := hrun _ hfork
  obtain ⟨inner, rest, ⟨code, after⟩, -, hinner, hcode⟩ := Act.runs_bind.1 htr
  obtain ⟨-, rfl⟩ := Act.runs_pure.1 hcode
  exact ⟨inner, after, hinner⟩

/-- More has been launched behind `l`, and whoever is a thread among it is waited for. -/
structure Launched.Extends (l l' : Launched) (rs : List Running) : Prop where
  stages : l'.stages = l.stages ++ rs
  helpers : l.helpers ⊆ l'.helpers
  threads : ∀ t, .thread t ∈ rs → .thread t ∈ l'.helpers

lemma Launched.Extends.refl (l : Launched) : l.Extends l [] := ⟨by simp, by simp, by simp⟩

lemma Launched.Extends.trans {l l₁ l' : Launched} {rs rs' : List Running} (h : l.Extends l₁ rs)
    (h' : l₁.Extends l' rs') : l.Extends l' (rs ++ rs') where
  stages := by rw [h'.stages, h.stages, List.append_assoc]
  helpers := List.Subset.trans h.helpers h'.helpers
  threads t ht := (List.mem_append.1 ht).elim (fun ht => h'.helpers (h.threads t ht)) (h'.threads t)

/-- **What has been launched for a stage has the exit code of the stage**, provided that its thread,
if it has one, runs to its end. -/
lemma launchOne_exits (w : Fates) (isolate copied isLast : Bool) (nested : Nested) (stage : Stage)
    (streams : Streams) (l : Launched) :
    (launchOne isolate copied isLast nested stage streams l).Ensures fun tr l' =>
      (isLast = false → l'.session = l.session) ∧ ∃ r, l.Extends l' [r] ∧
        ((∀ t, r = .thread t → w.HasRun tr t) →
          stage.Exits w nested copied isLast l.session tr (r.status w.code)) := by
  cases hprogram : stage.action.isProgram with
  | true =>
    obtain ⟨action, redirects⟩ := stage
    cases action with
    | program argv vars =>
      refine (startProgram_spawned argv vars streams _ l.session).bind fun front r hfront => ?_
      cases r with
      | error e =>
        refine (Sink.report_isPlain streams.stderr _).ensures_spawned.bind fun tr _ htr => ?_
        refine Act.ensures_pure.2 ⟨fun _ => rfl, .finished 1, ⟨rfl, ?_, by simp⟩, fun _ => ?_⟩
        · simp [Launched.add]
        · exact .refused (e := e) rfl (by simp [hfront, htr, Except.map])
      | ok r =>
        refine Act.ensures_pure.2 ⟨fun _ => rfl, .process r.1, ⟨rfl, ?_, by simp⟩, fun _ => ?_⟩
        · simp [Launched.add]
        · exact .started rfl (by simp [hfront, Except.map])
    | _ => cases hprogram
  | false =>
    rw [launchOne_inside isolate copied nested streams hprogram]
    cases isLast with
    | true =>
      intro tr l' hrun
      obtain ⟨front, rest, ⟨code, after⟩, rfl, hinside, hrest⟩ := Act.runs_bind.1 hrun
      obtain ⟨rfl, rfl⟩ := Act.runs_pure.1 hrest
      refine ⟨by simp, .finished code, ⟨rfl, by simp [Launched.add], by simp⟩, fun _ => ?_⟩
      rw [List.append_nil]
      exact .onTheSpot hprogram rfl hinside
    | false =>
      refine Act.ensures_call.2 fun t => Act.ensures_pure.2 ⟨fun _ => rfl, .thread t, ?_, ?_⟩
      · exact ⟨rfl, by simp [Launched.add], by simp [Launched.add]⟩
      · intro hran
        obtain ⟨inner, after, hinner⟩ := exists_runInside (hran t rfl) (List.mem_singleton.2 rfl)
        exact .onThread hprogram rfl hinner

/-- **What has been launched for stages has their exit codes**, in order. -/
lemma launchFrom_exits (w : Fates) (isolate copied : Bool) (nested : Nested) (streams : Streams)
    (stages : List Stage) (pipes : List PipeId) (input : Option PipeId) (l : Launched) :
    (launchFrom isolate copied nested streams stages pipes input l).Ensures fun tr l' =>
      ∃ rs, l.Extends l' rs ∧ ((∀ t, .thread t ∈ rs → w.HasRun tr t) →
        Stage.AllExit w nested copied l.session stages tr (rs.map (Running.status w.code))) := by
  induction stages generalizing pipes input l with
  | nil => exact Act.ensures_done.2 ⟨[], .refl l, fun _ => .nil⟩
  | cons stage rest ih =>
    refine (launchOne_exits w isolate copied _ nested stage _ l).bind ?_
    rintro part l₁ ⟨hsession, r, hone, hexits⟩ tr' l' hrun
    obtain ⟨closing, tr, ⟨⟩, rfl, hclosing, hrest⟩ := Act.runs_bind.1 hrun
    obtain ⟨rs, hall, hexits'⟩ := ih _ _ l₁ tr l' hrest
    refine ⟨[r] ++ rs, hone.trans hall, fun hran => ?_⟩
    have hstage := hexits fun t ht => (hran t (by simp [ht])).mono (by simp)
    have hstages := hexits' fun t ht => (hran t (by simp [ht])).mono (by simp)
    rw [← List.append_assoc]
    refine .cons hstage hclosing ?_
    cases rest with
    | nil => exact hstages.of_nil
    | cons => exact hsession rfl ▸ hstages

/-- The stages of a pipeline are launched behind its pipes. -/
lemma launch_exits (w : Fates) (isolate : Bool) (nested : Nested) (stages : List Stage)
    (streams : Streams) (s : Session) :
    (launch isolate nested stages streams s).Ensures fun front l =>
      (∀ t, .thread t ∈ l.stages → .thread t ∈ l.helpers) ∧
      ((∀ t, .thread t ∈ l.stages → w.HasRun front t) → ∃ pipes linking tr,
        front = linking ++ tr ∧ (makePipes (stages.length - 1)).Runs linking pipes ∧
        Stage.AllExit w nested (1 < stages.length) s stages tr
          (l.stages.map (Running.status w.code))) := by
  intro front l hrun
  obtain ⟨linking, tr, pipes, rfl, hpipes, hfrom⟩ := Act.runs_bind.1 hrun
  obtain ⟨rs, hextends, hexits⟩ := launchFrom_exits w isolate _ nested streams stages pipes none _
    tr l hfrom
  have hstages : l.stages = rs := hextends.stages
  rw [hstages]
  refine ⟨hextends.threads, fun hran => ⟨pipes, linking, tr, rfl, hpipes, hexits fun t ht => ?_⟩⟩
  exact (hran t ht).mono (List.subset_append_right ..)

/-! ## The status -/

/-- The status that the codes of stages make: the last of them, or with `pipefail` the last that is
not zero, if there is one. -/
inductive StatusOf : Bool → List Int → Int → Prop where
  | empty : StatusOf false [] 0
  | last (codes : List Int) (code : Int) : StatusOf false (codes ++ [code]) code
  | failure {before after : List Int} {code : Int} :
      code ≠ 0 → (∀ c ∈ after, c = 0) → StatusOf true (before ++ code :: after) code
  | success {codes : List Int} : (∀ c ∈ codes, c = 0) → StatusOf true codes 0

/-- One more stage that succeeds does not matter with `pipefail`. -/
lemma StatusOf.append_zero {codes : List Int} {code : Int} (h : StatusOf true codes code) :
    StatusOf true (codes ++ [0]) code := by
  cases h with
  | @failure before after _ hcode hafter =>
    rw [List.append_assoc, List.cons_append]
    exact .failure hcode (by simpa [or_imp, forall_and] using hafter)
  | success hall => exact .success (by simpa [or_imp, forall_and] using hall)

lemma statusOf_exitCode (pipefail : Bool) (codes : List Int) :
    StatusOf pipefail codes (exitCode pipefail codes) := by
  induction codes using List.reverseRecOn with
  | nil =>
    cases pipefail with
    | false => exact .empty
    | true => exact .success (by simp)
  | append_singleton codes code ih =>
    cases pipefail with
    | false => simpa [exitCode] using StatusOf.last codes code
    | true =>
      by_cases hcode : code = 0
      · have hskip : exitCode true (codes ++ [code]) = exitCode true codes := by
          simp [exitCode, hcode]
        rw [hskip, hcode]
        exact ih.append_zero
      · have hlast : exitCode true (codes ++ [code]) = code := by simp [exitCode, hcode]
        rw [hlast]
        exact .failure hcode (by simp)

/-- A run of stages launches them, waits for their codes and makes a status of these. -/
lemma runStages_runs {line : String} {nested : Nested} {stages : List Stage} {streams : Streams}
    {s s' : Session} {tr : List Exchange} {status : Int}
    (h : (runStages line nested stages streams s).Runs tr (status, s')) :
    ∃ front rest l given, tr = front ++ rest ∧
      (launch s.job.isSome nested stages streams s).Runs front l ∧
      (codes s.job line l).Runs rest given ∧
      ∀ codes, given = some codes → status = exitCode s.pipefail codes := by
  rw [runStages_eq] at h
  obtain ⟨front, _, l, rfl, hlaunch, h⟩ := Act.runs_bind.1 h
  obtain ⟨_, last, code, rfl, hconclude, hlast⟩ := Act.runs_bind.1 h
  obtain ⟨rfl, hstatus⟩ := Act.runs_pure.1 hlast
  rw [conclude_eq_codes] at hconclude
  obtain ⟨rest, last, given, rfl, hcodes, hlast⟩ := Act.runs_bind.1 hconclude
  cases given with
  | none =>
    obtain ⟨rfl, -⟩ := Act.runs_pure.1 hlast
    exact ⟨front, rest, l, none, by simp, hlaunch, hcodes, by simp⟩
  | some given =>
    obtain ⟨rfl, rfl⟩ := Act.runs_pure.1 hlast
    refine ⟨front, rest, l, some given, by simp, hlaunch, hcodes, ?_⟩
    rintro _ ⟨⟩
    exact congrArg Prod.fst hstatus

/-- **Every code lands on its own stage.**  A run of stages that is waited for launches them and
then waits.  If no process stops and no wait fails, so that whoever waits is told how processes and
threads have ended, then the codes that the run collects are the exit codes of the stages, each in
its place; and the status is the last of them, or with `pipefail` the last that is not zero.

**Proof sketch.** Launching puts what has been started for a stage in the place of the stage
(`launchFrom_exits`).  Behind it the last process is waited for, then the other processes from left
to right, then the threads (`codes_learns`); the codes of processes, in this order, fill the places
of processes from left to right, and threads that have ended have left their codes. -/
theorem runStages_codes {line : String} {nested : Nested} {stages : List Stage}
    {streams : Streams} {s s' : Session} {tr : List Exchange} {status : Int}
    (h : (runStages line nested stages streams s).Runs tr (status, s')) :
    ∃ front rest l, tr = front ++ rest ∧
      (launch s.job.isSome nested stages streams s).Runs front l ∧
      ∀ w : Fates, w.Truthful front rest → l.Reports w →
        ∃ given : List Int, (codes s.job line l).Runs rest (some given) ∧
          given.length = stages.length ∧
          (∃ pipes linking tr, front = linking ++ tr ∧
            (makePipes (stages.length - 1)).Runs linking pipes ∧
            Stage.AllExit w nested (1 < stages.length) s stages tr given) ∧
          StatusOf s.pipefail given status := by
  obtain ⟨front, rest, l, given, rfl, hlaunch, hcodes, hstatus⟩ := runStages_runs h
  refine ⟨front, rest, l, rfl, hlaunch, fun w htruthful hreports => ?_⟩
  obtain ⟨hthreads, hexits⟩ := launch_exits w _ nested stages streams s _ _ hlaunch
  obtain ⟨rfl, hran⟩ :=
    codes_learns hreports hthreads s.job line front rest given hcodes htruthful
  obtain ⟨pipes, linking, tr, rfl, hpipes, hall⟩ := hexits hran
  refine ⟨_, hcodes, hall.length_eq, ⟨pipes, linking, tr, rfl, hpipes, hall⟩, ?_⟩
  rw [hstatus _ rfl]
  exact statusOf_exitCode s.pipefail _

/-- `first | nosuch | X=1 | third | { … }`. -/
def motley : List Stage :=
  [⟨.program ["first"] [], .none⟩, ⟨.program ["nosuch"] [], .none⟩, ⟨.assign [("X", "1")], .none⟩,
    ⟨.program ["third"] [], .none⟩, ⟨.nested ⟨[]⟩ false, .none⟩]

/-- Process 7 exits with 3, process 8 is killed, and every thread ends with 0. -/
def motleyFates : Fates where
  process pid := if pid = 7 then .exited 3 else .killed .kill
  thread _ := 0

/-- A system that starts the first program as process 7 and the third as process 8, does not find
the second, and tells how they end. -/
def motleySystem : Act.Answers
  | past, .pipe => some past.length
  | past, .spawn _ => match spawned past with
    | [] => some (.ok (7, []))
    | [_] => some (.error (.os .noEntry))
    | _ => some (.ok (8, []))
  | _, .write .. => some (.ok ())
  | _, .close _ => some ()
  | _, .fork _ => some 5
  | _, .job (.seize ..) => some default
  | _, .job (.yieldBack _) => some ()
  | _, .waitPause pid => some (.ok (some (motleyFates.process pid).status))
  | _, .waitExit pid => some (.ok (motleyFates.process pid))
  | _, .join _ => some ()
  | _, .result t => some (some (motleyFates.thread t))
  | _, _ => none

/-- A session with `pipefail`. -/
def motleySession : Session := { Session.new "/" .empty with pipefail := true }

/-- The stages of `motley`, launched: the third on a thread, the fifth on the spot. -/
def motleyLaunched : Launched :=
  ⟨[.process 7, .finished 1, .thread 5, .process 8, .finished 0], [.thread 5], none, motleySession⟩

/-- What the thread runs. -/
def motleyThread : Body :=
  .stage ⟨.assign [("X", "1")], .none⟩ ⟨.pipe 1, .pipe 2, .err⟩ motleySession

/-- How `motley` is waited for: the last process first, then the other one, then the thread. -/
def motleyWait : List Exchange :=
  [⟨.job (.seize none [8, 7]), default⟩, ⟨.waitPause 8, .ok (some 137)⟩,
    ⟨.waitExit 7, .ok (.exited 3)⟩, ⟨.join (.thread 5), ()⟩, ⟨.job (.yieldBack default), ()⟩,
    ⟨.result 5, some 0⟩]

/-- The body of a thread, if a call starts one. -/
def forked? : Exchange → Option Body
  | ⟨.fork b, _⟩ => some b
  | _ => none

/-- The codes of five stages of all kinds, where the last process is not the last stage: with
`pipefail` the status is that of the process that was killed. -/
theorem runStages_codes_motley :
    ∃ front s', (runStages "" (fun _ s => pure (0, s)) motley .inherit motleySession).Runs
        (front ++ motleyWait) (137, s') ∧
      (launch false (fun _ s => pure (0, s)) motley .inherit motleySession).Runs front
        motleyLaunched ∧
      motleyFates.Truthful front motleyWait ∧ motleyLaunched.Reports motleyFates ∧
      ∃ given tr, (codes none "" motleyLaunched).Runs motleyWait (some given) ∧
        given = [3, 1, 0, 137, 0] ∧ Stage.AllExit motleyFates (fun _ s => pure (0, s)) true
          motleySession motley tr given ∧ StatusOf true given 137 := by
  have hplay : (runStages "" (fun _ s => pure (0, s)) motley .inherit motleySession).play
      motleySystem [] = (_, some (137, _)) := rfl
  have hplay' : (launch false (fun _ s => pure (0, s)) motley .inherit motleySession).play
      motleySystem [] = (_, some motleyLaunched) := rfl
  have hplay'' : (codes none "" motleyLaunched).play motleySystem [] =
      (motleyWait, some (some [3, 1, 0, 137, 0])) := rfl
  obtain ⟨tr, htr, hrun⟩ := Act.runs_of_play hplay
  obtain ⟨front, hfront, hlaunch⟩ := Act.runs_of_play hplay'
  obtain ⟨_, rfl, hcodes⟩ := Act.runs_of_play hplay''
  have happend : tr = front ++ motleyWait := by
    rw [show tr = _ from htr.symm, show front = _ from hfront.symm]
    rfl
  subst happend
  obtain ⟨front', rest, l, happend, hlaunch', hall⟩ := runStages_codes hrun
  obtain ⟨rfl, rfl, rfl⟩ := hlaunch.unique hlaunch' happend
  -- the one thread assigns to a variable, which comes to 0
  have hforks : front.filterMap forked? = [motleyThread] := by
    rw [show front = _ from hfront.symm]
    rfl
  have hthread (b : Body) (hb : ⟨.fork b, 5⟩ ∈ front) : ∃ tr, b.act.Runs tr 0 := by
    have hbody : b = motleyThread := by
      rw [← List.mem_singleton, ← hforks]
      exact List.mem_filterMap.2 ⟨_, hb, rfl⟩
    exact ⟨[], hbody ▸ .done _⟩
  have htruthful : motleyFates.Truthful front motleyWait :=
    ⟨trivial, rfl, rfl, fun b hb => hthread b (by simpa using hb), trivial, fun _ => rfl, trivial⟩
  have hreports : motleyLaunched.Reports motleyFates := by
    rintro pid ⟨⟩
    rfl
  refine ⟨front, _, hrun, hlaunch, htruthful, hreports, ?_⟩
  obtain ⟨given, hgiven, -, ⟨_, _, tr, -, -, hexit⟩, hstatus⟩ := hall motleyFates htruthful hreports
  obtain ⟨-, -, heq⟩ := hgiven.unique hcodes (rfl : motleyWait ++ [] = motleyWait ++ [])
  exact ⟨given, tr, hgiven, Option.some.inj heq, hexit, hstatus⟩

end Pipeline

end Conch
