import Conch.Proofs.Statuses
import Conch.Proofs.Waiting
import Mathlib.Logic.Relation

/-!
# Sessions stay well formed

Lines run one after the other on a session, and beside them runs what they have started: stages on
threads, workers, monitors, and the listener for signals.  All of them work on one table of jobs, in
any order, and the system around them answers as it likes, except that processes end with a status
between 0 and 255 or by a signal that exists.  Then every line leaves such a status and a session
that is well formed.

## Main definitions

* `Conch.Crew` — the line that runs, the threads beside it, and the table of jobs.
* `Crew.Meets`, `Crew.Step` — how a request is met, and what can happen next.

## Main results

* `Pipeline.launch_sound`, `Pipeline.runStages_sound` — stages and pipelines.
* `Command.run_sound`, `Session.runLine_sound` — commands and lines.
* `Body.act_sound` — what runs beside them.
* `Crew.Sound.step` — what one step preserves.
* `Crew.line_wellFormed` — **sessions stay well formed**.
-/

set_option autoImplicit false

namespace Conch

open Act (ask jobs)

variable {names : List String}

/-! ## Plans -/

/-- The name of an assignment is valid. -/
lemma Name.isName_of_splitAssignment {word : String} {p : String × String}
    (h : splitAssignment word = some p) : isName p.1 = true := by
  unfold splitAssignment at h
  exact (Option.filter_eq_some_iff.1 h).2

lemma SimpleCommand.proper_action (c : SimpleCommand) (s : Session) (v : View) :
    (c.action s v).Proper := by
  unfold SimpleCommand.action
  split
  · intro p hp
    obtain ⟨q, hq, rfl⟩ := List.mem_map.1 hp
    obtain ⟨word, -, hword⟩ := List.mem_filterMap.1 hq
    have hname : Name.isName q.1 = true := Name.isName_of_splitAssignment hword
    exact hname
  · split <;> trivial

namespace Element

lemma plan_proper (s : Session) (e : Element) :
    (plan s e).Ensures fun _ r => ∀ stage, r = .ok stage → stage.action.Proper := by
  cases e with
  | subshell body => exact Act.ensures_pure.2 (by rintro _ ⟨⟩; trivial)
  | group body => exact Act.ensures_pure.2 (by rintro _ ⟨⟩; trivial)
  | simple c =>
    refine Act.ensures_behind fun v => Act.ensures_behind fun opened => ?_
    cases opened with
    | error e => exact Act.ensures_pure.2 nofun
    | ok r =>
      refine Act.ensures_pure.2 ?_
      rintro _ ⟨⟩
      exact c.proper_action s v

lemma planAll_proper (s : Session) (es : List Element) :
    (planAll s es).Ensures fun _ r => ∀ stages, r = .ok stages →
      ∀ stage ∈ stages, stage.action.Proper := by
  induction es with
  | nil => exact Act.ensures_pure.2 (by rintro _ ⟨⟩; simp)
  | cons e rest ih =>
    refine (plan_proper s e).bind fun _ planned hstage => ?_
    cases planned with
    | error e => exact Act.ensures_pure.2 nofun
    | ok stage =>
      refine ih.bind fun _ planned hstages => ?_
      cases planned with
      | error e => exact Act.ensures_pure.2 nofun
      | ok stages =>
        refine Act.ensures_pure.2 ?_
        rintro _ ⟨⟩
        exact List.forall_mem_cons.2 ⟨hstage stage rfl, hstages stages rfl⟩

/-- The variables that planned stages set have valid names. -/
lemma planAll_sound (s : Session) (es : List Element) :
    (planAll s es).Sound names fun r => ∀ stages, r = .ok stages →
      ∀ stage ∈ stages, stage.action.Proper :=
  ((planAll_isOpening s es).mono fun _ => Call.isTame_of_isOpening).sound (planAll_proper s es)

end Element

/-! ## Stages -/

/-- What a nested command has to do with its session. -/
def Nested.Sound (names : List String) (nested : Nested) : Prop :=
  ∀ streams s, s.WellFormed names → (nested streams s).Sound names (WellFormedResult names)

namespace Stage

lemma share_sound (src : Source) : (share src).Sound names fun _ => True := by
  cases src with
  | text s =>
    exact ⟨trivial, fun _ _ => ⟨trivial, fun _ _ => ⟨trivial, fun _ _ => trivial⟩⟩⟩
  | _ => trivial

lemma runBuiltin_sound (b : Builtin) (argv : List String) (streams : Streams) {s : Session}
    (hs : s.WellFormed names) :
    (runBuiltin b argv streams s).Sound names (WellFormedResult names) := by
  refine (b.run_sound argv.tail streams hs).bind fun r hr => ?_
  rcases r with ⟨e | code, s'⟩
  · exact (Act.tell_sound _ _).behind fun _ => ⟨isStatus_one, hr.2⟩
  · exact ⟨hr.1 code rfl, hr.2⟩

lemma runInside_sound {action : Action} (haction : action.Proper) (copied : Bool) {nested : Nested}
    (hnested : nested.Sound names) (streams : Streams) {s : Session} (hs : s.WellFormed names) :
    (runInside action copied nested streams s).Sound names (WellFormedResult names) := by
  cases action with
  | program argv vars => exact ⟨isStatus_one, hs⟩
  | builtin b argv =>
    refine (runBuiltin_sound b argv streams hs).bind fun r hr => ⟨hr.1, ?_⟩
    cases copied with
    | true => exact hs
    | false => exact hr.2
  | assign vars =>
    refine ⟨isStatus_zero, ?_⟩
    cases copied with
    | true => exact hs
    | false => exact hs.setVars haction
  | nested body copy =>
    refine (share_sound streams.stdin).behind fun shared => ?_
    refine (hnested _ s hs).bind fun r hr => ?_
    refine (closeAll_sound _).behind fun _ => (Jobs.joinAll_sound _).behind fun _ => ⟨hr.1, ?_⟩
    cases copied || copy with
    | true => exact hs
    | false => exact hr.2

end Stage

namespace Pipeline

lemma startProgram_sound (argv : List String) (vars : List (String × String)) (streams : Streams)
    (group : Option (Option Pid)) (s : Session) :
    (startProgram argv vars streams group s).Sound names fun _ => True := by
  unfold startProgram
  split
  · refine Act.sound_ask trivial fun p => Act.sound_ask trivial fun started => ?_
    refine Act.sound_ask trivial fun _ => ?_
    rcases started with e | ⟨pid, helpers⟩
    · exact ⟨trivial, fun _ _ => trivial⟩
    · exact ⟨trivial, fun _ _ => ⟨trivial, fun _ _ => trivial⟩⟩
  · exact ⟨trivial, fun _ _ => trivial⟩

/-- The session of stages that have been started is well formed, and so are the codes of those that
have ended. -/
structure Launched.WellFormed (names : List String) (l : Launched) : Prop where
  session : l.session.WellFormed names
  finished : ∀ code, Running.finished code ∈ l.stages → IsStatus code

lemma Launched.WellFormed.add {l : Launched} (h : l.WellFormed names) {r : Running}
    (hr : ∀ code, r = .finished code → IsStatus code) (helpers : List Helper) :
    (l.add r helpers).WellFormed names where
  session := h.session
  finished code hcode := by
    rcases List.mem_append.1 hcode with hcode | hcode
    · exact h.finished code hcode
    · exact hr code (List.mem_singleton.1 hcode).symm

section Launch

variable (isolate copied : Bool) {nested : Nested} (hnested : nested.Sound names)
include hnested

lemma launchOne_sound (isLast : Bool) {stage : Stage} (hstage : stage.action.Proper)
    (streams : Streams) {l : Launched} (hl : l.WellFormed names) :
    (launchOne isolate copied isLast nested stage streams l).Sound names
      (Launched.WellFormed names) := by
  cases hprogram : stage.action.isProgram with
  | true =>
    obtain ⟨action, redirects⟩ := stage
    cases action with
    | program argv vars =>
      refine (startProgram_sound argv vars streams _ l.session).behind fun started => ?_
      rcases started with e | ⟨pid, helpers⟩
      · refine (Sink.report_sound _ _).behind fun _ => hl.add ?_ []
        rintro _ ⟨⟩
        exact isStatus_one
      · have hadded := hl.add (r := .process pid) nofun helpers
        exact { hadded with }
    | _ => cases hprogram
  | false =>
    rw [launchOne_inside isolate copied nested streams hprogram]
    cases isLast with
    | true =>
      refine (Stage.runInside_sound hstage copied hnested streams hl.session).bind fun r hr => ?_
      have hadded : (l.add (.finished r.1) []).WellFormed names :=
        hl.add (by rintro _ ⟨⟩; exact hr.1) []
      exact { hadded with session := hr.2 }
    | false =>
      exact ⟨⟨hl.session, hstage⟩, fun t _ => hl.add (r := .thread t) nofun [.thread t]⟩

lemma launchFrom_sound {stages : List Stage} (hstages : ∀ stage ∈ stages, stage.action.Proper)
    (streams : Streams) (pipes : List PipeId) (input : Option PipeId) {l : Launched}
    (hl : l.WellFormed names) :
    (launchFrom isolate copied nested streams stages pipes input l).Sound names
      (Launched.WellFormed names) := by
  induction stages generalizing pipes input l with
  | nil => exact hl
  | cons stage rest ih =>
    have hstage := hstages stage (by simp)
    refine (launchOne_sound isolate copied hnested _ hstage _ hl).bind fun l' hl' => ?_
    refine (closeAll_sound _).behind fun _ => ?_
    exact ih (fun stage hmem => hstages stage (by simp [hmem])) _ _ hl'

omit hnested in
lemma makePipes_sound (n : Nat) : (makePipes n).Sound names fun _ => True := by
  induction n with
  | zero => trivial
  | succ n ih => exact ⟨trivial, fun _ _ => ih.behind fun _ => trivial⟩

/-- **Launching stages** leaves a well-formed session, and stages that have ended with a status. -/
lemma launch_sound {stages : List Stage} (hstages : ∀ stage ∈ stages, stage.action.Proper)
    (streams : Streams) {s : Session} (hs : s.WellFormed names) :
    (launch isolate nested stages streams s).Sound names (Launched.WellFormed names) := by
  refine (makePipes_sound _).behind fun pipes => ?_
  exact launchFrom_sound isolate _ hnested hstages streams pipes none ⟨hs, by simp⟩

end Launch

/-! ## Pipelines -/

lemma isStatus_exitCode (pipefail : Bool) {codes : List Int} (h : ∀ code ∈ codes, IsStatus code) :
    IsStatus (exitCode pipefail codes) := by
  have hlast (codes' : List Int) (hsub : ∀ code ∈ codes', code ∈ codes) :
      IsStatus (codes'.getLast?.getD 0) := by
    cases hcode : codes'.getLast? with
    | none => exact isStatus_zero
    | some code => exact h code (hsub code (List.mem_of_getLast? hcode))
  unfold exitCode
  split
  · exact hlast _ fun code hcode => (List.mem_filter.1 hcode).1
  · exact hlast codes fun _ => id

lemma stageCodes_sound {stages : List Running}
    (hstages : ∀ code, Running.finished code ∈ stages → IsStatus code) {codes : List Int}
    (hcodes : ∀ code ∈ codes, IsStatus code) :
    (stageCodes stages codes).Sound names fun codes => ∀ code ∈ codes, IsStatus code := by
  induction stages generalizing codes with
  | nil => exact Act.sound_pure.2 (by simp)
  | cons r rest ih =>
    have hrest : ∀ code, Running.finished code ∈ rest → IsStatus code :=
      fun code hcode => hstages code (by simp [hcode])
    cases r with
    | process pid =>
      refine (ih hrest fun code hcode => hcodes code (List.mem_of_mem_tail hcode)).bind
        fun more hmore => Act.sound_pure.2 (List.forall_mem_cons.2 ⟨?_, hmore⟩)
      cases codes with
      | nil => exact isStatus_one
      | cons code codes => exact hcodes code (by simp)
    | thread t =>
      refine ⟨trivial, fun r hr => (ih hrest hcodes).bind fun more hmore => ?_⟩
      refine Act.sound_pure.2 (List.forall_mem_cons.2 ⟨?_, hmore⟩)
      cases r with
      | none => exact isStatus_one
      | some code => exact hr code rfl
    | finished code =>
      refine (ih hrest hcodes).bind fun more hmore => Act.sound_pure.2 ?_
      exact List.forall_mem_cons.2 ⟨hstages code (by simp), hmore⟩

lemma await_sound (job : Option JobId) (line : String) (started : Jobs.Started) :
    (await job line started).Sound names Jobs.Completion.Fit := by
  cases job with
  | none => exact Jobs.runForeground_sound line started
  | some id => exact Jobs.runInJob_sound id started

lemma completed_sound (s : Session) {l : Launched} (hl : l.WellFormed names)
    {completion : Jobs.Completion} (h : completion.Fit) :
    (completed s l completion).Sound names IsStatus := by
  cases completion with
  | stopped id => exact Act.sound_pure.2 (by decide)
  | exited code siblings =>
    refine (stageCodes_sound hl.finished ?_).bind fun codes hcodes =>
      Act.sound_pure.2 (isStatus_exitCode s.pipefail hcodes)
    intro code' hcode'
    simp only [List.mem_append, List.mem_replicate, List.mem_singleton] at hcode'
    rcases hcode' with (hcode' | ⟨-, rfl⟩) | rfl
    · exact h.2 code' hcode'
    · exact isStatus_one
    · exact h.1

/-- The status of a pipeline is one, whether its processes end, stop or cannot be waited for. -/
lemma conclude_sound (line : String) (s : Session) {l : Launched} (hl : l.WellFormed names) :
    (conclude line s l).Sound names IsStatus := by
  unfold conclude
  split
  · refine (Jobs.joinAll_sound _).behind fun _ => ?_
    refine (stageCodes_sound hl.finished (by simp)).bind fun codes hcodes => ?_
    exact Act.sound_pure.2 (isStatus_exitCode s.pipefail hcodes)
  · exact (await_sound _ _ _).bind fun completion h => completed_sound s hl h

section Run

variable {nested : Nested} (hnested : nested.Sound names)
include hnested

/-- **A pipeline leaves a status and a well-formed session.** -/
lemma runStages_sound (line : String) {stages : List Stage}
    (hstages : ∀ stage ∈ stages, stage.action.Proper) (streams : Streams) {s : Session}
    (hs : s.WellFormed names) :
    (runStages line nested stages streams s).Sound names (WellFormedResult names) := by
  rw [runStages_eq]
  refine (launch_sound _ hnested hstages streams hs).bind fun l hl => ?_
  exact (conclude_sound line s hl).bind fun code hcode => ⟨hcode, hl.session⟩

lemma startBackground_sound (line : String) {stages : List Stage}
    (hstages : ∀ stage ∈ stages, stage.action.Proper) (streams : Streams) {s : Session}
    (hs : s.WellFormed names) :
    (startBackground line nested stages streams s).Sound names (Session.WellFormed names) := by
  refine (launch_sound true hnested hstages _ hs).bind fun l _ => ?_
  split
  · exact (Jobs.joinAll_sound _).behind fun _ => hs
  · refine (Jobs.register_sound ..).behind fun id => ?_
    exact (Act.tell_sound _ _).behind fun _ => { hs with }

omit hnested in
lemma startWorker_sound (line : String) {stages : List Stage}
    (hstages : ∀ stage ∈ stages, stage.action.Proper) (streams : Streams) {s : Session}
    (hs : s.WellFormed names) :
    (startWorker line stages streams s).Sound names fun _ => True := by
  refine ⟨by simp [Call.Proper, Job.Fit, Job.ofWorker], fun id _ => ⟨trivial, fun v _ => ?_⟩⟩
  refine (Act.tell_sound _ _).behind fun _ => ?_
  exact ⟨⟨{ hs with }, hstages⟩, fun _ _ => trivial⟩

omit hnested in
lemma held_sound {α : Type} {Q : α → Prop} {x : Act α} (h : x.Sound names Q) (s : Session) :
    (held s x).Sound names Q := by
  unfold held
  split
  · exact h
  · exact ⟨trivial, fun hold _ => h.bind fun a ha => ⟨trivial, fun _ _ => ha⟩⟩

lemma proceed_sound (p : Pipeline) {plan : Except ShellError (List Stage)}
    (hplan : ∀ stages, plan = .ok stages → ∀ stage ∈ stages, stage.action.Proper)
    (streams : Streams) {s : Session} (hs : s.WellFormed names) :
    (proceed p nested streams s plan).Sound names (WellFormedResult names) := by
  rcases plan with e | (_ | ⟨stage, stages⟩)
  · exact (Sink.report_sound _ _).behind fun _ => ⟨isStatus_one, hs⟩
  · exact ⟨isStatus_zero, hs⟩
  · have hstages := hplan _ rfl
    simp only [proceed]
    split
    · unfold detach
      split
      · refine (startBackground_sound hnested _ hstages streams hs).bind fun s' hs' => ?_
        exact ⟨isStatus_zero, hs'⟩
      · exact (startWorker_sound _ hstages streams hs).behind fun _ => ⟨isStatus_zero, hs⟩
    · exact held_sound (runStages_sound hnested _ hstages streams hs) s

end Run

lemma run_sound_of_nested (p : Pipeline) (hnested : Nested.Sound names (Element.runLast p.elements))
    (streams : Streams) {s : Session} (hs : s.WellFormed names) :
    (p.run streams s).Sound names (WellFormedResult names) := by
  rw [run_eq]
  exact (Element.planAll_sound s p.elements).bind fun plan hplan =>
    proceed_sound hnested p hplan streams hs

end Pipeline

/-! ## Commands and lines -/

mutual

/-- **A command leaves a status and a well-formed session.**

**Proof sketch.** Induction on the tree of the command: a pipeline does so if what it nests does,
the block behind it stores its status, and chains and lists of blocks pass session and status on. -/
theorem Command.run_sound (streams : Streams) :
    ∀ (c : Command) (s : Session), s.WellFormed names →
      (c.run streams s).Sound names (WellFormedResult names)
  | ⟨blocks⟩, s, hs => Block.runAll_sound streams blocks s.status s hs.status hs

theorem Block.runAll_sound (streams : Streams) :
    ∀ (blocks : List Block) (status : Int) (s : Session), IsStatus status → s.WellFormed names →
      (Block.runAll blocks streams status s).Sound names (WellFormedResult names)
  | [], _, _, hstatus, hs => ⟨hstatus, hs⟩
  | b :: rest, _, s, _, hs => by
    refine (Block.run_sound streams b s hs).bind fun r hr => ?_
    obtain ⟨status, s'⟩ := r
    cases hrequest : s'.exitRequested with
    | some code =>
      simp only [hrequest, Act.sound_pure]
      exact ⟨hr.2.exitRequested code hrequest, hr.2⟩
    | none =>
      simp only [hrequest]
      exact Block.runAll_sound streams rest status s' hr.1 hr.2

theorem Block.run_sound (streams : Streams) :
    ∀ (b : Block) (s : Session), s.WellFormed names →
      (b.run streams s).Sound names (WellFormedResult names)
  | ⟨first, rest⟩, s, hs => (Pipeline.run_sound streams first s hs).bind fun r hr =>
    Link.runAll_sound streams rest r.1 { r.2 with status := r.1 } hr.1 (hr.2.with_status hr.1)

theorem Link.runAll_sound (streams : Streams) :
    ∀ (links : List Link) (status : Int) (s : Session), IsStatus status → s.WellFormed names →
      (Link.runAll links streams status s).Sound names (WellFormedResult names)
  | [], _, _, hstatus, hs => ⟨hstatus, hs⟩
  | ⟨connector, pipeline⟩ :: rest, status, s, hstatus, hs => by
    rw [Link.runAll]
    split
    · exact ⟨hstatus, hs⟩
    · split
      · refine (Pipeline.run_sound streams pipeline s hs).bind fun r hr => ?_
        exact Link.runAll_sound streams rest r.1 _ hr.1 (hr.2.with_status hr.1)
      · exact Link.runAll_sound streams rest status s hstatus hs

theorem Pipeline.run_sound (streams : Streams) :
    ∀ (p : Pipeline) (s : Session), s.WellFormed names →
      (p.run streams s).Sound names (WellFormedResult names)
  | ⟨elements, background⟩, _, hs =>
    Pipeline.run_sound_of_nested ⟨elements, background⟩ (Element.runLast_sound elements) streams hs

theorem Element.runLast_sound : ∀ elements, Nested.Sound names (Element.runLast elements)
  | [], _, _, hs => ⟨isStatus_zero, hs⟩
  | [.simple _], _, _, hs => ⟨isStatus_zero, hs⟩
  | [.subshell body], streams, s, hs => Command.run_sound streams body s hs
  | [.group body], streams, s, hs => Command.run_sound streams body s hs
  | _ :: e :: rest, streams, s, hs => by
    simpa [Element.runLast] using Element.runLast_sound (e :: rest) streams s hs

end

/-- A line leaves a status and a well-formed session, also if it is no command. -/
lemma Session.runLine_sound (line : String) (streams : Streams) {s : Session}
    (hs : s.WellFormed names) : (s.runLine line streams).Sound names (WellFormedResult names) := by
  unfold runLine
  split
  case h_1 c _ => exact Command.run_sound streams c s hs
  case h_2 => exact ⟨hs.status, hs⟩
  case h_3 =>
    have hstatus : IsStatus syntaxErrorStatus := by decide
    exact (Sink.report_sound _ _).behind fun _ => ⟨hstatus, hs.with_status hstatus⟩

/-! ## What runs beside a line -/

lemma Stage.runBody_sound (stage : Stage) : Nested.Sound names stage.runBody := by
  intro streams s hs
  unfold Stage.runBody
  split
  · exact Command.run_sound streams _ s hs
  · exact ⟨isStatus_zero, hs⟩

lemma Stage.runLastBody_sound (stages : List Stage) :
    Nested.Sound names (Stage.runLastBody stages) := by
  intro streams s hs
  unfold Stage.runLastBody
  split
  · exact Stage.runBody_sound _ streams s hs
  · exact ⟨isStatus_zero, hs⟩

/-- **What runs beside a line is sound**: stages, workers, monitors and the listener. -/
theorem Body.act_sound {b : Body} (h : b.Proper names) : b.act.Sound names IsStatus := by
  cases b with
  | stage stage streams s =>
    exact (Stage.runInside_sound h.2 true (Stage.runBody_sound stage) streams h.1).bind
      fun r hr => hr.1
  | worker id line stages streams s =>
    refine (Pipeline.runStages_sound (Stage.runLastBody_sound stages) line h.2 streams h.1).bind
      fun r hr => ?_
    exact ⟨hr.1, fun _ _ => isStatus_zero⟩
  | monitor id leader siblings helpers => exact Jobs.monitor_sound id leader siblings helpers
  | feed p text => exact (Act.tell_sound _ _).behind fun _ => isStatus_zero
  | listener =>
    refine ⟨trivial, fun s _ => (Jobs.handleSignal_sound s).behind fun _ => ?_⟩
    exact ⟨trivial, nofun⟩
  | intervention i => exact h.elim
  | program c s => exact h.elim

/-! ## A line and what runs beside it -/

/-- The line that runs, the threads beside it, the codes of those that have ended, and the table of
jobs that all of them work on. -/
structure Crew where
  table : JobTable
  threads : List (TaskId × Act Int)
  results : List (TaskId × Int)
  /-- What is left of the line. -/
  line : Act (Int × Session)

/-! ## Codes in the table of jobs -/

namespace JobTable

/-- The codes of the jobs in a table are statuses. -/
def Fit (t : JobTable) : Prop := ∀ id j, t.get? id = some j → j.Fit

lemma fit_empty : empty.Fit := by
  intro id j hj
  simp [empty, get?] at hj

/-- What the one who waits for a job gets is a status, also if the job has stopped or is gone. -/
lemma Fit.isStatus_of_collect {t t' : JobTable} (h : t.Fit) {id : JobId} {code : Int}
    (hcollect : t.collect id = some (code, t')) : IsStatus code := by
  unfold collect at hcollect
  split at hcollect
  · cases hcollect
    exact isStatus_zero
  case h_2 j hj =>
    split at hcollect
    · cases hcollect
      cases hcode : j.code with
      | none => exact isStatus_zero
      | some code => exact h id j hj code hcode
    · cases hcollect
      decide
    · cases hcollect
    · cases hcollect

/-- An operation keeps the codes of the table, if the one that it brings is a status; and so is the
one that it gives back. -/
lemma Fit.apply {t t' : JobTable} (h : t.Fit) {op : Op} {r : op.Result}
    (happly : t.apply op = some (r, t')) (hop : (Call.job op).Proper names) :
    t'.Fit ∧ (Call.job op).Fits r := by
  constructor
  · intro id j' hj' code hcode
    rcases get?_of_apply happly hj' with ⟨rfl, -⟩ | ⟨j, hj, ⟨-, rfl⟩ | ⟨-, hchange⟩⟩
    · exact hop code hcode
    · exact h id _ hj code hcode
    · rcases Op.code_of_change hchange hcode with ⟨⟨k, rfl⟩, -⟩ | ⟨-, hold⟩ | ⟨hold, -⟩
      · exact hop
      · exact h id j hj code hold
      · exact h id j hj code hold
  · cases op with
    | collect id => exact h.isStatus_of_collect happly
    | _ => trivial

/-- A look at a job brings a code only if its leader has ended. -/
lemma fit_of_seen {j j' : Job} {seen : Except Errno (Option Transition)}
    (h : j.seen seen = some j') (hj : j.Fit)
    (hseen : ∀ code, seen = .ok (some (.exited code)) → IsStatus code) : j'.Fit := by
  intro code hcode
  rcases seen with e | _ | (ended | _ | _)
  · simp only [Job.seen] at h
    split at h <;> cases h
    exact hj code hcode
  · cases h
    exact hj code hcode
  · simp only [Job.seen, Job.ended] at h
    split at h <;> cases h
    cases hcode
    exact hseen code rfl
  · cases h
    exact hj code hcode
  · cases h
    refine hj code ?_
    unfold Job.resumed at hcode
    split at hcode <;> exact hcode

lemma Fit.settle {t : JobTable} (h : t.Fit) (id : JobId)
    {seen : Except Errno (Option Transition)}
    (hseen : ∀ code, seen = .ok (some (.exited code)) → IsStatus code) :
    (t.settle id seen).Fit := by
  intro i j' hj'
  obtain ⟨j, hj, rfl | ⟨-, hchange⟩⟩ := get?_of_settle hj'
  · exact h i j' hj
  · exact fit_of_seen hchange (h i j hj) hseen

/-- Looks at any number of jobs. -/
lemma Fit.settleAll {t : JobTable} (h : t.Fit)
    {looks : List (JobId × Except Errno (Option Transition))}
    (hlooks : ∀ look ∈ looks, ∀ code, look.2 = .ok (some (.exited code)) → IsStatus code) :
    (looks.foldl (fun t l => t.settle l.1 l.2) t).Fit := by
  induction looks generalizing t with
  | nil => exact h
  | cons look rest ih =>
    have hlook := h.settle look.1 (hlooks look (by simp))
    exact ih hlook fun l hl => hlooks l (by simp [hl])

end JobTable

namespace Crew

/-- A line begins on a session. -/
def begin (table : JobTable) (line : String) (streams : Streams) (s : Session) : Crew :=
  ⟨table, [], [], s.runLine line streams⟩

/-- The request is met outside of the crew. -/
def isOutside : Call → Bool
  | .fork _ | .become _ | .result _ | .reap | .job _ => false
  | _ => true

/-- How a request is met: the answer, and the crew behind it.  The table answers what is asked of
it, a new thread joins the crew, and the end of a thread can be asked for.  Looks at jobs without a
monitor show whatever the system likes, and so are all other requests answered, as long as the
codes of processes fit. -/
inductive Meets (κ : Crew) : (c : Call) → Reply c → Crew → Prop where
  | job {op : JobTable.Op} {r : op.Result} {t : JobTable} :
      κ.table.apply op = some (r, t) → Meets κ (.job op) r { κ with table := t }
  | fork (b : Body) (id : TaskId) :
      Meets κ (.fork b) id { κ with threads := κ.threads ++ [(id, b.act)] }
  | result (id : TaskId) : Meets κ (.result id) (κ.results.lookup id) κ
  | reap (looks : List (JobId × Except Errno (Option Transition))) :
      (∀ look ∈ looks, ∀ code, look.2 = .ok (some (.exited code)) →
        ∃ e : Ending, e.Fit ∧ e.named? = some code) →
      Meets κ .reap () { κ with table := looks.foldl (fun t l => t.settle l.1 l.2) κ.table }
  | outside {c : Call} {r : Reply c} : isOutside c = true → c.Fits r → Meets κ c r κ

/-- What can happen next. -/
inductive Step (κ : Crew) : Crew → Prop where
  /-- A request of the line is met. -/
  | line {c : Call} {next : Reply c → Act (Int × Session)} {r : Reply c} {κ' : Crew} :
      κ.line = .call c next → Meets { κ with line := next r } c r κ' → Step κ κ'
  /-- A request of a thread is met. -/
  | thread {front back : List (TaskId × Act Int)} {id : TaskId} {c : Call}
      {next : Reply c → Act Int} {r : Reply c} {κ' : Crew} :
      κ.threads = front ++ (id, .call c next) :: back →
      Meets { κ with threads := front ++ (id, next r) :: back } c r κ' → Step κ κ'
  /-- A thread goes on as something else. -/
  | becomes {front back : List (TaskId × Act Int)} {id : TaskId} {b : Body}
      {next : Empty → Act Int} :
      κ.threads = front ++ (id, .call (.become b) next) :: back →
      Step κ { κ with threads := front ++ (id, b.act) :: back }
  /-- A thread ends. -/
  | ends {front back : List (TaskId × Act Int)} {id : TaskId} {code : Int} :
      κ.threads = front ++ (id, .done code) :: back →
      Step κ { κ with threads := front ++ back, results := (id, code) :: κ.results }
  /-- Somebody starts to listen to signals. -/
  | listens (id : TaskId) : Step κ { κ with threads := κ.threads ++ [(id, Body.listener.act)] }
  /-- The line is over, and the next one begins on the session behind it. -/
  | next {code : Int} {s : Session} (line : String) (streams : Streams) :
      κ.line = .done (code, s) → Step κ { κ with line := s.runLine line streams }

/-- The crews that lines lead to, one after the other, in any order of what happens beside them. -/
abbrev Leads (κ κ' : Crew) : Prop := Relation.ReflTransGen Step κ κ'

/-! ## What a crew keeps -/

/-- The line and every thread are sound, and the codes that they leave for others are statuses. -/
structure Sound (names : List String) (κ : Crew) : Prop where
  table : κ.table.Fit
  threads : ∀ th ∈ κ.threads, th.2.Sound names IsStatus
  results : ∀ r ∈ κ.results, IsStatus r.2
  line : κ.line.Sound names (WellFormedResult names)

/-- **What is asked properly is met with what fits.** -/
lemma Meets.fits {κ κ' : Crew} {c : Call} {r : Reply c} (h : κ.Meets c r κ') (htable : κ.table.Fit)
    (hresults : ∀ r ∈ κ.results, IsStatus r.2) (hc : c.Proper names) : c.Fits r := by
  cases h with
  | job happly => exact (htable.apply happly hc).2
  | fork b id => trivial
  | result id =>
    intro code hcode
    obtain ⟨front, back, heq, -⟩ := List.lookup_eq_some_iff.1 hcode
    exact hresults (id, code) (by simp [heq])
  | reap looks hlooks => trivial
  | outside _ hr => exact hr

/-- What is asked properly leaves a sound crew. -/
lemma Sound.meets {κ κ' : Crew} (h : κ.Sound names) {c : Call} {r : Reply c}
    (hmeets : κ.Meets c r κ') (hc : c.Proper names) : κ'.Sound names := by
  cases hmeets with
  | job happly => exact { h with table := (h.table.apply happly hc).1 }
  | fork b id =>
    refine { h with threads := fun th hth => ?_ }
    rcases List.mem_append.1 hth with hth | hth
    · exact h.threads th hth
    · rw [List.mem_singleton.1 hth]
      exact Body.act_sound hc
  | result id => exact h
  | reap looks hlooks =>
    refine { h with table := h.table.settleAll fun look hlook code hcode => ?_ }
    obtain ⟨e, he, hnamed⟩ := hlooks look hlook code hcode
    exact he.isStatus_of_named hnamed
  | outside _ _ => exact h

/-- A thread in the place of another. -/
lemma forall_mem_replaced {α : Type} {P : α → Prop} {front back : List α} {a b : α}
    (h : ∀ x ∈ front ++ a :: back, P x) (hb : P b) : ∀ x ∈ front ++ b :: back, P x := by
  intro x hx
  simp only [List.mem_append, List.mem_cons] at hx h
  rcases hx with hx | rfl | hx
  · exact h x (.inl hx)
  · exact hb
  · exact h x (.inr (.inr hx))

/-- **One step keeps a crew sound.** -/
lemma Sound.step {κ κ' : Crew} (h : κ.Sound names) (hstep : κ.Step κ') : κ'.Sound names := by
  cases hstep with
  | @line c next r _ hline hmeets =>
    have hrest := h.line
    rw [hline] at hrest
    have hr : c.Fits r := hmeets.fits h.table h.results hrest.1
    have hκ : Crew.Sound names { κ with line := next r } := { h with line := hrest.2 r hr }
    exact hκ.meets hmeets hrest.1
  | @thread front back id c next r _ hthreads hmeets =>
    have hall := hthreads ▸ h.threads
    have hth : (Act.call c next).Sound names IsStatus := hall (id, .call c next) (by simp)
    have hr : c.Fits r := hmeets.fits h.table h.results hth.1
    have hκ : Crew.Sound names { κ with threads := front ++ (id, next r) :: back } :=
      { h with threads := forall_mem_replaced hall (hth.2 r hr) }
    exact hκ.meets hmeets hth.1
  | @becomes front back id b next hthreads =>
    have hall := hthreads ▸ h.threads
    have hb : b.Proper names := (hall (id, .call (.become b) next) (by simp)).1
    exact { h with threads := forall_mem_replaced hall (Body.act_sound hb) }
  | @ends front back id code hthreads =>
    have hall := hthreads ▸ h.threads
    have hcode : IsStatus code := hall (id, .done code) (by simp)
    refine { h with
      threads := fun th hth => hall th ?_
      results := List.forall_mem_cons.2 ⟨hcode, h.results⟩ }
    simp only [List.mem_append, List.mem_cons] at hth ⊢
    exact hth.imp_right .inr
  | listens id =>
    refine { h with threads := fun th hth => ?_ }
    rcases List.mem_append.1 hth with hth | hth
    · exact h.threads th hth
    · rw [List.mem_singleton.1 hth]
      exact Body.act_sound (b := .listener) trivial
  | @next code s line streams hline =>
    have hover := h.line
    rw [hline] at hover
    exact { h with line := Session.runLine_sound line streams hover.2 }

/-- Whatever happens, a crew stays sound. -/
lemma Sound.leads {κ κ' : Crew} (h : κ.Sound names) (hleads : κ.Leads κ') : κ'.Sound names := by
  induction hleads with
  | refl => exact h
  | tail _ hstep ih => exact ih.step hstep

/-- **Sessions stay well formed.**  Lines run one after the other, the first on a session with a
status between 0 and 255, no request to exit and an absolute directory; beside them runs whatever
they start, in any order.  As long as processes end with a status between 0 and 255 or by a signal
from 1 to 64, each line ends with a status between 0 and 255, and the session behind it has such a
status, at most a request to exit with one, an absolute directory, and no variable that was not
there at the start but those with valid names.

**Proof sketch.** Every tree of requests that runs is sound (`Session.runLine_sound`,
`Body.act_sound`), and the codes in the table and of the threads that have ended are statuses.  A
step keeps this: a request that a sound tree makes is proper, so what meets it fits. -/
theorem line_wellFormed {table : JobTable} (htable : table.Fit) {s : Session}
    (hstatus : IsStatus s.status) (hexit : s.exitRequested = none)
    (hcwd : Path.isAbsolute s.cwd = true) {line : String} {streams : Streams} {κ : Crew}
    (h : (begin table line streams s).Leads κ) {code : Int} {s' : Session}
    (hover : κ.line = .done (code, s')) :
    IsStatus code ∧ s'.WellFormed (s.env.pairs.map Prod.fst) := by
  have hs : s.WellFormed (s.env.pairs.map Prod.fst) :=
    ⟨hstatus, by simp [hexit], hcwd, fun p hp => .inl (List.mem_map.2 ⟨p, hp, rfl⟩)⟩
  have hbegin : (begin table line streams s).Sound (s.env.pairs.map Prod.fst) :=
    ⟨htable, by simp [begin], by simp [begin], Session.runLine_sound line streams hs⟩
  have hend := (hbegin.leads h).line
  rw [hover] at hend
  exact hend

/-- Follow a line that nothing runs beside: the table answers what is asked of it, and looks around
find nothing. -/
def alone {α : Type} : JobTable → Act α → Option (JobTable × α)
  | t, .done a => some (t, a)
  | t, .call (.job op) next => match t.apply op with
    | some (r, t) => alone t (next r)
    | none => none
  | t, .call .view next => alone t (next default)
  | _, .call _ _ => none

lemma leads_alone {t t' : JobTable} {line : Act (Int × Session)} {r : Int × Session}
    (h : alone t line = some (t', r)) : Leads ⟨t, [], [], line⟩ ⟨t', [], [], .done r⟩ := by
  induction line generalizing t with
  | done a =>
    cases h
    exact .refl
  | call c next ih =>
    cases c with
    | job op =>
      simp only [alone] at h
      split at h
      case h_1 r t happly => exact .head (.line rfl (.job happly)) (ih r h)
      case h_2 => cases h
    | view => exact .head (.line rfl (.outside rfl trivial)) (ih default h)
    | _ => cases h

/-- The session behind `X=1`. -/
def assigned : Session := (Session.new "/" .empty).setVar "X" "1"

/-- Well-formedness at the lines `X=1` and `exit -1`: the second ends with 255. -/
theorem line_wellFormed_exit_negative :
    ∃ κ s', (begin .empty "X=1" .inherit (.new "/" .empty)).Leads κ ∧ κ.line = .done (255, s') ∧
      s'.exitRequested = some 255 ∧ IsStatus 255 ∧ s'.WellFormed ["PWD"] := by
  have hfirst : alone .empty ((Session.new "/" .empty).runLine "X=1" .inherit) =
      some (.empty, 0, assigned) := by decide +kernel
  have hsecond : alone .empty (assigned.runLine "exit -1" .inherit) =
      some (.empty, 255, { assigned with status := 255, exitRequested := some 255 }) := by
    decide +kernel
  have hnext : Step ⟨.empty, [], [], .done (0, assigned)⟩
      ⟨.empty, [], [], assigned.runLine "exit -1" .inherit⟩ := .next "exit -1" .inherit rfl
  have hleads : (begin .empty "X=1" .inherit (.new "/" .empty)).Leads
      ⟨.empty, [], [], .done (255, { assigned with status := 255, exitRequested := some 255 })⟩ :=
    ((leads_alone hfirst).tail hnext).trans (leads_alone hsecond)
  have hcwd : Path.isAbsolute (Session.new "/" .empty).cwd = true := by decide +kernel
  exact ⟨_, _, hleads, rfl, rfl,
    line_wellFormed JobTable.fit_empty (by decide) rfl hcwd hleads rfl⟩

end Crew

end Conch
