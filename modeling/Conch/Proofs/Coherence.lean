import Conch.Proofs.Isolation

/-!
# The status of a command and of its session

A command ends with a status and leaves a session, and the session has something to say about the
status itself: `$?` is the status of the last pipeline, and a request to exit names the status to
end with.  Behind every command that starts without such a request the three agree, however its
pipelines nest and however the system answers.

## Main definitions

* `Session.Exits` — the session goes on or asks to exit with a given status.
* `Session.Agrees` — moreover `$?` is that status.

## Main results

* `Builtin.run_settled` — only `exit` asks to exit, and with the status it gives.
* `Pipeline.runStages_single` — a single stage that the shell runs itself is that stage.
* `Command.run_agrees` — the status of a command and that of its session agree.
-/

set_option autoImplicit false

namespace Conch

open Act (ask)

/-- The session goes on, or asks to exit with this status. -/
def Session.Exits (s : Session) (code : Int) : Prop :=
  s.exitRequested = none ∨ s.exitRequested = some code

/-- The status is what `$?` shows and what the session asks to exit with, if it does. -/
structure Session.Agrees (s : Session) (code : Int) : Prop where
  status : s.status = code
  exits : s.Exits code

/-! ## Builtins -/

namespace Builtin

/-- The result of a builtin and the session it leaves: the session goes on, or it asks to exit with
the result. -/
def Settled (result : Except ShellError Int) (s : Session) : Prop :=
  s.exitRequested = none ∨ ∃ code, result = .ok code ∧ s.exitRequested = some code

/-- An outcome after which the session goes on or asks to exit with the result, and which asks for
nothing before its last text is written. -/
structure Outcome.Settles (o : Outcome) : Prop where
  settled : Settled o.result o.session
  goesOn : ∀ w ∈ o.writes, w.session.exitRequested = none

lemma silent_settles {s : Session} (hs : s.exitRequested = none) (result : Except ShellError Int) :
    (silent s result).Settles :=
  ⟨.inl hs, by simp [silent]⟩

lemma prints_settles {s : Session} (hs : s.exitRequested = none) (text : String) :
    (prints s text).Settles :=
  ⟨.inl hs, by simp [prints, hs]⟩

lemma exitRequested_changeDir {s s' : Session} {t : FileTree} {target : String}
    (h : s.changeDir t target = .ok s') : s'.exitRequested = s.exitRequested := by
  unfold Session.changeDir at h
  cases hdir : t.canonical (s.resolve target) with
  | error e => simp [hdir, bind, Except.bind] at h
  | ok dir =>
    simp only [hdir, bind, Except.bind, pure, Except.pure, Except.ok.injEq] at h
    rw [← h]

lemma moveTo_settles {s : Session} (hs : s.exitRequested = none) (v : View) (target : String) :
    (moveTo s v target).Settles := by
  unfold moveTo
  split
  case h_1 s' h => exact silent_settles ((exitRequested_changeDir h).trans hs) _
  case h_2 => exact silent_settles hs _

lemma runCd_settles {s : Session} (hs : s.exitRequested = none) (v : View) (args : List String) :
    (runCd s v args).Settles := by
  unfold runCd
  split
  · split
    · exact moveTo_settles hs v _
    · exact silent_settles hs _
  · split
    · exact ⟨(moveTo_settles hs v _).settled, by simp [hs]⟩
    · exact silent_settles hs _
  · exact moveTo_settles hs v _

lemma runExit_settles {s : Session} (hs : s.exitRequested = none) (args : List String) :
    (runExit s args).Settles := by
  unfold runExit
  split
  · exact ⟨.inr ⟨_, rfl, rfl⟩, by simp [silent]⟩
  · split
    · exact ⟨.inr ⟨_, rfl, rfl⟩, by simp [silent]⟩
    · exact silent_settles hs _

lemma exitRequested_exportOne {s s' : Session} {arg : String} (h : exportOne s arg = some s') :
    s'.exitRequested = s.exitRequested := by
  unfold exportOne at h
  split at h
  · split at h <;> cases h
    rfl
  · split at h
    · cases h
      split <;> rfl
    · cases h

lemma exportAll_settles {s : Session} (hs : s.exitRequested = none) (status : Int)
    (args : List String) : (exportAll s status args).Settles := by
  induction args generalizing s status with
  | nil => exact silent_settles hs _
  | cons arg rest ih =>
    rw [exportAll]
    split
    case h_1 s' h => exact ih ((exitRequested_exportOne h).trans hs) status
    case h_2 =>
      obtain ⟨hsettled, hwrites⟩ := ih hs 1
      exact ⟨hsettled, by simpa [hs] using hwrites⟩

lemma exitRequested_foldl_unsetVar (s : Session) (names : List String) :
    (names.foldl Session.unsetVar s).exitRequested = s.exitRequested := by
  induction names generalizing s with
  | nil => rfl
  | cons name rest ih => exact ih _

/-- Every builtin that does not deal with jobs settles: only `exit` asks to exit, and with the
status it gives. -/
lemma outcome_settles {b : Builtin} {args : List String} {s : Session} {v : View} {o : Outcome}
    (hs : s.exitRequested = none) (h : b.outcome args s v = some o) : o.Settles := by
  cases b <;> cases h
  case cd => exact runCd_settles hs v args
  case echo =>
    unfold runEcho
    split <;> exact prints_settles hs _
  case exit => exact runExit_settles hs args
  case exportVars =>
    unfold runExport
    split
    · exact prints_settles hs _
    · exact exportAll_settles hs 0 args
  case fail => exact silent_settles hs _
  case help => exact prints_settles hs _
  case pwd => exact prints_settles hs _
  case succeed => exact silent_settles hs _
  case typeOf => exact ⟨.inl hs, by simp [runType, hs]⟩
  case unset => exact silent_settles ((exitRequested_foldl_unsetVar s args).trans hs) _

/-- A text that cannot be written ends a builtin before it asks for anything. -/
lemma perform_settled (streams : Streams) {o : Outcome} (ho : Settled o.result o.session)
    {ws : List Write} (hws : ∀ w ∈ ws, w.session.exitRequested = none) :
    (perform streams o ws).Ensures fun _ r => Settled r.1 r.2 := by
  induction ws with
  | nil => simpa [perform] using ho
  | cons w rest ih =>
    refine Act.ensures_behind fun written => ?_
    cases written with
    | ok u => exact ih fun w hw => hws w (by simp [hw])
    | error e => exact Act.ensures_pure.2 (.inl (hws w (by simp)))

/-- The builtin deals with jobs. -/
def isJobControl : Builtin → Bool
  | bg | fg | jobs => true
  | _ => false

/-- A builtin that does not deal with jobs looks around once and does what it decides then. -/
lemma run_of_not_isJobControl {b : Builtin} (hb : b.isJobControl = false) (args : List String)
    (streams : Streams) (s : Session) :
    b.run args streams s = do
      let v ← ask .view
      match b.outcome args s v with
      | some o => perform streams o o.writes
      | none => return (.ok 0, s) := by
  cases b <;> first | rfl | cases hb

/-- A builtin that deals with jobs leaves the session alone. -/
lemma run_of_isJobControl {b : Builtin} (hb : b.isJobControl = true) (args : List String)
    (streams : Streams) (s : Session) :
    ∃ x : Act (Except ShellError Int), b.run args streams s = do return (← x, s) := by
  cases b <;> first | exact ⟨_, rfl⟩ | cases hb

lemma run_settled (b : Builtin) (args : List String) (streams : Streams) {s : Session}
    (hs : s.exitRequested = none) :
    (b.run args streams s).Ensures fun _ r => Settled r.1 r.2 := by
  cases hb : b.isJobControl with
  | true =>
    obtain ⟨x, hx⟩ := run_of_isJobControl hb args streams s
    rw [hx]
    exact Act.ensures_behind fun _ => Act.ensures_pure.2 (.inl hs)
  | false =>
    rw [run_of_not_isJobControl hb]
    refine Act.ensures_behind fun v => ?_
    split
    case h_1 o ho =>
      obtain ⟨hsettled, hwrites⟩ := outcome_settles hs ho
      exact perform_settled streams hsettled hwrites
    case h_2 => exact Act.ensures_pure.2 (.inl hs)

end Builtin

/-! ## Stages -/

/-- What a nested command has to do with its session: if it may go on, the command leaves it so,
or asks to exit with its own status. -/
def Nested.Exits (nested : Nested) : Prop :=
  ∀ streams s, s.exitRequested = none → (nested streams s).Ensures fun _ r => r.2.Exits r.1

namespace Stage

lemma runBuiltin_exits (b : Builtin) (argv : List String) (streams : Streams) {s : Session}
    (hs : s.exitRequested = none) :
    (runBuiltin b argv streams s).Ensures fun _ r => r.2.Exits r.1 := by
  refine (b.run_settled argv.tail streams hs).bind fun _ r hr => ?_
  rcases r with ⟨e | code, s'⟩
  · have hgoesOn : s'.exitRequested = none := by simpa [Builtin.Settled] using hr
    exact Act.ensures_behind fun _ => Act.ensures_pure.2 (.inl hgoesOn)
  · refine Act.ensures_pure.2 (hr.imp_right ?_)
    rintro ⟨_, ⟨⟩, hcode⟩
    exact hcode

lemma runInside_exits (action : Action) (copied : Bool) {nested : Nested} (hnested : nested.Exits)
    (streams : Streams) {s : Session} (hs : s.exitRequested = none) :
    (runInside action copied nested streams s).Ensures fun _ r => r.2.Exits r.1 := by
  cases action with
  | program argv vars => exact Act.ensures_pure.2 (.inl hs)
  | builtin b argv =>
    refine (runBuiltin_exits b argv streams hs).bind fun _ r hr => ?_
    cases copied with
    | true => exact Act.ensures_pure.2 (.inl hs)
    | false => exact Act.ensures_pure.2 hr
  | assign vars => cases copied <;> exact Act.ensures_pure.2 (.inl hs)
  | nested body copy =>
    refine Act.ensures_behind fun shared => ?_
    refine (hnested _ s hs).bind fun _ r hr => ?_
    refine Act.ensures_behind fun _ => ?_
    refine Act.ensures_behind fun _ => ?_
    cases copied || copy with
    | true => exact Act.ensures_pure.2 (.inl hs)
    | false => exact Act.ensures_pure.2 hr

end Stage

namespace Pipeline

/-- The status of a pipeline of one stage is that of the stage. -/
lemma exitCode_singleton (pipefail : Bool) (code : Int) : exitCode pipefail [code] = code := by
  unfold exitCode
  by_cases hcode : code = 0 <;> simp [hcode]

section Stages

variable (line : String) (nested : Nested) (streams : Streams) (s : Session)

/-- A single stage that the shell runs itself is run on the spot, on the session itself. -/
lemma launch_single (isolate : Bool) {stage : Stage} (h : stage.action.isProgram = false) :
    launch isolate nested [stage] streams s = do
      let r ← Stage.runInside stage.action false nested (stage.redirects.apply streams) s
      return ⟨[.finished r.1], [], none, r.2⟩ := by
  have hone := launchOne_inside isolate false nested (stage.redirects.apply streams) h true
    ⟨[], [], none, s⟩
  calc launch isolate nested [stage] streams s
      = launchOne isolate false true nested stage (stage.redirects.apply streams)
          ⟨[], [], none, s⟩ >>= pure := rfl
    _ = _ := by rw [bind_pure, hone]; rfl

/-- **A pipeline of a single stage that the shell runs itself is that stage.**  Its status is
computed from a list of one code. -/
lemma runStages_single {stage : Stage} (h : stage.action.isProgram = false) :
    runStages line nested [stage] streams s =
      Stage.runInside stage.action false nested (stage.redirects.apply streams) s := by
  have hconclude (r : Int × Session) :
      conclude line s ⟨[.finished r.1], [], none, r.2⟩ = pure r.1 := by
    simp [conclude, Launched.pids, Jobs.joinAll, stageCodes, exitCode_singleton]
  rw [runStages_eq, launch_single nested streams s _ h]
  simp only [bind_assoc, pure_bind, hconclude]
  exact bind_pure _

variable {nested streams s}

/-- Only a pipeline of a single stage that the shell runs itself can ask to exit. -/
lemma runStages_exits (hnested : nested.Exits) (hs : s.exitRequested = none)
    (stages : List Stage) :
    (runStages line nested stages streams s).Ensures fun _ r => r.2.Exits r.1 := by
  by_cases hcopies : OnCopies stages
  · refine (runStages_session line nested streams s hcopies).mono fun _ r hr => .inl ?_
    rw [hr, hs]
  · match stages, hcopies with
    | [], hcopies => simp [OnCopies] at hcopies
    | [stage], hcopies =>
      have hinside : stage.action.isProgram = false := by
        by_contra hprogram
        have hapart := Action.isApart_of_isProgram (by simpa using hprogram)
        exact hcopies (.inr (by simpa using hapart))
      rw [runStages_single line nested streams s hinside]
      exact Stage.runInside_exits stage.action false hnested _ hs
    | _ :: _ :: _, hcopies => simp [OnCopies] at hcopies

/-- A pipeline that asks to exit asks for its own status. -/
lemma run_exits_of_nested (p : Pipeline) (hnested : Nested.Exits (Element.runLast p.elements))
    (hs : s.exitRequested = none) : (p.run streams s).Ensures fun _ r => r.2.Exits r.1 := by
  rw [run_eq]
  refine Act.ensures_behind fun plan => ?_
  rcases plan with e | (_ | ⟨stage, stages⟩)
  · exact Act.ensures_behind fun _ => Act.ensures_pure.2 (.inl hs)
  · exact Act.ensures_pure.2 (.inl hs)
  · cases hbackground : p.background with
    | true =>
      refine (proceed_background_session _ _ s hbackground).mono fun _ r hr => .inl ?_
      rw [hr]
      split <;> exact hs
    | false =>
      simp only [proceed, hbackground, Bool.false_eq_true, if_false]
      exact held_ensures (runStages_exits _ hnested hs _) s

end Stages

end Pipeline

/-! ## Commands -/

mutual

/-- **The status of a command and that of its session agree**, if the session may go on at
first.

**Proof sketch.** Induction on the tree of the command.  A pipeline does not set `$?` itself, so
of pipelines and of what they nest only `Exits` is known; the block behind the pipeline sets `$?`,
which makes it `Agrees`, and chains and lists of blocks pass that on. -/
theorem Command.run_agrees (streams : Streams) :
    ∀ (c : Command) (s : Session), s.exitRequested = none →
      (c.run streams s).Ensures fun _ r => r.2.Agrees r.1
  | ⟨blocks⟩, s, hs => Block.runAll_agrees streams blocks s hs

theorem Block.runAll_agrees (streams : Streams) :
    ∀ (blocks : List Block) (s : Session), s.exitRequested = none →
      (Block.runAll blocks streams s.status s).Ensures fun _ r => r.2.Agrees r.1
  | [], s, hs => Act.ensures_pure.2 ⟨rfl, .inl hs⟩
  | b :: rest, s, hs => by
    refine (Block.run_agrees streams b s hs).bind fun _ r hr => ?_
    obtain ⟨status, s'⟩ := r
    obtain ⟨hstatus, hexits⟩ := hr
    change s'.status = status at hstatus
    cases hrequest : s'.exitRequested with
    | some code =>
      have hcode : status = code := by simpa [Session.Exits, hrequest, eq_comm] using hexits
      simp only [hrequest, Act.ensures_pure]
      exact ⟨hstatus.trans hcode, .inr hrequest⟩
    | none =>
      simp only [hrequest, ← hstatus]
      exact Block.runAll_agrees streams rest s' hrequest

theorem Block.run_agrees (streams : Streams) :
    ∀ (b : Block) (s : Session), s.exitRequested = none →
      (b.run streams s).Ensures fun _ r => r.2.Agrees r.1
  | ⟨first, rest⟩, s, hs =>
    (Pipeline.run_exits streams first s hs).bind fun _ r hr =>
      Link.runAll_agrees streams rest r.1 { r.2 with status := r.1 } ⟨rfl, hr⟩

theorem Link.runAll_agrees (streams : Streams) :
    ∀ (links : List Link) (status : Int) (s : Session), s.Agrees status →
      (Link.runAll links streams status s).Ensures fun _ r => r.2.Agrees r.1
  | [], status, s, hs => Act.ensures_pure.2 hs
  | ⟨connector, pipeline⟩ :: rest, status, s, hs => by
    rw [Link.runAll]
    cases hrequest : s.exitRequested with
    | some code => exact Act.ensures_pure.2 hs
    | none =>
      simp only [Option.isSome_none, Bool.false_eq_true, if_false]
      split
      · refine (Pipeline.run_exits streams pipeline s hrequest).bind fun _ r hr => ?_
        exact Link.runAll_agrees streams rest r.1 { r.2 with status := r.1 } ⟨rfl, hr⟩
      · exact Link.runAll_agrees streams rest status s hs

theorem Pipeline.run_exits (streams : Streams) :
    ∀ (p : Pipeline) (s : Session), s.exitRequested = none →
      (p.run streams s).Ensures fun _ r => r.2.Exits r.1
  | ⟨elements, background⟩, _, hs =>
    Pipeline.run_exits_of_nested ⟨elements, background⟩ (Element.runLast_exits elements) hs

theorem Element.runLast_exits : ∀ elements, Nested.Exits (Element.runLast elements)
  | [], _, _, hs => Act.ensures_pure.2 (.inl hs)
  | [.simple c], _, _, hs => Act.ensures_pure.2 (.inl hs)
  | [.subshell body], streams, s, hs =>
    (Command.run_agrees streams body s hs).mono fun _ _ h => h.exits
  | [.group body], streams, s, hs =>
    (Command.run_agrees streams body s hs).mono fun _ _ h => h.exits
  | _ :: e :: rest, streams, s, hs => by
    simpa [Element.runLast] using Element.runLast_exits (e :: rest) streams s hs

end

end Conch
