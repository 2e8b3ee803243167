import Conch.Proofs.Coherence
import Conch.Proofs.RoundTrip

/-!
# Groups are transparent, subshells are copies

To put a command in braces makes no difference, and to put it in parentheses only keeps the session
from the command.  The nested command does ask the system for more than its body: around the body
it takes the foreground pointer and gives it back, so that every pipeline inside finds the pointer
taken.  But nothing depends on what is said about the pointer.  So the two runs are compared up to
it: in systems that answer all other requests alike, both go through the same other requests and
come to the same end.

## Main definitions

* `Conch.visible` — the exchanges that are not about the foreground pointer.
* `Act.Answers.Alike` — systems that answer alike, apart from the pointer.
* `Act.Alike` — trees that ask the same and end the same, apart from the pointer;
  `Act.Discreet` — a tree that is alike itself, whatever it is told about the pointer.

## Main results

* `Act.Alike.play_eq` — alike trees in alike systems come to the same end.
* `Pipeline.held_alike` — to hold the pointer meanwhile makes no difference.
* `Command.run_discreet` — nothing that a command does depends on the pointer.
* `Command.run_nested_alike` — a nested command is like its body.
* `Command.run_group_subshell` — groups are transparent and subshells are copies.
-/

set_option autoImplicit false

namespace Conch

open Act (ask jobs)

/-! ## The foreground pointer -/

/-- The exchanges that do not take or give back the foreground pointer. -/
def visible (tr : List Exchange) : List Exchange := tr.filter (!·.1.isHold)

lemma visible_concat_of_isHold {c : Call} (h : c.isHold = true) (r : Reply c)
    (tr : List Exchange) : visible (tr ++ [⟨c, r⟩]) = visible tr := by
  simp [visible, h]

lemma visible_concat (c : Call) (r : Reply c) {tr tr' : List Exchange}
    (htr : visible tr = visible tr') :
    visible (tr ++ [⟨c, r⟩]) = visible (tr' ++ [⟨c, r⟩]) := by
  simpa [visible] using htr

namespace Act

variable {α β : Type}

/-- Two systems that answer alike as long as what they were asked before is alike, whatever they
say about the foreground pointer; and about that they do say something. -/
structure Answers.Alike (A A' : Answers) : Prop where
  /-- Alike histories get the same answer. -/
  answers : ∀ past past' c, c.isHold = false → visible past = visible past' → A past c = A' past' c
  holds : ∀ past c, c.isHold = true → ∃ r, A past c = some r
  holds' : ∀ past c, c.isHold = true → ∃ r, A' past c = some r

/-- What is done to the value at the end shows only there. -/
lemma play_map (A : Answers) (past : List Exchange) (x : Act α) (f : α → β) :
    (x >>= fun a => pure (f a)).play A past =
      ((x.play A past).1, (x.play A past).2.map f) := by
  induction x generalizing past with
  | done a => rfl
  | call c next ih =>
    rw [call_bind, play, play]
    split
    case h_1 r _ => exact ih r _
    case h_2 => rfl

/-- Two trees that ask the same and end the same, apart from the foreground pointer: nothing
depends on how often they take it and what they are told about it. -/
inductive Alike : Act α → Act α → Prop where
  | done (a : α) : Alike (.done a) (.done a)
  | call {c : Call} {next next' : Reply c → Act α} (hc : c.isHold = false)
      (h : ∀ r, Alike (next r) (next' r)) : Alike (.call c next) (.call c next')
  | left {c : Call} {next : Reply c → Act α} {y : Act α} (hc : c.isHold = true)
      (h : ∀ r, Alike (next r) y) : Alike (.call c next) y
  | right {c : Call} {x : Act α} {next : Reply c → Act α} (hc : c.isHold = true)
      (h : ∀ r, Alike x (next r)) : Alike x (.call c next)

namespace Alike

lemma symm {x y : Act α} (h : Alike x y) : Alike y x := by
  induction h with
  | done a => exact .done a
  | call hc _ ih => exact .call hc ih
  | left hc _ ih => exact .right hc ih
  | right hc _ ih => exact .left hc ih

/-- Alike trees behind alike trees. -/
lemma bind {x y : Act α} {f g : α → Act β} (h : Alike x y) (hf : ∀ a, Alike (f a) (g a)) :
    Alike (x >>= f) (y >>= g) := by
  induction h with
  | done a => exact hf a
  | call hc _ ih => exact .call hc ih
  | left hc _ ih => exact .left hc ih
  | right hc _ ih => exact .right hc ih

/-- **Alike trees in alike systems** are followed to the same end through the same visible
exchanges. -/
lemma play_eq {A A' : Answers} (hA : A.Alike A') {x y : Act α} (h : Alike x y)
    {past past' : List Exchange} (hpast : visible past = visible past') :
    visible (x.play A past).1 = visible (y.play A' past').1 ∧
      (x.play A past).2 = (y.play A' past').2 := by
  -- the two histories may drift apart, but only in what is not visible
  induction h generalizing past past' with
  | done a => exact ⟨hpast, rfl⟩
  | @call c next next' hc _ ih =>
    rw [play, play, hA.answers past past' c hc hpast]
    split
    case h_1 r _ => exact ih r (visible_concat c r hpast)
    case h_2 => exact ⟨hpast, rfl⟩
  | @left c next y hc _ ih =>
    obtain ⟨r, hr⟩ := hA.holds past c hc
    rw [play, hr]
    exact ih r ((visible_concat_of_isHold hc r past).trans hpast)
  | @right c x next hc _ ih =>
    obtain ⟨r, hr⟩ := hA.holds' past' c hc
    rw [play, hr]
    exact ih r (hpast.trans (visible_concat_of_isHold hc r past').symm)

end Alike

/-- Nothing that the tree does depends on the foreground pointer. -/
abbrev Discreet (x : Act α) : Prop := Alike x x

/-- Plain requests do not concern the pointer. -/
lemma Asks.discreet {x : Act α} (h : x.IsPlain) : Discreet x := by
  induction x with
  | done a => exact .done a
  | call c next ih =>
    have hc : c.isHold = false := by
      cases c with
      | spawn s => rfl
      | _ => simpa [Call.isPlain] using h.1
    exact .call hc fun r => ih r (h.2 r)

/-- What follows when the pointer has been taken, whatever each side was told about it. -/
lemma Alike.seize {job job' : Option JobId} {pids pids' : List Pid} {f g : Hold → Act α}
    (h : ∀ hold hold', Alike (f hold) (g hold')) :
    Alike (jobs (.seize job pids) >>= f) (jobs (.seize job' pids') >>= g) :=
  .left rfl fun hold => .right rfl fun hold' => h hold hold'

/-- The pointer is given back at the end. -/
lemma Alike.yieldBack (hold hold' : Hold) (a : α) :
    Alike (do jobs (.yieldBack hold); return a) (do jobs (.yieldBack hold'); return a) :=
  .left rfl fun _ => .right rfl fun _ => .done a

end Act

open Act (Alike Discreet)

/-! ## Job control -/

namespace Jobs

lemma collectAll_isPlain (pids : List Pid) : (collectAll pids).IsPlain := by
  induction pids with
  | nil => trivial
  | cons pid rest ih => exact ⟨rfl, fun _ => ih.bind fun _ => trivial⟩

lemma runInJob_isPlain (id : JobId) (s : Started) : (runInJob id s).IsPlain := by
  refine ⟨rfl, fun _ => ⟨rfl, fun _ => (collectAll_isPlain _).bind fun _ => ?_⟩⟩
  exact (joinAll_isPlain _).bind fun _ => ⟨rfl, fun _ => trivial⟩

lemma background_isPlain (id : JobId) : (background id).IsPlain := by
  refine ⟨rfl, fun target => ?_⟩
  cases target with
  | none => trivial
  | some target =>
    refine ⟨rfl, fun sent => ?_⟩
    cases sent with
    | error e => exact ⟨rfl, fun _ => trivial⟩
    | ok u => trivial

lemma runForeground_discreet (line : String) (s : Started) : Discreet (runForeground line s) := by
  refine .seize fun hold hold' => .call rfl fun ended => ?_
  rcases ended with e | (_ | code)
  · exact .yieldBack hold hold' _
  · refine (register_isPlain ..).discreet.bind fun id => .call rfl fun _ => ?_
    exact .yieldBack hold hold' _
  · refine (collectAll_isPlain _).discreet.bind fun siblings => ?_
    exact (joinAll_isPlain _).discreet.bind fun _ => .yieldBack hold hold' _

lemma foreground_discreet (id : JobId) : Discreet (foreground id) := by
  refine .call rfl fun found => ?_
  rcases found with _ | ⟨target, _ | pid⟩
  · exact .done _
  · refine .seize fun hold hold' => .call rfl fun sent => ?_
    cases sent <;> exact .call rfl fun _ => .yieldBack hold hold' _
  · refine .call rfl fun _ => .seize fun hold hold' => .call rfl fun sent => ?_
    cases sent <;> exact .call rfl fun _ => .yieldBack hold hold' _

end Jobs

/-! ## Builtins -/

namespace Builtin

lemma writeTo_isPlain (streams : Streams) (outlet : Outlet) (text : String) :
    (writeTo streams outlet text).IsPlain := by
  unfold writeTo
  split
  · trivial
  · refine (Act.tell_isPlain ..).bind fun written => ?_
    cases written <;> trivial

lemma perform_isPlain (streams : Streams) (o : Outcome) (ws : List Write) :
    (perform streams o ws).IsPlain := by
  induction ws with
  | nil => trivial
  | cons w rest ih =>
    refine (writeTo_isPlain streams w.outlet w.text).bind fun written => ?_
    cases written with
    | ok u => exact ih
    | error e => trivial

lemma jobOperand_isPlain (args : List String) : (jobOperand args).IsPlain := by
  cases args with
  | nil =>
    refine ⟨rfl, fun current => ?_⟩
    cases current <;> trivial
  | cons arg rest => trivial

lemma runJobs_isPlain (streams : Streams) : (runJobs streams).IsPlain := by
  refine ⟨rfl, fun _ => ⟨rfl, fun v => ⟨rfl, fun js => ?_⟩⟩⟩
  refine (writeTo_isPlain streams .out _).bind fun written => ?_
  cases written <;> trivial

lemma runBg_isPlain (streams : Streams) (args : List String) : (runBg streams args).IsPlain := by
  refine (jobOperand_isPlain args).bind fun operand => ?_
  cases operand with
  | error e => trivial
  | ok id =>
    refine ⟨rfl, fun job => ?_⟩
    cases job with
    | none => trivial
    | some job =>
      refine (Jobs.background_isPlain id).bind fun continued => ?_
      cases continued with
      | error e => trivial
      | ok u =>
        refine (writeTo_isPlain streams .out _).bind fun written => ?_
        cases written <;> trivial

lemma runFg_discreet (streams : Streams) (args : List String) :
    Discreet (runFg streams args) := by
  refine (jobOperand_isPlain args).discreet.bind fun operand => ?_
  cases operand with
  | error e => exact .done _
  | ok id =>
    refine .call rfl fun job => ?_
    cases job with
    | none => exact .done _
    | some job =>
      refine (writeTo_isPlain streams .out _).discreet.bind fun written => ?_
      cases written with
      | error e => exact .done _
      | ok u => exact Jobs.foreground_discreet id

lemma run_discreet (b : Builtin) (args : List String) (streams : Streams) (s : Session) :
    Discreet (b.run args streams s) := by
  cases hb : b.isJobControl with
  | false =>
    rw [run_of_not_isJobControl hb, Act.ask_bind]
    refine .call rfl fun v => ?_
    cases b.outcome args s v with
    | some o => exact (perform_isPlain streams o o.writes).discreet
    | none => exact .done _
  | true =>
    cases b with
    | jobs => exact (runJobs_isPlain streams).discreet.bind fun _ => .done _
    | fg => exact (runFg_discreet streams args).bind fun _ => .done _
    | bg => exact (runBg_isPlain streams args).discreet.bind fun _ => .done _
    | _ => cases hb

end Builtin

/-! ## Stages -/

/-- Whatever session and streams a nested command gets, it does not depend on the pointer. -/
def Nested.Discreet (nested : Nested) : Prop := ∀ streams s, Act.Discreet (nested streams s)

namespace Stage

lemma share_isPlain (src : Source) : (share src).IsPlain := by
  cases src with
  | text s => exact ⟨rfl, fun _ => ⟨rfl, fun _ => ⟨rfl, fun _ => trivial⟩⟩⟩
  | _ => trivial

lemma runBuiltin_discreet (b : Builtin) (argv : List String) (streams : Streams) (s : Session) :
    Discreet (runBuiltin b argv streams s) := by
  refine (b.run_discreet argv.tail streams s).bind fun r => ?_
  rcases r with ⟨e | code, s'⟩
  · exact (Act.tell_isPlain ..).discreet.bind fun _ => .done _
  · exact .done _

lemma runInside_discreet (action : Action) (copied : Bool) {nested : Nested}
    (hnested : nested.Discreet) (streams : Streams) (s : Session) :
    Discreet (runInside action copied nested streams s) := by
  cases action with
  | program argv vars => exact .done _
  | builtin b argv => exact (runBuiltin_discreet b argv streams s).bind fun _ => .done _
  | assign vars => exact .done _
  | nested body copy =>
    refine (share_isPlain streams.stdin).discreet.bind fun shared => ?_
    refine (hnested _ s).bind fun r => (closeAll_isPlain _).discreet.bind fun _ => ?_
    exact (Jobs.joinAll_isPlain _).discreet.bind fun _ => .done _

end Stage

/-! ## Pipelines -/

namespace Pipeline

lemma startProgram_discreet (argv : List String) (vars : List (String × String))
    (streams : Streams) (group : Option (Option Pid)) (s : Session) :
    Discreet (startProgram argv vars streams group s) := by
  unfold startProgram
  split
  · refine .call rfl fun p => .call rfl fun spawned => .call rfl fun _ => ?_
    cases spawned with
    | error e => exact .call rfl fun _ => .done _
    | ok r => exact .call rfl fun _ => .call rfl fun _ => .done _
  · exact .call rfl fun _ => .done _

lemma stageCodes_isPlain (stages : List Running) (codes : List Int) :
    (stageCodes stages codes).IsPlain := by
  induction stages generalizing codes with
  | nil => trivial
  | cons r rest ih =>
    cases r with
    | process pid => exact (ih _).bind fun _ => trivial
    | thread t => exact ⟨rfl, fun _ => (ih _).bind fun _ => trivial⟩
    | finished code => exact (ih _).bind fun _ => trivial

lemma startWorker_isPlain (line : String) (stages : List Stage) (streams : Streams)
    (s : Session) : (startWorker line stages streams s).IsPlain := by
  refine ⟨rfl, fun _ => ⟨rfl, fun _ => (Act.tell_isPlain ..).bind fun _ => ?_⟩⟩
  exact ⟨rfl, fun _ => trivial⟩

lemma await_discreet (job : Option JobId) (line : String) (started : Jobs.Started) :
    Discreet (await job line started) := by
  cases job with
  | none => exact Jobs.runForeground_discreet line started
  | some id => exact (Jobs.runInJob_isPlain id started).discreet

lemma conclude_discreet (line : String) (s : Session) (l : Launched) :
    Discreet (conclude line s l) := by
  unfold conclude
  split
  · refine (Jobs.joinAll_isPlain _).discreet.bind fun _ => ?_
    exact (stageCodes_isPlain ..).discreet.bind fun _ => .done _
  · refine (await_discreet ..).bind fun completion => ?_
    cases completion with
    | stopped id => exact .done _
    | exited code siblings => exact (stageCodes_isPlain ..).discreet.bind fun _ => .done _

section Launch

variable (isolate copied : Bool) (line : String) {nested : Nested} (hnested : nested.Discreet)
  (streams : Streams) (s : Session)
include hnested

lemma launchOne_discreet (isLast : Bool) (stage : Stage) (l : Launched) :
    Discreet (launchOne isolate copied isLast nested stage streams l) := by
  cases hprogram : stage.action.isProgram with
  | true =>
    obtain ⟨action, redirects⟩ := stage
    cases action with
    | program argv vars =>
      refine (startProgram_discreet ..).bind fun spawned => ?_
      cases spawned with
      | error e => exact (Sink.report_isPlain ..).discreet.bind fun _ => .done _
      | ok r => exact .done _
    | _ => cases hprogram
  | false =>
    rw [launchOne_inside isolate copied nested streams hprogram]
    cases isLast with
    | true => exact (Stage.runInside_discreet _ _ hnested _ _).bind fun _ => .done _
    | false => exact .call rfl fun _ => .done _

lemma launchFrom_discreet (stages : List Stage) (pipes : List PipeId) (input : Option PipeId)
    (l : Launched) : Discreet (launchFrom isolate copied nested streams stages pipes input l) := by
  induction stages generalizing pipes input l with
  | nil => exact .done _
  | cons stage rest ih =>
    refine (launchOne_discreet isolate copied hnested _ _ stage l).bind fun l' => ?_
    exact (closeAll_isPlain _).discreet.bind fun _ => ih _ _ l'

lemma launch_discreet (stages : List Stage) :
    Discreet (launch isolate nested stages streams s) :=
  (makePipes_isPlain _).discreet.bind fun _ => launchFrom_discreet _ _ hnested _ _ _ _ _

lemma runStages_discreet (stages : List Stage) :
    Discreet (runStages line nested stages streams s) := by
  rw [runStages_eq]
  refine (launch_discreet _ hnested streams s stages).bind fun l => ?_
  exact (conclude_discreet line s l).bind fun _ => .done _

lemma startBackground_discreet (stages : List Stage) :
    Discreet (startBackground line nested stages streams s) := by
  refine (launch_discreet _ hnested _ s stages).bind fun l => ?_
  cases l.pids.getLast? with
  | none => exact (Jobs.joinAll_isPlain _).discreet.bind fun _ => .done _
  | some primary =>
    refine (Jobs.register_isPlain ..).discreet.bind fun id => ?_
    exact (Act.tell_isPlain ..).discreet.bind fun _ => .done _

end Launch

/-- **To hold the pointer meanwhile makes no difference.** -/
lemma held_alike {α : Type} {x y : Act α} (h : Alike x y) (s : Session) : Alike (held s x) y := by
  unfold held
  split
  · exact h
  · refine .left rfl fun hold => ?_
    have hbind : Alike (x >>= fun a => do jobs (.yieldBack hold); return a) (y >>= pure) :=
      h.bind fun a => .left rfl fun _ => .done a
    rwa [bind_pure] at hbind

lemma run_discreet_of_nested (p : Pipeline)
    (hnested : Nested.Discreet (Element.runLast p.elements)) (streams : Streams) (s : Session) :
    Discreet (p.run streams s) := by
  rw [run_eq]
  refine (Element.planAll_isPlain s p.elements).discreet.bind fun plan => ?_
  rcases plan with e | (_ | ⟨stage, stages⟩)
  · exact (Sink.report_isPlain ..).discreet.bind fun _ => .done _
  · exact .done _
  · simp only [proceed, detach]
    split
    · split
      · exact (startBackground_discreet _ hnested streams s _).bind fun _ => .done _
      · exact (startWorker_isPlain ..).discreet.bind fun _ => .done _
    · have hstages := runStages_discreet p.commandLine hnested streams s (stage :: stages)
      exact held_alike (held_alike hstages s).symm s

end Pipeline

/-! ## Commands -/

mutual

/-- **Nothing that a command does depends on the foreground pointer.** -/
theorem Command.run_discreet (streams : Streams) :
    ∀ (c : Command) (s : Session), Discreet (c.run streams s)
  | ⟨blocks⟩, s => Block.runAll_discreet streams blocks s.status s

theorem Block.runAll_discreet (streams : Streams) :
    ∀ (blocks : List Block) (status : Int) (s : Session),
      Discreet (Block.runAll blocks streams status s)
  | [], _, _ => .done _
  | b :: rest, _, s => by
    refine (Block.run_discreet streams b s).bind fun r => ?_
    obtain ⟨status, s'⟩ := r
    cases hrequest : s'.exitRequested with
    | some code =>
      simp only [hrequest]
      exact .done _
    | none =>
      simp only [hrequest]
      exact Block.runAll_discreet streams rest status s'

theorem Block.run_discreet (streams : Streams) :
    ∀ (b : Block) (s : Session), Discreet (b.run streams s)
  | ⟨first, rest⟩, s =>
    (Pipeline.run_discreet streams first s).bind fun r =>
      Link.runAll_discreet streams rest r.1 { r.2 with status := r.1 }

theorem Link.runAll_discreet (streams : Streams) :
    ∀ (links : List Link) (status : Int) (s : Session),
      Discreet (Link.runAll links streams status s)
  | [], _, _ => .done _
  | ⟨connector, pipeline⟩ :: rest, status, s => by
    rw [Link.runAll]
    split
    · exact .done _
    · split
      · exact (Pipeline.run_discreet streams pipeline s).bind fun r =>
          Link.runAll_discreet streams rest r.1 { r.2 with status := r.1 }
      · exact Link.runAll_discreet streams rest status s

theorem Pipeline.run_discreet (streams : Streams) :
    ∀ (p : Pipeline) (s : Session), Discreet (p.run streams s)
  | ⟨elements, background⟩, s =>
    Pipeline.run_discreet_of_nested ⟨elements, background⟩ (Element.runLast_discreet elements)
      streams s

theorem Element.runLast_discreet : ∀ elements, Nested.Discreet (Element.runLast elements)
  | [], _, _ => .done _
  | [.simple _], _, _ => .done _
  | [.subshell body], streams, s => Command.run_discreet streams body s
  | [.group body], streams, s => Command.run_discreet streams body s
  | _ :: e :: rest, streams, s => by
    simpa [Element.runLast] using Element.runLast_discreet (e :: rest) streams s

end

/-! ## Nested commands -/

/-- A nested command as an element: with `copy` a subshell, else a group. -/
def Element.nested (copy : Bool) (body : Command) : Element :=
  if copy then .subshell body else .group body

/-- A nested command whose input is no given text runs with the streams it gets. -/
lemma Stage.runInside_nested {streams : Streams} (hstdin : ∀ text, streams.stdin ≠ .text text)
    (body : Command) (copy : Bool) (nested : Nested) (s : Session) :
    Stage.runInside (.nested body copy) false nested streams s = do
      let r ← nested streams s
      return (r.1, if copy then s else r.2) := by
  have hshare : Stage.share streams.stdin = pure (streams.stdin, [], []) := by
    unfold Stage.share
    split
    case h_1 text h => exact (hstdin text h).elim
    case h_2 => rfl
  simp only [Stage.runInside, hshare, pure_bind]
  rfl

/-- A pipeline that is nothing but a nested command. -/
lemma Pipeline.run_nested {streams : Streams} (hstdin : ∀ text, streams.stdin ≠ .text text)
    (copy : Bool) (c : Command) (s : Session) :
    Pipeline.run ⟨[.nested copy c], false⟩ streams s =
      Pipeline.held s do
        let r ← c.run streams s
        return (r.1, if copy then s else r.2) := by
  have hplan : Element.planAll s [.nested copy c] = pure (.ok [⟨.nested c copy, .none⟩]) := by
    cases copy <;> rfl
  have hbody : Element.runLast [.nested copy c] = c.run := by
    cases copy <;> rfl
  calc Pipeline.run ⟨[.nested copy c], false⟩ streams s
      = Pipeline.held s (Pipeline.runStages _ (Element.runLast [.nested copy c])
          [⟨.nested c copy, .none⟩] streams s) := by
        rw [Pipeline.run_eq, Pipeline.elements, hplan]
        rfl
    _ = _ := by
        rw [Pipeline.runStages_single _ _ _ _ rfl, hbody]
        exact congrArg (Pipeline.held s) (Stage.runInside_nested hstdin c copy c.run s)

namespace Command

/-- What a command of one pipeline makes of the status and the session of the pipeline: `$?` is the
status, and a request to exit takes its place. -/
def settle (r : Int × Session) : Int × Session :=
  (r.2.exitRequested.getD r.1, { r.2 with status := r.1 })

/-- Where status and session agree there is nothing to settle. -/
lemma settle_of_agrees {code : Int} {s : Session} (h : s.Agrees code) :
    settle (code, s) = (code, s) := by
  obtain ⟨rfl, hexits⟩ := h
  refine Prod.ext ?_ rfl
  rcases hexits with hnone | hsome
  · simp [settle, hnone]
  · simp [settle, hsome]

lemma run_ofElement (e : Element) (streams : Streams) (s : Session) :
    (ofElement e).run streams s = do
      let r ← Pipeline.run ⟨[e], false⟩ streams s
      return settle r := by
  calc (ofElement e).run streams s
      = (do
          let r ← Pipeline.run ⟨[e], false⟩ streams s
          return (r.1, { r.2 with status := r.1 })) >>= fun r =>
            match r.2.exitRequested with
            | some code => pure (code, r.2)
            | none => pure (r.1, r.2) := rfl
    _ = _ := by
        rw [bind_assoc]
        refine bind_congr fun r => ?_
        rw [pure_bind, settle]
        cases r.2.exitRequested <;> rfl

/-- **A nested command and its body** differ only in what they ask of the foreground pointer and,
for a subshell, in the session behind them.

**Proof sketch.** The pipeline is a single stage, so it is the body with the pointer held
meanwhile, and holding it makes no difference.  Behind the body, `$?` is set to its status and a
request to exit takes its place; as both agree with the status already, that changes nothing. -/
lemma run_nested_alike {streams : Streams} (hstdin : ∀ text, streams.stdin ≠ .text text)
    {s : Session} (hs : s.exitRequested = none) (copy : Bool) (c : Command) :
    Alike ((ofElement (.nested copy c)).run streams s) do
      let r ← c.run streams s
      return (r.1, if copy then { s with status := r.1 } else r.2) := by
  have hsettle : (do
        let r ← c.run streams s
        return settle (r.1, if copy then s else r.2)) = do
        let r ← c.run streams s
        return (r.1, if copy then { s with status := r.1 } else r.2) := by
    refine ((run_agrees streams c s hs).mono fun _ r hr => ?_).bind_congr
    cases copy with
    | true => simp [settle, hs]
    | false => exact congrArg pure (settle_of_agrees hr)
  have hbody : Discreet (do
      let r ← c.run streams s
      return (r.1, if copy then s else r.2)) :=
    (run_discreet streams c s).bind fun r => .done _
  have hheld := (Pipeline.held_alike hbody s).bind fun r => Alike.done (settle r)
  rw [run_ofElement, Pipeline.run_nested hstdin, ← hsettle]
  rwa [bind_assoc] at hheld

/-- **Groups are transparent and subshells are copies.**  If the session does not ask to exit and
the input is no given text, then in systems that answer alike a group ends as its body does, with
the same status and the same session, and a subshell ends with the same status and leaves the
session as it was but for `$?`, which is that status.  Both exchange with the system what the body
exchanges, apart from the foreground pointer; so they write the same and start the same.

**Proof sketch.** By `run_nested_alike` the trees are alike, and alike trees in alike systems are
followed to the same end (`Alike.play_eq`). -/
theorem run_group_subshell (c : Command) {streams : Streams}
    (hstdin : ∀ text, streams.stdin ≠ .text text) {s : Session} (hs : s.exitRequested = none)
    {A A' : Act.Answers} (hA : A.Alike A') :
    let body := (c.run streams s).play A' []
    let group := ((ofElement (.group c)).run streams s).play A []
    let subshell := ((ofElement (.subshell c)).run streams s).play A []
    (visible group.1 = visible body.1 ∧ group.2 = body.2) ∧
      visible subshell.1 = visible body.1 ∧
      subshell.2 = body.2.map fun r => (r.1, { s with status := r.1 }) := by
  intro body group subshell
  refine ⟨?_, ?_⟩
  · have hgroup : Alike ((ofElement (.group c)).run streams s) (c.run streams s) := by
      simpa [Element.nested] using run_nested_alike hstdin hs false c
    exact hgroup.play_eq hA rfl
  · have hsubshell := (run_nested_alike hstdin hs true c).play_eq hA (rfl : visible [] = _)
    rwa [Act.play_map] at hsubshell

/-- A system in which one can look around; every hold of the foreground pointer finds it free, or
every one finds it taken. -/
def lookAround (free : Bool) : Act.Answers
  | _, .view => some default
  | _, .job (.seize _ pids) => some ⟨none, pids, free⟩
  | _, .job (.yieldBack _) => some ()
  | _, _ => none

lemma lookAround_alike (free free' : Bool) : (lookAround free).Alike (lookAround free') where
  answers _ _ c hc _ := by
    cases c with
    | job op => cases op <;> first | rfl | cases hc
    | _ => rfl
  holds _ c hc := by
    cases c with
    | job op => cases op <;> first | exact ⟨_, rfl⟩ | cases hc
    | _ => cases hc
  holds' _ c hc := by
    cases c with
    | job op => cases op <;> first | exact ⟨_, rfl⟩ | cases hc
    | _ => cases hc

/-- The commands `X=1; false; exit`. -/
def assignFailExit : Command :=
  ⟨[["X=1"], ["false"], ["exit"]].map fun words => ⟨⟨[.simple ⟨words, [], false⟩], false⟩, []⟩⟩

/-- `X=1; false; exit` in a group sets the variable and asks to exit; in a subshell it only leaves
its status. -/
theorem run_group_subshell_exit :
    (default : Session).exitRequested = none ∧ (∀ text, Streams.inherit.stdin ≠ .text text) ∧
      (lookAround true).Alike (lookAround false) ∧
      (((ofElement (.group assignFailExit)).run .inherit default).play (lookAround true) []).2 =
        some (1, { (default : Session) with
          env := ⟨[("X", "1")]⟩, status := 1, exitRequested := some 1 }) ∧
      (((ofElement (.subshell assignFailExit)).run .inherit default).play (lookAround true) []).2 =
        some (1, { (default : Session) with status := 1 }) := by
  have hstdin : ∀ text, Streams.inherit.stdin ≠ .text text := by simp [Streams.inherit]
  have hbody : ((assignFailExit.run .inherit default).play (lookAround false) []).2 =
      some (1, { (default : Session) with
        env := ⟨[("X", "1")]⟩, status := 1, exitRequested := some 1 }) := rfl
  have halike := lookAround_alike true false
  have hs : (default : Session).exitRequested = none := rfl
  obtain ⟨⟨-, hgroup⟩, -, hsubshell⟩ := run_group_subshell assignFailExit hstdin hs halike
  rw [hbody] at hgroup hsubshell
  exact ⟨hs, hstdin, halike, hgroup, hsubshell⟩

end Command

end Conch
