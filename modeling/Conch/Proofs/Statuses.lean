import Conch.Proofs.Coherence
import Conch.Proofs.Threads

/-!
# Statuses and well-formed sessions

Statuses come from many places: from builtins, from `exit` with any number, from processes that
have ended, been killed or stopped, from jobs that somebody else has waited for.  Variables come
from assignments, from `export` and from `cd`.  Wherever they come from, a session keeps a status
between 0 and 255, a directory that is an absolute path, and variables with valid names.

A thread cannot know this by itself, since it takes codes from the table of jobs and from other
threads.  So a tree of requests is judged by what it relies on and what it guarantees: as long as
the codes that it is answered are statuses, the codes that it hands out are statuses, and what it
starts can be judged in the same way.

## Main definitions

* `Conch.IsStatus` — a status as a process can report it.
* `Session.WellFormed` — what a session keeps.
* `Call.Fits`, `Call.Proper` — what a thread relies on, and what it guarantees.
* `Act.Sound` — a tree that guarantees this, and something about its value.

## Main results

* `Act.Sound.bind` — one tree behind another.
* `Jobs.runForeground_sound`, `Jobs.foreground_sound`, `Jobs.monitor_sound` — waiting.
* `Builtin.run_sound` — builtins.
-/

set_option autoImplicit false

namespace Conch

open Act (ask jobs)

/-! ## Statuses -/

/-- A status as a process can report it. -/
def IsStatus (code : Int) : Prop := 0 ≤ code ∧ code ≤ 255

instance : DecidablePred IsStatus := fun code => inferInstanceAs (Decidable (0 ≤ code ∧ code ≤ 255))

lemma isStatus_zero : IsStatus 0 := by decide

lemma isStatus_one : IsStatus 1 := by decide

lemma isStatus_mod (n : Int) : IsStatus (n % 256) := by
  unfold IsStatus
  omega

/-- The end of a process as a system reports it: with a status, or by a signal that exists. -/
def Ending.Fit : Ending → Prop
  | exited code => IsStatus code
  | killed s => 1 ≤ s.number ∧ s.number ≤ Signal.maxNumber

namespace Ending

lemma Fit.isStatus {e : Ending} (h : e.Fit) : IsStatus e.status := by
  cases e with
  | exited code => exact h
  | killed s =>
    simp only [Fit, Signal.maxNumber] at h
    simp only [status, Signal.status, IsStatus]
    omega

lemma Fit.isStatus_of_named {e : Ending} (h : e.Fit) {code : Int} (hcode : e.named? = some code) :
    IsStatus code := by
  have hstatus : code = e.status := by
    unfold named? at hcode
    split at hcode
    · exact (Option.some.inj hcode).symm
    · cases hcode
    · exact (Option.some.inj hcode).symm
  exact hstatus ▸ h.isStatus

end Ending

/-! ## Sessions -/

/-- A session is well formed, given the names of variables that have been there all the time. -/
structure Session.WellFormed (names : List String) (s : Session) : Prop where
  status : IsStatus s.status
  exitRequested : ∀ code ∈ s.exitRequested, IsStatus code
  cwd : Path.isAbsolute s.cwd = true
  named : ∀ p ∈ s.env.pairs, p.1 ∈ names ∨ Name.isName p.1 = true

/-- A status and a session, as a command leaves them. -/
def WellFormedResult (names : List String) (r : Int × Session) : Prop :=
  IsStatus r.1 ∧ r.2.WellFormed names

variable {names : List String}

namespace Session

lemma WellFormed.with_status {s : Session} (h : s.WellFormed names) {code : Int}
    (hcode : IsStatus code) : Session.WellFormed names { s with status := code } :=
  { h with status := hcode }

lemma WellFormed.with_exitRequested {s : Session} (h : s.WellFormed names) {code : Int}
    (hcode : IsStatus code) : Session.WellFormed names { s with exitRequested := some code } :=
  { h with exitRequested := by simpa using hcode }

end Session

/-- A variable of a list into which another has been inserted was there, or is that one. -/
lemma Env.mem_insertPair {name value : String} {pairs : List (String × String)}
    {p : String × String} (h : p ∈ insertPair name value pairs) : p.1 = name ∨ p ∈ pairs := by
  induction pairs with
  | nil => simp_all [insertPair]
  | cons q rest ih =>
    rw [insertPair] at h
    split at h
    · grind
    · split at h
      · grind
      · grind

namespace Session

lemma WellFormed.setVar {s : Session} (h : s.WellFormed names) {name : String}
    (hname : Name.isName name = true) (value : String) : (s.setVar name value).WellFormed names :=
  { h with
    named := fun p hp => (Env.mem_insertPair hp).elim (fun hp => .inr (hp ▸ hname)) (h.named p) }

lemma WellFormed.setVars {s : Session} (h : s.WellFormed names) {vars : List (String × String)}
    (hvars : ∀ p ∈ vars, Name.isName p.1 = true) : (s.setVars vars).WellFormed names := by
  induction vars generalizing s with
  | nil => exact h
  | cons p rest ih =>
    exact ih (h.setVar (hvars p (by simp)) p.2) fun p hp => hvars p (by simp [hp])

lemma WellFormed.unsetVar {s : Session} (h : s.WellFormed names) (name : String) :
    (s.unsetVar name).WellFormed names :=
  { h with named := fun p hp => h.named p (List.mem_filter.1 hp).1 }

lemma WellFormed.unsetVars {s : Session} (h : s.WellFormed names) (vars : List String) :
    (vars.foldl Session.unsetVar s).WellFormed names := by
  induction vars generalizing s with
  | nil => exact h
  | cons name rest ih => exact ih (h.unsetVar name)

end Session

/-- The path of a directory is absolute. -/
lemma FileTree.isAbsolute_canonical {t : FileTree} {path dir : String}
    (h : t.canonical path = .ok dir) : Path.isAbsolute dir = true := by
  unfold FileTree.canonical at h
  split at h
  · cases h
  · split at h
    · cases h
    · split at h
      · split at h
        · cases h
          simp [Path.isAbsolute]
        · cases h
      · cases h

lemma Session.WellFormed.changeDir {s s' : Session} (h : s.WellFormed names) {t : FileTree}
    {target : String} (hs' : s.changeDir t target = .ok s') : s'.WellFormed names := by
  unfold Session.changeDir at hs'
  cases hdir : t.canonical (s.resolve target) with
  | error e => simp [hdir, bind, Except.bind] at hs'
  | ok dir =>
    simp only [hdir, bind, Except.bind, pure, Except.pure, Except.ok.injEq] at hs'
    have hold : Name.isName "OLDPWD" = true := by decide
    have hpwd : Name.isName "PWD" = true := by decide
    have hvars := (h.setVar hold s.cwd).setVar hpwd dir
    exact hs' ▸ { hvars with cwd := FileTree.isAbsolute_canonical hdir }

/-! ## What a thread relies on and guarantees -/

/-- A code, if there is one, is a status. -/
def Job.Fit (j : Job) : Prop := ∀ code ∈ j.code, IsStatus code

/-- What a thread relies on: the codes that it is answered are statuses. -/
def Call.Fits : (c : Call) → Reply c → Prop
  | .waitExit _, r => ∀ e, r = .ok e → e.Fit
  | .waitPause _, r => ∀ code, r = .ok (some code) → ∃ e : Ending, e.Fit ∧ e.named? = some code
  | .waitChange _, r => ∀ code, r = .ok (.exited code) → ∃ e : Ending, e.Fit ∧ e.named? = some code
  | .result _, r => ∀ code ∈ r, IsStatus code
  | .job (.collect _), code => IsStatus code
  | _, _ => True

/-- The action sets variables with valid names only. -/
def Action.Proper : Action → Prop
  | .assign vars => ∀ p ∈ vars, Name.isName p.1 = true
  | _ => True

/-- What the shell may start beside a line: on a session that is well formed, if it has one.  What
programs do, or somebody from outside, is no thread of the shell. -/
def Body.Proper (names : List String) : Body → Prop
  | .stage part _ s => s.WellFormed names ∧ part.action.Proper
  | .worker _ _ parts _ s => s.WellFormed names ∧ ∀ part ∈ parts, part.action.Proper
  | .monitor .. | .feed .. | .listener => True
  | .intervention _ | .program .. => False

/-- What a thread guarantees: the codes that it puts into the table of jobs are statuses, and so
will be those of what it starts. -/
def Call.Proper (names : List String) : Call → Prop
  | .fork b => b.Proper names
  | .become b => b.Proper names
  | .job (.finish _ code) => IsStatus code
  | .job (.register j) => j.Fit
  | _ => True

namespace Act

variable {α β : Type}

/-- As long as its answers fit, every request of the tree is proper, and its value is as `Q`
says. -/
def Sound (names : List String) (Q : α → Prop) : Act α → Prop
  | .done a => Q a
  | .call c next => c.Proper names ∧ ∀ r, c.Fits r → (next r).Sound names Q

@[simp] lemma sound_done {Q : α → Prop} {a : α} : (Act.done a).Sound names Q ↔ Q a := Iff.rfl

@[simp] lemma sound_pure {Q : α → Prop} {a : α} : (pure a : Act α).Sound names Q ↔ Q a := Iff.rfl

/-- **One tree behind another.** -/
theorem Sound.bind {x : Act α} {f : α → Act β} {Q : α → Prop} {R : β → Prop}
    (h : x.Sound names Q) (hf : ∀ a, Q a → (f a).Sound names R) : (x >>= f).Sound names R := by
  induction x with
  | done a => exact hf a h
  | call c next ih => exact ⟨h.1, fun r hr => ih r (h.2 r hr)⟩

/-- Behind a tree whose value does not matter. -/
lemma Sound.behind {x : Act α} {f : α → Act β} {Q : α → Prop} {R : β → Prop}
    (h : x.Sound names Q) (hf : ∀ a, (f a).Sound names R) : (x >>= f).Sound names R :=
  h.bind fun a _ => hf a

/-- Behind a request that nothing is known of. -/
lemma sound_ask {c : Call} {f : Reply c → Act β} {R : β → Prop} (hc : c.Proper names)
    (hf : ∀ r, (f r).Sound names R) : (ask c >>= f).Sound names R :=
  ⟨hc, fun r _ => hf r⟩

end Act

/-- The request neither starts anything nor puts a code into the table of jobs. -/
def Call.isTame : Call → Bool
  | .fork _ | .become _ | .job (.finish ..) | .job (.register _) => false
  | _ => true

lemma Call.proper_of_isTame {c : Call} (h : c.isTame = true) : c.Proper names := by
  unfold Call.isTame at h
  split at h
  case h_5 => unfold Call.Proper; grind
  all_goals cases h

lemma Call.isTame_of_isOpening {c : Call} (h : c.isOpening = true) : c.isTame = true := by
  cases c <;> first | rfl | cases h

/-- A tree that asks only for what is tame is sound. -/
lemma Act.Asks.sound {α : Type} {x : Act α} {Q : α → Prop} (h : x.Asks Call.isTame)
    (hx : x.Ensures fun _ a => Q a) : x.Sound names Q := by
  induction x with
  | done a => exact Act.ensures_done.1 hx
  | call c next ih =>
    exact ⟨Call.proper_of_isTame h.1, fun r _ => ih r (h.2 r) (Act.ensures_call.1 hx r)⟩

/-! ## Telling, closing and waiting -/

lemma Act.tell_sound (dst : Sink) (text : String) :
    (Act.tell dst text).Sound names fun _ => True :=
  ⟨trivial, fun _ _ => trivial⟩

lemma Sink.report_sound (stderr : Sink) (message : String) :
    (stderr.report message).Sound names fun _ => True :=
  (Act.tell_sound _ _).behind fun _ => trivial

lemma closeAll_sound (ends : List End) : (closeAll ends).Sound names fun _ => True := by
  induction ends with
  | nil => trivial
  | cons e rest ih => exact ⟨trivial, fun _ _ => ih⟩

lemma Jobs.joinAll_sound (helpers : List Helper) :
    (Jobs.joinAll helpers).Sound names fun _ => True := by
  induction helpers with
  | nil => trivial
  | cons h rest ih => exact ⟨trivial, fun _ _ => ih⟩

namespace Jobs

/-- The codes of processes that have been waited for are statuses; so is 1 for a wait that has
failed. -/
lemma collectAll_sound (pids : List Pid) :
    (collectAll pids).Sound names fun codes => ∀ code ∈ codes, IsStatus code := by
  induction pids with
  | nil => exact Act.sound_pure.2 (by simp)
  | cons pid rest ih =>
    refine ⟨trivial, fun r hr => ih.bind fun codes hcodes => Act.sound_pure.2 ?_⟩
    refine List.forall_mem_cons.2 ⟨?_, hcodes⟩
    cases r with
    | error e => exact isStatus_one
    | ok e => exact (hr e rfl).isStatus

/-- The codes of a pipeline that has ended are statuses. -/
def Completion.Fit : Completion → Prop
  | .exited primary siblings => IsStatus primary ∧ ∀ code ∈ siblings, IsStatus code
  | .stopped _ => True

lemma register_sound (line : String) (s : Started) (status : JobStatus) (group : Option Pid) :
    (register line s status group).Sound names fun _ => True :=
  ⟨by simp [Call.Proper, Job.Fit, Job.ofProcesses], fun _ _ => ⟨trivial, fun _ _ => trivial⟩⟩

lemma runForeground_sound (line : String) (s : Started) :
    (runForeground line s).Sound names Completion.Fit := by
  rw [runForeground_eq]
  refine ⟨trivial, fun hold _ => ⟨trivial, fun r hr => ?_⟩⟩
  rcases r with e | (_ | code)
  · exact ⟨trivial, fun _ _ => ⟨isStatus_one, by simp⟩⟩
  · refine (register_sound line s .stopped none).behind fun id => ?_
    exact ⟨trivial, fun _ _ => ⟨trivial, fun _ _ => trivial⟩⟩
  · obtain ⟨e, he, hcode⟩ := hr code rfl
    refine (collectAll_sound s.siblings).bind fun codes hcodes => ?_
    refine (joinAll_sound s.helpers).behind fun _ => ⟨trivial, fun _ _ => ?_⟩
    exact ⟨he.isStatus_of_named hcode, hcodes⟩

lemma runInJob_sound (id : JobId) (s : Started) :
    (runInJob id s).Sound names Completion.Fit := by
  refine ⟨trivial, fun _ _ => ⟨trivial, fun r hr => ?_⟩⟩
  refine (collectAll_sound s.siblings).bind fun codes hcodes => ?_
  refine (joinAll_sound s.helpers).behind fun _ => ⟨trivial, fun _ _ => ⟨?_, hcodes⟩⟩
  cases r with
  | error e => exact isStatus_one
  | ok e =>
    cases hnamed : e.named? with
    | none => simpa [hnamed] using isStatus_one
    | some code => simpa [hnamed] using (hr e rfl).isStatus_of_named hnamed

lemma resume_sound (id : JobId) (target : JobTarget) :
    (resume id target).Sound names fun r => ∀ code, r = .ok code → IsStatus code := by
  refine ⟨trivial, fun hold _ => ⟨trivial, fun sent _ => ?_⟩⟩
  cases sent with
  | error e => exact ⟨trivial, fun _ _ => ⟨trivial, fun _ _ => Act.sound_done.2 nofun⟩⟩
  | ok u =>
    refine ⟨trivial, fun code hcode => ⟨trivial, fun _ _ => Act.sound_done.2 ?_⟩⟩
    rintro _ ⟨⟩
    exact hcode

/-- What `fg` gives back is a status: it comes from the table. -/
lemma foreground_sound (id : JobId) :
    (foreground id).Sound names fun r => ∀ code, r = .ok code → IsStatus code := by
  rw [foreground_eq]
  refine ⟨trivial, fun found _ => ?_⟩
  rcases found with _ | ⟨target, _ | pid⟩
  · exact Act.sound_done.2 nofun
  · exact resume_sound id target
  · exact ⟨trivial, fun _ _ => resume_sound id target⟩

lemma background_sound (id : JobId) : (background id).Sound names fun _ => True := by
  refine ⟨trivial, fun found _ => ?_⟩
  cases found with
  | none => trivial
  | some target =>
    refine ⟨trivial, fun sent _ => ?_⟩
    cases sent with
    | error e => exact ⟨trivial, fun _ _ => trivial⟩
    | ok u => trivial

end Jobs

/-! ## Monitors and signals -/

namespace Jobs

/-- A monitor tells the table the status of the leader, or 1. -/
lemma monitor_sound (id : JobId) (leader : Pid) (siblings : List Pid) (helpers : List Helper) :
    (monitor id leader siblings helpers).Sound names IsStatus := by
  rw [monitor_eq]
  refine ⟨trivial, fun r hr => ?_⟩
  rcases r with e | (code | _ | _)
  · exact ⟨isStatus_one, fun _ _ => isStatus_zero⟩
  · obtain ⟨e, he, hcode⟩ := hr code rfl
    refine (collectAll_sound siblings).behind fun _ => (joinAll_sound helpers).behind fun _ => ?_
    exact ⟨he.isStatus_of_named hcode, fun _ _ => isStatus_zero⟩
  · exact ⟨trivial, fun _ _ => ⟨trivial, nofun⟩⟩
  · exact ⟨trivial, fun _ _ => ⟨trivial, nofun⟩⟩

lemma terminateEach_sound (targets : List (JobTarget × JobStatus)) :
    (terminateEach targets).Sound names fun _ => True := by
  induction targets with
  | nil => trivial
  | cons t rest ih =>
    refine ⟨trivial, fun _ _ => ?_⟩
    split
    · exact ⟨trivial, fun _ _ => ih⟩
    · exact ih

lemma forwardJob_sound (fg : Foreground) (s : Signal) :
    (forwardJob fg s).Sound names fun _ => True := by
  unfold forwardJob
  split
  · trivial
  · refine ⟨trivial, fun found _ => ?_⟩
    cases found with
    | none => trivial
    | some job =>
      dsimp only
      split
      · trivial
      · exact ⟨trivial, fun _ _ => trivial⟩

lemma forward_sound (fg : Foreground) (s : Signal) :
    (forward fg s).Sound names fun _ => True := by
  rw [forward_eq]
  refine (forwardJob_sound fg s).behind fun _ => ?_
  split
  · trivial
  · exact ⟨trivial, fun _ _ => trivial⟩

lemma handleSignal_sound (s : Signal) : (handleSignal s).Sound names fun _ => True := by
  unfold handleSignal
  split
  · refine ⟨trivial, fun fg _ => ?_⟩
    cases fg with
    | none => trivial
    | some fg => exact forward_sound fg _
  · refine ⟨trivial, fun fg _ => ?_⟩
    cases fg with
    | none => trivial
    | some fg => exact forward_sound fg _
  · exact ⟨trivial, fun targets _ => terminateEach_sound targets⟩
  · exact ⟨trivial, fun _ _ => trivial⟩
  · trivial

end Jobs

/-! ## Builtins -/

namespace Builtin

/-- A status, if there is no error, and a session. -/
def WellFormedEnd (names : List String) (r : Except ShellError Int × Session) : Prop :=
  (∀ code, r.1 = .ok code → IsStatus code) ∧ r.2.WellFormed names

/-- The builtin comes to a well-formed end, and would if one of its texts could not be written. -/
structure Outcome.WellFormed (names : List String) (o : Outcome) : Prop where
  ends : WellFormedEnd names (o.result, o.session)
  writes : ∀ w ∈ o.writes, w.session.WellFormed names

variable {s : Session}

lemma wellFormed_silent (hs : s.WellFormed names) {code : Int} (hcode : IsStatus code) :
    (silent s (.ok code)).WellFormed names :=
  ⟨⟨by rintro _ ⟨⟩; exact hcode, hs⟩, by simp [silent]⟩

lemma wellFormed_silent_error (hs : s.WellFormed names) (e : ShellError) :
    (silent s (.error e)).WellFormed names :=
  ⟨⟨nofun, hs⟩, by simp [silent]⟩

lemma wellFormed_prints (hs : s.WellFormed names) (text : String) :
    (prints s text).WellFormed names :=
  ⟨⟨by rintro _ ⟨⟩; exact isStatus_zero, hs⟩, by simpa [prints] using hs⟩

lemma wellFormed_moveTo (hs : s.WellFormed names) (v : View) (target : String) :
    (moveTo s v target).WellFormed names := by
  unfold moveTo
  split
  case h_1 s' h => exact wellFormed_silent (hs.changeDir h) isStatus_zero
  case h_2 => exact wellFormed_silent_error hs _

lemma wellFormed_runCd (hs : s.WellFormed names) (v : View) (args : List String) :
    (runCd s v args).WellFormed names := by
  unfold runCd
  split
  · split
    · exact wellFormed_moveTo hs v _
    · exact wellFormed_silent_error hs _
  · split
    · exact ⟨(wellFormed_moveTo hs v _).ends, by simpa using hs⟩
    · exact wellFormed_silent_error hs _
  · exact wellFormed_moveTo hs v _

/-- `exit` masks the number that it is given. -/
lemma wellFormed_runExit (hs : s.WellFormed names) (args : List String) :
    (runExit s args).WellFormed names := by
  unfold runExit
  split
  · exact wellFormed_silent (hs.with_exitRequested hs.status) hs.status
  · split
    case h_1 n _ =>
      exact wellFormed_silent (hs.with_exitRequested (isStatus_mod n)) (isStatus_mod n)
    case h_2 => exact wellFormed_silent_error hs _

lemma wellFormed_exportOne {s' : Session} (hs : s.WellFormed names) {arg : String}
    (h : exportOne s arg = some s') : s'.WellFormed names := by
  unfold exportOne at h
  split at h
  · split at h
    case isTrue hname =>
      cases h
      exact hs.setVar hname _
    case isFalse => cases h
  · split at h
    case isTrue hname =>
      cases h
      split
      · exact hs.setVar hname _
      · exact hs
    case isFalse => cases h

lemma wellFormed_exportAll (hs : s.WellFormed names) {status : Int} (hstatus : IsStatus status)
    (args : List String) : (exportAll s status args).WellFormed names := by
  induction args generalizing s status with
  | nil => exact wellFormed_silent hs hstatus
  | cons arg rest ih =>
    rw [exportAll]
    split
    case h_1 s' h => exact ih (wellFormed_exportOne hs h) hstatus
    case h_2 =>
      obtain ⟨hends, hwrites⟩ := ih hs isStatus_one
      exact ⟨hends, List.forall_mem_cons.2 ⟨hs, hwrites⟩⟩

lemma wellFormed_runType (hs : s.WellFormed names) (v : View) (args : List String) :
    (runType s v args).WellFormed names := by
  refine ⟨⟨?_, hs⟩, by simp [runType, hs]⟩
  rintro _ ⟨⟩
  split
  · exact isStatus_one
  · exact isStatus_zero

/-- Every builtin that does not deal with jobs keeps the session well formed. -/
lemma wellFormed_outcome {b : Builtin} {args : List String} {v : View} {o : Outcome}
    (hs : s.WellFormed names) (h : b.outcome args s v = some o) : o.WellFormed names := by
  cases b <;> cases h
  case cd => exact wellFormed_runCd hs v args
  case echo =>
    unfold runEcho
    split <;> exact wellFormed_prints hs _
  case exit => exact wellFormed_runExit hs args
  case exportVars =>
    unfold runExport
    split
    · exact wellFormed_prints hs _
    · exact wellFormed_exportAll hs isStatus_zero args
  case fail => exact wellFormed_silent hs isStatus_one
  case help => exact wellFormed_prints hs _
  case pwd => exact wellFormed_prints hs _
  case succeed => exact wellFormed_silent hs isStatus_zero
  case typeOf => exact wellFormed_runType hs v args
  case unset => exact wellFormed_silent (hs.unsetVars args) isStatus_zero

lemma writeTo_sound (streams : Streams) (outlet : Outlet) (text : String) :
    (writeTo streams outlet text).Sound names fun _ => True := by
  unfold writeTo
  split
  · trivial
  · refine (Act.tell_sound _ _).behind fun written => ?_
    cases written <;> trivial

lemma perform_sound (streams : Streams) {o : Outcome}
    (ho : WellFormedEnd names (o.result, o.session)) {ws : List Write}
    (hws : ∀ w ∈ ws, w.session.WellFormed names) :
    (perform streams o ws).Sound names (WellFormedEnd names) := by
  induction ws with
  | nil => exact ho
  | cons w rest ih =>
    refine (writeTo_sound streams w.outlet w.text).behind fun written => ?_
    cases written with
    | ok u => exact ih fun w hw => hws w (by simp [hw])
    | error e => exact ⟨nofun, hws w (by simp)⟩

lemma jobOperand_sound (args : List String) :
    (jobOperand args).Sound names fun _ => True := by
  unfold jobOperand
  split
  · trivial
  · refine ⟨trivial, fun current _ => ?_⟩
    cases current <;> trivial

lemma runJobs_sound (streams : Streams) :
    (runJobs streams).Sound names fun r => ∀ code, r = .ok code → IsStatus code := by
  refine ⟨trivial, fun _ _ => ⟨trivial, fun v _ => ⟨trivial, fun listed _ => ?_⟩⟩⟩
  refine (writeTo_sound streams .out _).behind fun written => ?_
  cases written with
  | error e => exact Act.sound_pure.2 nofun
  | ok u => exact Act.sound_pure.2 (by rintro _ ⟨⟩; exact isStatus_zero)

lemma runFg_sound (streams : Streams) (args : List String) :
    (runFg streams args).Sound names fun r => ∀ code, r = .ok code → IsStatus code := by
  refine (jobOperand_sound args).behind fun operand => ?_
  cases operand with
  | error e => exact Act.sound_pure.2 nofun
  | ok id =>
    refine ⟨trivial, fun found _ => ?_⟩
    cases found with
    | none => exact Act.sound_pure.2 nofun
    | some job =>
      refine (writeTo_sound streams .out _).behind fun written => ?_
      cases written with
      | error e => exact Act.sound_pure.2 nofun
      | ok u => exact Jobs.foreground_sound id

lemma runBg_sound (streams : Streams) (args : List String) :
    (runBg streams args).Sound names fun r => ∀ code, r = .ok code → IsStatus code := by
  refine (jobOperand_sound args).behind fun operand => ?_
  cases operand with
  | error e => exact Act.sound_pure.2 nofun
  | ok id =>
    refine ⟨trivial, fun found _ => ?_⟩
    cases found with
    | none => exact Act.sound_pure.2 nofun
    | some job =>
      refine (Jobs.background_sound id).behind fun continued => ?_
      cases continued with
      | error e => exact Act.sound_pure.2 nofun
      | ok u =>
        refine (writeTo_sound streams .out _).behind fun written => ?_
        cases written with
        | error e => exact Act.sound_pure.2 nofun
        | ok u => exact Act.sound_pure.2 (by rintro _ ⟨⟩; exact isStatus_zero)

/-- **A builtin comes to a well-formed end.** -/
lemma run_sound (b : Builtin) (args : List String) (streams : Streams) (hs : s.WellFormed names) :
    (b.run args streams s).Sound names (WellFormedEnd names) := by
  cases hb : b.isJobControl with
  | true => cases b with
    | jobs => exact (runJobs_sound streams).bind fun _ hr => ⟨hr, hs⟩
    | fg => exact (runFg_sound streams args).bind fun _ hr => ⟨hr, hs⟩
    | bg => exact (runBg_sound streams args).bind fun _ hr => ⟨hr, hs⟩
    | _ => cases hb
  | false =>
    rw [run_of_not_isJobControl hb]
    refine Act.sound_ask trivial fun v => ?_
    split
    case h_1 o ho =>
      have hwell := wellFormed_outcome hs ho
      exact perform_sound streams hwell.ends hwell.writes
    case h_2 => exact ⟨by rintro _ ⟨⟩; exact isStatus_zero, hs⟩

end Builtin

end Conch
