import Conch.Pipeline.Run
import Mathlib.Tactic.Common

/-!
# Runs of a tree of requests

A tree of requests says nothing about how its requests are answered, so what holds of every run
of a tree holds in every system.  A run is the list of the requests on one way through the tree,
each with its answer, and the value at the end of the way.  Runs compose as trees do: a run of
`x >>= f` is a run of `x` followed by a run of `f a`.

## Main definitions

* `Conch.Exchange` — a request with its answer.
* `Act.Runs` — a run of a tree.
* `Act.play` — follow a tree, given how its requests are answered.
* `Act.Ensures` — something holds of every run.
* `Act.Asks` — every request of a tree is of some kind.
* `Call.isPlain` — a request that starts no program and leaves the foreground pointer alone.
* `Call.isOpening` — a request that looks around or opens a file.

## Main results

* `Act.runs_bind`, `Act.ensures_bind` — runs of one tree behind another.
* `Act.Asks.bind` — the requests of one tree behind another.
* `Element.planAll_isOpening` — planning a pipeline does nothing but look around and open files.
-/

set_option autoImplicit false

namespace Conch

/-- A request together with the answer that it got. -/
abbrev Exchange := (c : Call) × Reply c

namespace Act

variable {α β : Type}

/-! ## Trees as a monad -/

@[simp] lemma done_bind (a : α) (f : α → Act β) : (Act.done a) >>= f = f a := rfl

@[simp] lemma call_bind (c : Call) (next : Reply c → Act α) (f : α → Act β) :
    (Act.call c next) >>= f = .call c fun r => next r >>= f := rfl

-- The type of an answer is unfolded where the request is known, so it cannot serve as a key.
@[simp] lemma ask_bind (c : Call) (f : Reply c → Act β) :
    @Bind.bind Act _ (no_index (Reply c)) β (ask c) f = .call c f := rfl

instance : LawfulMonad Act := LawfulMonad.mk' Act
  (fun x => by
    induction x with
    | done a => rfl
    | call c next ih => exact congrArg (Act.call c) (funext ih))
  (fun _ _ => rfl)
  (fun x f g => by
    induction x with
    | done a => rfl
    | call c next ih => exact congrArg (Act.call c) (funext ih))

/-! ## Runs -/

/-- A run of a tree: the requests on one way through it, with their answers, and the value at the
end. -/
inductive Runs : Act α → List Exchange → α → Prop where
  | done (a : α) : Runs (.done a) [] a
  | call {c : Call} {next : Reply c → Act α} {tr : List Exchange} {a : α} (r : Reply c) :
      Runs (next r) tr a → Runs (.call c next) (⟨c, r⟩ :: tr) a

@[simp] lemma runs_done {a b : α} {tr : List Exchange} :
    (Act.done a).Runs tr b ↔ tr = [] ∧ b = a := by
  constructor
  · rintro ⟨⟩
    exact ⟨rfl, rfl⟩
  · rintro ⟨rfl, rfl⟩
    exact .done _

@[simp] lemma runs_pure {a b : α} {tr : List Exchange} :
    (pure a : Act α).Runs tr b ↔ tr = [] ∧ b = a :=
  runs_done

@[simp] lemma runs_call {c : Call} {next : Reply c → Act α} {tr : List Exchange} {a : α} :
    (Act.call c next).Runs tr a ↔ ∃ r rest, tr = ⟨c, r⟩ :: rest ∧ (next r).Runs rest a := by
  constructor
  · rintro (_ | ⟨r, h⟩)
    exact ⟨r, _, rfl, h⟩
  · rintro ⟨r, rest, rfl, h⟩
    exact .call r h

/-- **A run of one tree behind another** is a run of the first, followed by a run of the second. -/
theorem runs_bind {x : Act α} {f : α → Act β} {tr : List Exchange} {b : β} :
    (x >>= f).Runs tr b ↔
      ∃ front rest a, tr = front ++ rest ∧ x.Runs front a ∧ (f a).Runs rest b := by
  induction x generalizing tr with
  | done a => simp
  | call c next ih =>
    simp only [call_bind, runs_call, ih]
    constructor
    · rintro ⟨r, _, rfl, front, rest, a, rfl, hx, hf⟩
      exact ⟨⟨c, r⟩ :: front, rest, a, rfl, ⟨r, front, rfl, hx⟩, hf⟩
    · rintro ⟨_, rest, a, rfl, ⟨r, front, rfl, hx⟩, hf⟩
      exact ⟨r, front ++ rest, rfl, front, rest, a, rfl, hx, hf⟩

/-- What is asked decides how far a run goes: two runs of a tree that begin the same list of
exchanges are the same run. -/
lemma Runs.unique {x : Act α} {front front' rest rest' : List Exchange} {a a' : α}
    (h : x.Runs front a) (h' : x.Runs front' a') (happend : front ++ rest = front' ++ rest') :
    front = front' ∧ rest = rest' ∧ a = a' := by
  induction h generalizing front' with
  | done a =>
    obtain ⟨rfl, rfl⟩ := runs_done.1 h'
    exact ⟨rfl, happend, rfl⟩
  | @call c next tr a r _ ih =>
    obtain ⟨r', tr', rfl, hnext⟩ := runs_call.1 h'
    obtain ⟨hhead, htail⟩ := List.cons.inj happend
    cases hhead
    obtain ⟨rfl, hrest, ha⟩ := ih hnext htail
    exact ⟨rfl, hrest, ha⟩

/-! ## Following a tree -/

/-- How a system answers: what it answers to a request may depend on all that has been exchanged
before, and a request may stay without an answer. -/
abbrev Answers := List Exchange → (c : Call) → Option (Reply c)

/-- Follow a tree behind the exchanges `past`: all exchanges, and the value unless some request
stays without an answer. -/
def play (answers : Answers) : List Exchange → Act α → List Exchange × Option α
  | past, .done a => (past, some a)
  | past, .call c next => match answers past c with
    | some r => play answers (past ++ [⟨c, r⟩]) (next r)
    | none => (past, none)

/-- To follow a tree to its end is a run. -/
lemma runs_of_play {answers : Answers} {past tr : List Exchange} {x : Act α} {a : α}
    (h : x.play answers past = (tr, some a)) : ∃ rest, tr = past ++ rest ∧ x.Runs rest a := by
  induction x generalizing past with
  | done b =>
    cases h
    exact ⟨[], by simp, .done _⟩
  | call c next ih =>
    rw [play] at h
    split at h
    case h_1 r _ =>
      obtain ⟨rest, rfl, hrun⟩ := ih r h
      exact ⟨⟨c, r⟩ :: rest, by simp, .call r hrun⟩
    case h_2 => cases h

/-! ## What holds of every run -/

/-- Every run of the tree, with its exchanges and its value, is as `P` says. -/
def Ensures (x : Act α) (P : List Exchange → α → Prop) : Prop :=
  ∀ tr a, x.Runs tr a → P tr a

@[simp] lemma ensures_done {a : α} {P : List Exchange → α → Prop} :
    (Act.done a).Ensures P ↔ P [] a := by
  simp [Ensures]

@[simp] lemma ensures_pure {a : α} {P : List Exchange → α → Prop} :
    (pure a : Act α).Ensures P ↔ P [] a :=
  ensures_done

@[simp] lemma ensures_call {c : Call} {next : Reply c → Act α} {P : List Exchange → α → Prop} :
    (Act.call c next).Ensures P ↔ ∀ r, (next r).Ensures fun tr a => P (⟨c, r⟩ :: tr) a := by
  constructor
  · intro h r tr a hrun
    exact h _ _ (.call r hrun)
  · intro h tr a hrun
    obtain ⟨r, rest, rfl, hnext⟩ := runs_call.1 hrun
    exact h r rest a hnext

/-- **What holds of every run of one tree behind another.** -/
theorem ensures_bind {x : Act α} {f : α → Act β} {P : List Exchange → β → Prop} :
    (x >>= f).Ensures P ↔
      x.Ensures fun front a => (f a).Ensures fun rest b => P (front ++ rest) b := by
  constructor
  · intro h front a hx rest b hf
    exact h _ _ (runs_bind.2 ⟨front, rest, a, rfl, hx, hf⟩)
  · intro h tr b hrun
    obtain ⟨front, rest, a, rfl, hx, hf⟩ := runs_bind.1 hrun
    exact h front a hx rest b hf

lemma Ensures.mono {x : Act α} {P Q : List Exchange → α → Prop} (h : x.Ensures P)
    (hPQ : ∀ tr a, P tr a → Q tr a) : x.Ensures Q :=
  fun tr a hrun => hPQ tr a (h tr a hrun)

/-- Behind a tree whose runs are all as `P` says. -/
lemma Ensures.bind {x : Act α} {f : α → Act β} {P : List Exchange → α → Prop}
    {Q : List Exchange → β → Prop} (h : x.Ensures P)
    (hf : ∀ front a, P front a → (f a).Ensures fun rest b => Q (front ++ rest) b) :
    (x >>= f).Ensures Q :=
  ensures_bind.2 (h.mono hf)

/-- Behind a tree of which nothing need be known. -/
lemma ensures_behind {x : Act α} {f : α → Act β} {Q : β → Prop}
    (hf : ∀ a, (f a).Ensures fun _ b => Q b) : (x >>= f).Ensures fun _ b => Q b :=
  ensures_bind.2 fun _ a _ => hf a

/-- What follows a tree matters only on the values of its runs. -/
lemma Ensures.bind_congr {x : Act α} {f g : α → Act β} (h : x.Ensures fun _ a => f a = g a) :
    x >>= f = x >>= g := by
  induction x with
  | done a => exact ensures_done.1 h
  | call c next ih => exact congrArg (Act.call c) (funext fun r => ih r (ensures_call.1 h r))

/-! ## What a tree asks for -/

/-- Every request of the tree, however those before it are answered, is as `p` says. -/
def Asks (p : Call → Bool) : Act α → Prop
  | .done _ => True
  | .call c next => p c = true ∧ ∀ r, (next r).Asks p

@[simp] lemma asks_call {p : Call → Bool} {c : Call} {next : Reply c → Act α} :
    (Act.call c next).Asks p ↔ p c = true ∧ ∀ r, (next r).Asks p :=
  Iff.rfl

/-- **The requests of one tree behind another.** -/
theorem Asks.bind {p : Call → Bool} {x : Act α} {f : α → Act β} (h : x.Asks p)
    (hf : ∀ a, (f a).Asks p) : (x >>= f).Asks p := by
  induction x with
  | done a => exact hf a
  | call c next ih => exact ⟨h.1, fun r => ih r (h.2 r)⟩

lemma Asks.mono {p q : Call → Bool} {x : Act α} (h : x.Asks p)
    (hpq : ∀ c, p c = true → q c = true) : x.Asks q := by
  induction x with
  | done a => trivial
  | call c next ih => exact ⟨hpq c h.1, fun r => ih r (h.2 r)⟩

/-- The requests of a run are requests of the tree. -/
lemma Asks.ensures {p : Call → Bool} {x : Act α} (h : x.Asks p) :
    x.Ensures fun tr _ => ∀ e ∈ tr, p e.1 = true := by
  induction x with
  | done a => simp
  | call c next ih =>
    rw [ensures_call]
    intro r
    refine (ih r (h.2 r)).mono fun tr _ htr e he => ?_
    obtain rfl | he := List.mem_cons.1 he
    · exact h.1
    · exact htr e he

end Act

/-! ## Plain requests -/

/-- The request takes or gives back the foreground pointer. -/
def Call.isHold : Call → Bool
  | .job (.seize ..) => true
  | .job (.yieldBack _) => true
  | _ => false

/-- The request neither starts a program nor takes or gives back the foreground pointer. -/
def Call.isPlain : Call → Bool
  | .spawn _ => false
  | c => !c.isHold

/-- The tree asks for nothing but what is plain. -/
abbrev Act.IsPlain {α : Type} (x : Act α) : Prop := x.Asks Call.isPlain

lemma Act.tell_isPlain (dst : Sink) (text : String) : (Act.tell dst text).IsPlain :=
  ⟨rfl, fun _ => trivial⟩

lemma Sink.report_isPlain (stderr : Sink) (message : String) : (stderr.report message).IsPlain :=
  (Act.tell_isPlain _ _).bind fun _ => trivial

lemma closeAll_isPlain (ends : List End) : (closeAll ends).IsPlain := by
  induction ends with
  | nil => trivial
  | cons e rest ih => exact ⟨rfl, fun _ => ih⟩

lemma Jobs.joinAll_isPlain (helpers : List Helper) : (Jobs.joinAll helpers).IsPlain := by
  induction helpers with
  | nil => trivial
  | cons h rest ih => exact ⟨rfl, fun _ => ih⟩

lemma Jobs.register_isPlain (line : String) (s : Jobs.Started) (status : JobStatus)
    (group : Option Pid) : (Jobs.register line s status group).IsPlain :=
  ⟨rfl, fun _ => ⟨rfl, fun _ => trivial⟩⟩

/-! ## Planning -/

/-- The request looks around or opens a file. -/
def Call.isOpening : Call → Bool
  | .view | .openInput _ | .openOutput .. => true
  | _ => false

lemma Call.isPlain_of_isOpening {c : Call} (h : c.isOpening = true) : c.isPlain = true := by
  cases c <;> first | rfl | cases h

/-- The tree does nothing but look around and open files. -/
abbrev Act.IsOpening {α : Type} (x : Act α) : Prop := x.Asks Call.isOpening

namespace Redirections

lemma target_isOpening (s : Session) (word : String) : (target s word).IsOpening := by
  unfold target
  simp only [Act.ask_bind, Act.asks_call]
  refine ⟨rfl, fun v => ?_⟩
  split
  · split <;> trivial
  · trivial

lemma openFile_isOpening (s : Session) (op : RedirectOp) (name : String) :
    (openFile s op name).IsOpening := by
  cases op <;> refine ⟨rfl, fun opened => ?_⟩ <;> cases opened <;> trivial

lemma openOne_isOpening (s : Session) (r : Redirections) (d : Redirect) :
    (openOne s r d).IsOpening := by
  unfold openOne
  split
  · trivial
  · refine (target_isOpening s d.file).bind fun found => ?_
    cases found with
    | error e => trivial
    | ok name =>
      refine (openFile_isOpening s _ name).bind fun opened => ?_
      cases opened <;> trivial

lemma resolve_isOpening (s : Session) (r : Redirections) (ds : List Redirect) :
    (resolve s r ds).IsOpening := by
  induction ds generalizing r with
  | nil => trivial
  | cons d rest ih =>
    refine (openOne_isOpening s r d).bind fun opened => ?_
    cases opened with
    | error e => trivial
    | ok r => exact ih r

end Redirections

namespace Element

lemma plan_isOpening (s : Session) (e : Element) : (plan s e).IsOpening := by
  cases e with
  | subshell body => trivial
  | group body => trivial
  | simple c =>
    refine ⟨rfl, fun v => (Redirections.resolve_isOpening s .none c.redirects).bind fun r => ?_⟩
    cases r <;> trivial

/-- Planning a pipeline does nothing but look around and open files. -/
lemma planAll_isOpening (s : Session) (es : List Element) : (planAll s es).IsOpening := by
  induction es with
  | nil => trivial
  | cons e rest ih =>
    refine (plan_isOpening s e).bind fun stage => ?_
    cases stage with
    | error e => trivial
    | ok stage =>
      refine ih.bind fun stages => ?_
      cases stages <;> trivial

/-- Planning a pipeline starts no program. -/
lemma planAll_isPlain (s : Session) (es : List Element) : (planAll s es).IsPlain :=
  (planAll_isOpening s es).mono fun _ => Call.isPlain_of_isOpening

end Element

lemma Pipeline.makePipes_isPlain (n : Nat) : (Pipeline.makePipes n).IsPlain := by
  induction n with
  | zero => trivial
  | succ n ih => exact ⟨rfl, fun _ => ih.bind fun _ => trivial⟩

end Conch
