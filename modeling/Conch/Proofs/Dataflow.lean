import Conch.Machine.Run
import Conch.Proofs.Runs
import Mathlib.Data.Fintype.EquivFin

/-!
# Data that flows through an ideal system

An ideal system in which a program is a function: of its words, its variables, its directory and
its whole input.  Writing into a pipe never fails, and what a file holds, or whether it can be
written to, depends only on its path.

To follow a tree of requests through such a system, a ledger is kept of what is in every duct.
What a thread or a process does is entered as soon as it has been started, although it happens some
time before somebody waits for its end.  This makes no difference, since the ledger also keeps who
may use which duct: whatever runs beside the one who keeps the ledger has the ducts that it was
started with for itself, until it has been waited for.  A tree that does not observe this is
not followed; nor is anything entered about ducts that are shared with others, such as the
standard error of a pipeline.

## Main definitions

* `Conch.Ideal` — an ideal system.
* `Conch.Ledger` — what is in the ducts, who runs, and who may use what.
* `Ideal.Answers` — how the system answers a request.
* `Act.Yields` — a tree surely comes to an end, with a ledger and a value as some `Q` says.
* `Ledger.Extends` — a later ledger that agrees about all ducts that were there before.

## Main results

* `Act.Yields.bind` — one tree behind another.
* `Act.Yields.exists_runs` — a tree that yields something has a run that does.
-/

set_option autoImplicit false

namespace Conch

open Text (Octets)
open Builtin (Outlet)

/-! ## Ducts -/

/-- What data goes through. -/
inductive Duct where
  | pipe (p : PipeId)
  | file (f : FileId)
  | source (src : Source)
  | sink (dst : Sink)
  deriving DecidableEq

/-- What is read from a source. -/
def Source.duct : Source → Duct
  | .pipe p => .pipe p
  | .file f => .file f
  | src => .source src

/-- What is written to a sink. -/
def Sink.duct : Sink → Duct
  | .pipe p => .pipe p
  | .file f => .file f
  | dst => .sink dst

/-- The duct was there before number `n` was given out.  A given text is no such duct: everybody
who reads it starts at its front. -/
def Duct.Below (n : Nat) : Duct → Prop
  | .pipe p => p < n
  | .file f => f < n
  | .source (.text _) => False
  | _ => True

lemma Duct.Below.mono {n m : Nat} (h : n ≤ m) {c : Duct} (hc : c.Below n) : c.Below m := by
  cases c with
  | pipe p => exact Nat.lt_of_lt_of_le hc h
  | file f => exact Nat.lt_of_lt_of_le hc h
  | source src => cases src <;> exact hc
  | sink dst => trivial

lemma Duct.Below.ne_pipe {n p : Nat} {c : Duct} (hc : c.Below n) (hp : n ≤ p) : c ≠ .pipe p := by
  rintro rfl
  exact Nat.not_lt.2 hp hc

lemma Duct.Below.ne_file {n f : Nat} {c : Duct} (hc : c.Below n) (hf : n ≤ f) : c ≠ .file f := by
  rintro rfl
  exact Nat.not_lt.2 hf hc

/-- The sink of a command behind one of its outputs. -/
def Streams.sink (s : Streams) : Outlet → Sink
  | .out => s.stdout
  | .err => s.stderr

/-! ## Ideal systems -/

/-- What a program makes of its input: what it writes, in order, and the code that it ends with. -/
structure Report where
  writes : List (Outlet × Octets)
  code : Int

/-- An ideal system. -/
structure Ideal where
  /-- A program, given its words, its variables and its directory, if it can be started. -/
  program : List Octets → List Octets → String → Except IoError (Octets → Report)
  /-- What is in the file at a path. -/
  input : String → Except IoError Octets
  /-- Whether the file at a path can be opened for writing, or behind its end; if so, what goes
  wrong with writes to it. -/
  output : String → Bool → Except IoError (Option Errno)
  /-- What can be seen while something runs. -/
  Sees : View → Prop
  /-- One of the views. -/
  view : View
  sees_view : Sees view
  self_eq : ∀ v, Sees v → v.self = view.self

/-! ## Ledgers -/

/-- Who runs beside the one who keeps a ledger. -/
inductive Runner where
  | process (pid : Pid)
  | thread (t : TaskId)
  deriving DecidableEq

/-- How far somebody has come. -/
inductive Progress where
  /-- A program whose input is not complete. -/
  | waits (streams : Streams) (run : Octets → Report)
  | ended (code : Int)

/-- He has come to his end. -/
def Progress.isEnded : Progress → Bool
  | waits .. => false
  | ended _ => true

/-- Somebody who has been started and not been waited for, with the ducts that he alone uses. -/
structure Companion where
  who : Runner
  reading : List Duct
  writing : List Duct
  progress : Progress

/-- What is in the ducts, who runs, and who may use what. -/
structure Ledger where
  /-- What is in a duct and has not been read. -/
  data : Duct → Octets
  /-- What goes wrong with writes to a duct. -/
  refused : Duct → Option Errno
  /-- Nobody else reads from the duct, except for companions. -/
  reads : Duct → Bool
  /-- Nobody else writes to the duct, except for companions. -/
  writes : Duct → Bool
  companions : List Companion
  /-- The codes of threads that have been waited for. -/
  results : List (TaskId × Int)
  /-- All numbers of pipes, files and threads that have been given out are smaller. -/
  next : Nat

namespace Ledger

/-- No companion reads from the duct. -/
def Unread (σ : Ledger) (c : Duct) : Prop := ∀ k ∈ σ.companions, c ∉ k.reading

/-- No companion writes to the duct. -/
def Unwritten (σ : Ledger) (c : Duct) : Prop := ∀ k ∈ σ.companions, c ∉ k.writing

/-- Every companion who writes to the duct has come to his end. -/
def Settled (σ : Ledger) (c : Duct) : Prop :=
  ∀ k ∈ σ.companions, c ∈ k.writing → k.progress.isEnded = true

/-- All that will ever be in the duct is there, and nobody else reads it. -/
def Readable (σ : Ledger) (c : Duct) : Prop :=
  σ.reads c = true ∧ σ.writes c = false ∧ σ.Unread c ∧ σ.Settled c

instance (σ : Ledger) (c : Duct) : Decidable (σ.Readable c) := by
  unfold Readable Unread Settled
  infer_instance

/-- Enter some data. -/
def enter (σ : Ledger) (c : Duct) (data : Octets) : Ledger :=
  { σ with data := Function.update σ.data c (σ.data c ++ data) }

/-- Somebody who may write to `writing` writes: data that is refused is lost, and nothing is known
of ducts that others write to. -/
def emit (σ : Ledger) (writing : Duct → Bool) (c : Duct) (data : Octets) : Ledger :=
  if writing c && (σ.refused c).isNone then σ.enter c data else σ

/-- Somebody writes one after the other. -/
def emitAll (σ : Ledger) (writing : Duct → Bool) (streams : Streams)
    (writes : List (Outlet × Octets)) : Ledger :=
  writes.foldl (fun σ w => σ.emit writing (streams.sink w.1).duct w.2) σ

/-- A duct has been read up to `rest`. -/
def leave (σ : Ledger) (c : Duct) (rest : Octets) : Ledger :=
  { σ with data := Function.update σ.data c rest }

/-- One more companion. -/
def joinedBy (σ : Ledger) (k : Companion) : Ledger := { σ with companions := σ.companions ++ [k] }

/-- A program runs on its whole input. -/
def perform (σ : Ledger) (writing : Duct → Bool) (streams : Streams) (run : Octets → Report) :
    Ledger :=
  (σ.leave streams.stdin.duct "").emitAll writing streams
    (run (σ.data streams.stdin.duct)).writes

/-- The ducts of a command that the one who keeps the ledger lets it write to. -/
def lets (σ : Ledger) (streams : Streams) : List Duct :=
  [streams.stdout.duct, streams.stderr.duct].filter σ.writes

/-- A program has been started, and runs at once, since its input is complete. -/
def start (σ : Ledger) (pid : Pid) (streams : Streams) (run : Octets → Report) : Ledger :=
  (σ.perform (· ∈ σ.lets streams) streams run).joinedBy ⟨.process pid, [streams.stdin.duct],
    σ.lets streams, .ended (run (σ.data streams.stdin.duct)).code⟩

/-- A program has been started, and waits for its input. -/
def suspend (σ : Ledger) (pid : Pid) (streams : Streams) (run : Octets → Report) : Ledger :=
  σ.joinedBy ⟨.process pid, [streams.stdin.duct], σ.lets streams, .waits streams run⟩

/-- The programs among `companions` that have waited for a duct run. -/
def rouse (σ : Ledger) (c : Duct) : List Companion → Ledger
  | [] => σ
  | k :: rest => match k.progress with
    | .waits streams run =>
      if streams.stdin.duct = c then
        ((σ.perform (· ∈ k.writing) streams run).joinedBy
          { k with progress := .ended (run (σ.data c)).code }).rouse c rest
      else (σ.joinedBy k).rouse c rest
    | .ended _ => (σ.joinedBy k).rouse c rest

/-- The end to read from a pipe has been closed. -/
def closeReader (σ : Ledger) (p : PipeId) : Ledger :=
  { σ with reads := Function.update σ.reads (.pipe p) false }

/-- The end to write to a pipe has been closed; programs that have waited for that run. -/
def closeWriter (σ : Ledger) (p : PipeId) : Ledger :=
  { σ with writes := Function.update σ.writes (.pipe p) false, companions := [] }.rouse (.pipe p)
    σ.companions

/-- A pipe has been made. -/
def openPipe (σ : Ledger) (p : PipeId) : Ledger :=
  { σ with
    data := Function.update σ.data (.pipe p) ""
    refused := Function.update σ.refused (.pipe p) none
    reads := Function.update σ.reads (.pipe p) true
    writes := Function.update σ.writes (.pipe p) true
    next := p + 1 }

/-- A file has been opened for reading. -/
def openInput (σ : Ledger) (f : FileId) (data : Octets) : Ledger :=
  { σ with
    data := Function.update σ.data (.file f) data
    reads := Function.update σ.reads (.file f) true
    writes := Function.update σ.writes (.file f) false
    next := f + 1 }

/-- A file has been opened for writing.  Others may write to it, too. -/
def openOutput (σ : Ledger) (f : FileId) (refusal : Option Errno) : Ledger :=
  { σ with
    refused := Function.update σ.refused (.file f) refusal
    writes := Function.update σ.writes (.file f) false
    next := f + 1 }

/-- Somebody is not among the companions. -/
def Lacks (σ : Ledger) (who : Runner) : Prop := ∀ k ∈ σ.companions, k.who ≠ who

/-- Some process is not among the companions. -/
lemma exists_lacks (σ : Ledger) : ∃ pid, σ.Lacks (.process pid) := by
  let taken := σ.companions.map fun k => match k.who with
    | .process pid => pid
    | .thread _ => 0
  obtain ⟨pid, hpid⟩ := Infinite.exists_notMem_finset taken.toFinset
  refine ⟨pid, fun k hk hwho => hpid ?_⟩
  exact List.mem_toFinset.2 (List.mem_map.2 ⟨k, hk, by rw [hwho]⟩)

/-- Somebody runs and ends with this code. -/
def Ends (σ : Ledger) (who : Runner) (code : Int) : Prop :=
  (∃ k ∈ σ.companions, k.who = who) ∧
    ∀ k ∈ σ.companions, k.who = who → k.progress = .ended code

/-- Somebody has been waited for. -/
def without (σ : Ledger) (who : Runner) : Ledger :=
  { σ with companions := σ.companions.filter (·.who ≠ who) }

end Ledger

/-! ## Answers -/

/-- A request about jobs that only tells the table who is in the foreground or belongs to a job. -/
def JobTable.Op.isNotice : JobTable.Op → Bool
  | .seize .. | .yieldBack _ | .adopt .. | .release .. => true
  | _ => false

/-- How an ideal system answers a request, and the ledger behind it.  Where the numbers that it
gives out are, and what it makes of notices about jobs, is up to the system. -/
inductive Ideal.Answers (os : Ideal) (σ : Ledger) : (c : Call) → Reply c → Ledger → Prop where
  | view {v : View} : os.Sees v → Answers os σ .view v σ
  | input {path : String} {data : Octets} {f : FileId} : os.input path = .ok data → σ.next ≤ f →
      Answers os σ (.openInput path) (.ok f) (σ.openInput f data)
  | noInput {path : String} {e : IoError} : os.input path = .error e →
      Answers os σ (.openInput path) (.error e) σ
  | output {path : String} {append : Bool} {refusal : Option Errno} {f : FileId} :
      os.output path append = .ok refusal → σ.next ≤ f →
      Answers os σ (.openOutput path append) (.ok f) (σ.openOutput f refusal)
  | noOutput {path : String} {append : Bool} {e : IoError} : os.output path append = .error e →
      Answers os σ (.openOutput path append) (.error e) σ
  | write {dst : Sink} {data : Octets} : σ.refused dst.duct = none →
      (σ.writes dst.duct = true → σ.Unwritten dst.duct) →
      Answers os σ (.write dst data) (.ok ()) (σ.emit σ.writes dst.duct data)
  | refuses {dst : Sink} {data : Octets} {e : Errno} : σ.refused dst.duct = some e →
      Answers os σ (.write dst data) (.error e) σ
  | pipe {p : PipeId} : σ.next ≤ p → Answers os σ .pipe p (σ.openPipe p)
  | closeReader {p : PipeId} : Answers os σ (.close (.reader p)) () (σ.closeReader p)
  | closeWriter {p : PipeId} : σ.Settled (.pipe p) →
      Answers os σ (.close (.writer p)) () (σ.closeWriter p)
  | starts {s : Spawn} {run : Octets → Report} {pid : Pid} {helpers : List Helper} :
      os.program s.argv s.env s.cwd = .ok run → σ.Readable s.streams.stdin.duct →
      (∀ c ∈ σ.lets s.streams, σ.Unwritten c) → σ.Lacks (.process pid) →
      (∀ h ∈ helpers, ∃ c, h = .channel c) →
      Answers os σ (.spawn s) (.ok (pid, helpers)) (σ.start pid s.streams run)
  | suspends {s : Spawn} {run : Octets → Report} {pid : Pid} {helpers : List Helper} :
      os.program s.argv s.env s.cwd = .ok run → σ.reads s.streams.stdin.duct = true →
      σ.writes s.streams.stdin.duct = true → σ.Unread s.streams.stdin.duct →
      (∀ c ∈ σ.lets s.streams, σ.Unwritten c) → σ.Lacks (.process pid) →
      (∀ h ∈ helpers, ∃ c, h = .channel c) →
      Answers os σ (.spawn s) (.ok (pid, helpers)) (σ.suspend pid s.streams run)
  | noProgram {s : Spawn} {e : IoError} : os.program s.argv s.env s.cwd = .error e →
      Answers os σ (.spawn s) (.error e) σ
  | joins {t : TaskId} {code : Int} : σ.Ends (.thread t) code →
      Answers os σ (.join (.thread t)) ()
        { σ.without (.thread t) with results := (t, code) :: σ.results }
  | joinsChannel {c : ChannelId} : Answers os σ (.join (.channel c)) () σ
  | result {t : TaskId} : Answers os σ (.result t) (σ.results.lookup t) σ
  | exits {pid : Pid} {code : Int} : σ.Ends (.process pid) code →
      Answers os σ (.waitExit pid) (.ok (.exited code)) (σ.without (.process pid))
  | pauses {pid : Pid} {code : Int} : σ.Ends (.process pid) code →
      Answers os σ (.waitPause pid) (.ok (some code)) (σ.without (.process pid))
  | notices {op : JobTable.Op} {r : op.Result} : op.isNotice = true → Answers os σ (.job op) r σ

lemma Ledger.Ends.unique {σ : Ledger} {who : Runner} {code code' : Int} (h : σ.Ends who code)
    (h' : σ.Ends who code') : code = code' := by
  obtain ⟨k, hk, hwho⟩ := h.1
  have hended := (h.2 k hk hwho).symm.trans (h'.2 k hk hwho)
  cases hended
  rfl

/-! ## Threads -/

/-- What is read by whoever reads from a source; he has a given text for himself anyway. -/
def Source.reading : Source → List Duct
  | .text _ => []
  | src => [src.duct]

/-- What a thread reads from. -/
def Body.reading : Body → List Duct
  | .stage _ streams _ => streams.stdin.reading
  | _ => []

/-- What a thread writes to. -/
def Body.writing : Body → List Duct
  | .stage _ streams _ => [streams.stdout.duct, streams.stderr.duct]
  | .feed p _ => [.pipe p]
  | _ => []

namespace Ledger

/-- The ledger of a thread at its start: of all ducts that its parent may use, it may use those
that it was started with. -/
def lend (σ : Ledger) (b : Body) : Ledger :=
  { σ with
    reads := fun c => decide (c ∈ b.reading ∧ σ.Readable c)
    writes := fun c => decide (c ∈ b.writing) && σ.writes c
    companions := []
    results := [] }

/-- What becomes of a ledger when a thread, whose own ledger is `σ'` in the end, has been
started. -/
def rejoin (σ : Ledger) (b : Body) (σ' : Ledger) (t : TaskId) (code : Int) : Ledger :=
  { σ with
    data := fun c => if c ∈ b.reading ++ b.writing then σ'.data c else σ.data c
    companions := σ.companions ++
      [⟨.thread t, b.reading, b.writing.filter σ.writes, .ended code⟩]
    next := t + 1 }

end Ledger

/-! ## Following a tree -/

/-- However an ideal system answers, the tree comes to an end, with a ledger and a value as `Q`
says.  A thread is followed when it is started, and may leave nobody behind who runs. -/
inductive Act.Yields (os : Ideal) :
    {α : Type} → Ledger → Act α → (Ledger → α → Prop) → Prop where
  | done {α : Type} {σ : Ledger} {a : α} {Q : Ledger → α → Prop} : Q σ a → Yields os σ (.done a) Q
  | call {α : Type} {σ : Ledger} {c : Call} {next : Reply c → Act α} {Q : Ledger → α → Prop} :
      (∃ r σ', os.Answers σ c r σ') →
      (∀ r σ', os.Answers σ c r σ' → Yields os σ' (next r) Q) → Yields os σ (.call c next) Q
  | fork {α : Type} {σ : Ledger} {b : Body} {next : TaskId → Act α} {Q : Ledger → α → Prop}
      {R : Ledger → Int → Prop} :
      (∀ c ∈ b.writing, σ.writes c = true → σ.Unwritten c) →
      Yields os (σ.lend b) b.act R → (∀ σ' code, R σ' code → σ'.companions = []) →
      (∀ σ' code t, R σ' code → σ.next ≤ t → Yields os (σ.rejoin b σ' t code) (next t) Q) →
      Yields os σ (.call (.fork b) next) Q

namespace Act.Yields

variable {os : Ideal} {α β : Type} {σ : Ledger}

/-- **One tree behind another.** -/
theorem bind {x : Act α} {R : Ledger → α → Prop} (h : Yields os σ x R) {f : α → Act β}
    {Q : Ledger → β → Prop} (hf : ∀ σ' a, R σ' a → Yields os σ' (f a) Q) :
    Yields os σ (x >>= f) Q := by
  induction h with
  | done ha => exact hf _ _ ha
  | call hsome _ ih => exact .call hsome fun r σ' hr => ih r σ' hr hf
  | fork hclear hchild hnobody _ _ ih =>
    exact .fork hclear hchild hnobody fun σ' code t hr ht => ih σ' code t hr ht hf

lemma mono {x : Act α} {R Q : Ledger → α → Prop} (h : Yields os σ x R)
    (hRQ : ∀ σ' a, R σ' a → Q σ' a) : Yields os σ x Q := by
  induction h with
  | done ha => exact .done (hRQ _ _ ha)
  | call hsome _ ih => exact .call hsome fun r σ' hr => ih r σ' hr hRQ
  | fork hclear hchild hnobody _ _ ih =>
    exact .fork hclear hchild hnobody fun σ' code t hr ht => ih σ' code t hr ht hRQ

/-- **What a tree yields, some run of it comes to.** -/
theorem exists_runs {x : Act α} {Q : Ledger → α → Prop} (h : Yields os σ x Q) :
    ∃ tr a σ', x.Runs tr a ∧ Q σ' a := by
  induction h with
  | @done α σ a Q ha => exact ⟨[], a, σ, .done a, ha⟩
  | call hsome _ ih =>
    obtain ⟨r, σ', hr⟩ := hsome
    obtain ⟨tr, a, σ'', hruns, hQ⟩ := ih r σ' hr
    exact ⟨_, a, σ'', .call r hruns, hQ⟩
  | @fork α σ b next Q R hclear hchild hnobody hnext ihchild ih =>
    obtain ⟨-, code, σ', -, hR⟩ := ihchild
    obtain ⟨tr, a, σ'', hruns, hQ⟩ := ih σ' code σ.next hR (Nat.le_refl _)
    exact ⟨_, a, σ'', .call σ.next hruns, hQ⟩

end Act.Yields

/-! ## Requests -/

namespace Act.Yields

variable {os : Ideal} {α : Type} {σ : Ledger} {Q : Ledger → α → Prop}

lemma pure {a : α} (h : Q σ a) : Yields os σ (Pure.pure a) Q := .done h

lemma view {next : View → Act α} (h : ∀ v, os.Sees v → Yields os σ (next v) Q) :
    Yields os σ (.call .view next) Q := by
  refine .call ⟨_, _, .view os.sees_view⟩ fun v σ' hv => ?_
  cases hv with
  | view hv => exact h v hv

lemma openInput {path : String} {next : Except IoError FileId → Act α} {data : Octets}
    (hpath : os.input path = .ok data)
    (h : ∀ f, σ.next ≤ f → Yields os (σ.openInput f data) (next (.ok f)) Q) :
    Yields os σ (.call (.openInput path) next) Q := by
  refine .call ⟨_, _, .input hpath (Nat.le_refl _)⟩ fun r σ' hr => ?_
  cases hr with
  | @input _ data' f hdata hf =>
    cases hpath.symm.trans hdata
    exact h f hf
  | noInput he => cases hpath.symm.trans he

lemma openOutput {path : String} {append : Bool} {next : Except IoError FileId → Act α}
    {refusal : Option Errno} (hpath : os.output path append = .ok refusal)
    (h : ∀ f, σ.next ≤ f → Yields os (σ.openOutput f refusal) (next (.ok f)) Q) :
    Yields os σ (.call (.openOutput path append) next) Q := by
  refine .call ⟨_, _, .output hpath (Nat.le_refl _)⟩ fun r σ' hr => ?_
  cases hr with
  | @output _ _ refusal' f hrefusal hf =>
    cases hpath.symm.trans hrefusal
    exact h f hf
  | noOutput he => cases hpath.symm.trans he

lemma write {dst : Sink} {data : Octets} {next : Except Errno Unit → Act α}
    (haccepts : σ.refused dst.duct = none)
    (halone : σ.writes dst.duct = true → σ.Unwritten dst.duct)
    (h : Yields os (σ.emit σ.writes dst.duct data) (next (.ok ())) Q) :
    Yields os σ (.call (.write dst data) next) Q := by
  refine .call ⟨_, _, .write haccepts halone⟩ fun r σ' hr => ?_
  cases hr with
  | write => exact h
  | refuses he => cases haccepts.symm.trans he

lemma refuses {dst : Sink} {data : Octets} {next : Except Errno Unit → Act α} {e : Errno}
    (hrefuses : σ.refused dst.duct = some e) (h : Yields os σ (next (.error e)) Q) :
    Yields os σ (.call (.write dst data) next) Q := by
  refine .call ⟨_, _, .refuses hrefuses⟩ fun r σ' hr => ?_
  cases hr with
  | write haccepts => cases hrefuses.symm.trans haccepts
  | refuses he =>
    cases hrefuses.symm.trans he
    exact h

/-- A text of which the one who writes it does not care whether it is refused. -/
lemma tell {dst : Sink} {text : String} {next : Except Errno Unit → Act α}
    (halone : σ.writes dst.duct = true → σ.Unwritten dst.duct)
    (h : ∀ r, Yields os (σ.emit σ.writes dst.duct (Octets.ofText text)) (next r) Q) :
    Yields os σ (Act.tell dst text >>= next) Q := by
  cases hrefused : σ.refused dst.duct with
  | none => exact .write hrefused halone (h _)
  | some e =>
    refine .refuses hrefused ?_
    have hsame : σ.emit σ.writes dst.duct (Octets.ofText text) = σ := by
      simp [Ledger.emit, hrefused]
    exact hsame ▸ h (.error e)

lemma pipe {next : PipeId → Act α} (h : ∀ p, σ.next ≤ p → Yields os (σ.openPipe p) (next p) Q) :
    Yields os σ (.call .pipe next) Q := by
  refine .call ⟨_, _, .pipe (Nat.le_refl _)⟩ fun p σ' hp => ?_
  cases hp with
  | pipe hp => exact h p hp

lemma closeReader {p : PipeId} {next : Unit → Act α} (h : Yields os (σ.closeReader p) (next ()) Q) :
    Yields os σ (.call (.close (.reader p)) next) Q := by
  refine .call ⟨_, _, .closeReader⟩ fun r σ' hr => ?_
  cases hr with
  | closeReader => exact h

lemma closeWriter {p : PipeId} {next : Unit → Act α} (hsettled : σ.Settled (.pipe p))
    (h : Yields os (σ.closeWriter p) (next ()) Q) :
    Yields os σ (.call (.close (.writer p)) next) Q := by
  refine .call ⟨_, _, .closeWriter hsettled⟩ fun r σ' hr => ?_
  cases hr with
  | closeWriter => exact h

/-- A program whose input is complete. -/
lemma starts {s : Spawn} {run : Octets → Report}
    {next : Except IoError (Pid × List Helper) → Act α}
    (hrun : os.program s.argv s.env s.cwd = .ok run) (hreadable : σ.Readable s.streams.stdin.duct)
    (halone : ∀ c ∈ σ.lets s.streams, σ.Unwritten c)
    (h : ∀ pid helpers, σ.Lacks (.process pid) → (∀ h ∈ helpers, ∃ c, h = Helper.channel c) →
      Yields os (σ.start pid s.streams run) (next (.ok (pid, helpers))) Q) :
    Yields os σ (.call (.spawn s) next) Q := by
  obtain ⟨pid₀, hpid₀⟩ := σ.exists_lacks
  have hanswer : os.Answers σ (.spawn s) (.ok (pid₀, [])) (σ.start pid₀ s.streams run) :=
    .starts hrun hreadable halone hpid₀ (by simp)
  refine .call ⟨_, _, hanswer⟩ fun r σ' hr => ?_
  cases hr with
  | starts hrun' _ _ hpid hhelpers =>
    cases hrun.symm.trans hrun'
    exact h _ _ hpid hhelpers
  | suspends _ _ hwrites => simp [hreadable.2.1] at hwrites
  | noProgram he => cases hrun.symm.trans he

/-- A program whose input is not complete. -/
lemma suspends {s : Spawn} {run : Octets → Report}
    {next : Except IoError (Pid × List Helper) → Act α}
    (hrun : os.program s.argv s.env s.cwd = .ok run)
    (hreads : σ.reads s.streams.stdin.duct = true) (hwrites : σ.writes s.streams.stdin.duct = true)
    (hunread : σ.Unread s.streams.stdin.duct) (halone : ∀ c ∈ σ.lets s.streams, σ.Unwritten c)
    (h : ∀ pid helpers, σ.Lacks (.process pid) → (∀ h ∈ helpers, ∃ c, h = Helper.channel c) →
      Yields os (σ.suspend pid s.streams run) (next (.ok (pid, helpers))) Q) :
    Yields os σ (.call (.spawn s) next) Q := by
  obtain ⟨pid₀, hpid₀⟩ := σ.exists_lacks
  have hanswer : os.Answers σ (.spawn s) (.ok (pid₀, [])) (σ.suspend pid₀ s.streams run) :=
    .suspends hrun hreads hwrites hunread halone hpid₀ (by simp)
  refine .call ⟨_, _, hanswer⟩ fun r σ' hr => ?_
  cases hr with
  | starts _ hreadable => simp [hreadable.2.1] at hwrites
  | suspends hrun' _ _ _ _ hpid hhelpers =>
    cases hrun.symm.trans hrun'
    exact h _ _ hpid hhelpers
  | noProgram he => cases hrun.symm.trans he

lemma noProgram {s : Spawn} {e : IoError} {next : Except IoError (Pid × List Helper) → Act α}
    (he : os.program s.argv s.env s.cwd = .error e) (h : Yields os σ (next (.error e)) Q) :
    Yields os σ (.call (.spawn s) next) Q := by
  refine .call ⟨_, _, .noProgram he⟩ fun r σ' hr => ?_
  cases hr with
  | starts hrun => cases he.symm.trans hrun
  | suspends hrun => cases he.symm.trans hrun
  | noProgram he' =>
    cases he.symm.trans he'
    exact h

lemma joins {t : TaskId} {code : Int} {next : Unit → Act α} (hends : σ.Ends (.thread t) code)
    (h : Yields os { σ.without (.thread t) with results := (t, code) :: σ.results } (next ()) Q) :
    Yields os σ (.call (.join (.thread t)) next) Q := by
  refine .call ⟨_, _, .joins hends⟩ fun r σ' hr => ?_
  cases hr with
  | joins hends' =>
    cases hends.unique hends'
    exact h

lemma joinsChannel {c : ChannelId} {next : Unit → Act α} (h : Yields os σ (next ()) Q) :
    Yields os σ (.call (.join (.channel c)) next) Q := by
  refine .call ⟨_, _, .joinsChannel⟩ fun r σ' hr => ?_
  cases hr with
  | joinsChannel => exact h

lemma result {t : TaskId} {next : Option Int → Act α}
    (h : Yields os σ (next (σ.results.lookup t)) Q) : Yields os σ (.call (.result t) next) Q := by
  refine .call ⟨_, _, .result⟩ fun r σ' hr => ?_
  cases hr with
  | result => exact h

lemma exits {pid : Pid} {code : Int} {next : Except Errno Ending → Act α}
    (hends : σ.Ends (.process pid) code)
    (h : Yields os (σ.without (.process pid)) (next (.ok (.exited code))) Q) :
    Yields os σ (.call (.waitExit pid) next) Q := by
  refine .call ⟨_, _, .exits hends⟩ fun r σ' hr => ?_
  cases hr with
  | exits hends' =>
    cases hends.unique hends'
    exact h

lemma pauses {pid : Pid} {code : Int} {next : Except Errno (Option Int) → Act α}
    (hends : σ.Ends (.process pid) code)
    (h : Yields os (σ.without (.process pid)) (next (.ok (some code))) Q) :
    Yields os σ (.call (.waitPause pid) next) Q := by
  refine .call ⟨_, _, .pauses hends⟩ fun r σ' hr => ?_
  cases hr with
  | pauses hends' =>
    cases hends.unique hends'
    exact h

lemma notices {op : JobTable.Op} {next : op.Result → Act α} (hop : op.isNotice = true)
    (hsome : Nonempty op.Result) (h : ∀ r, Yields os σ (next r) Q) :
    Yields os σ (.call (.job op) next) Q := by
  obtain ⟨r₀⟩ := hsome
  refine .call ⟨r₀, _, .notices hop⟩ fun r σ' hr => ?_
  cases hr with
  | notices => exact h r

end Act.Yields

/-! ## Later ledgers -/

namespace Ledger

variable {n : Nat} {σ σ' σ'' : Ledger}

/-- A later ledger agrees about all ducts that were there before number `n` was given out. -/
structure Extends (n : Nat) (σ σ' : Ledger) : Prop where
  next : σ.next ≤ σ'.next
  data : ∀ c : Duct, c.Below n → σ'.data c = σ.data c
  refused : ∀ c : Duct, c.Below n → σ'.refused c = σ.refused c
  reads : ∀ c : Duct, c.Below n → σ'.reads c = σ.reads c
  writes : ∀ c : Duct, c.Below n → σ'.writes c = σ.writes c

lemma Extends.refl (n : Nat) (σ : Ledger) : Extends n σ σ where
  next := Nat.le_refl _
  data _ _ := rfl
  refused _ _ := rfl
  reads _ _ := rfl
  writes _ _ := rfl

lemma Extends.trans (h : Extends n σ σ') (h' : Extends n σ' σ'') : Extends n σ σ'' where
  next := Nat.le_trans h.next h'.next
  data c hc := (h'.data c hc).trans (h.data c hc)
  refused c hc := (h'.refused c hc).trans (h.refused c hc)
  reads c hc := (h'.reads c hc).trans (h.reads c hc)
  writes c hc := (h'.writes c hc).trans (h.writes c hc)

lemma Extends.mono {m : Nat} (hnm : n ≤ m) (h : Extends m σ σ') : Extends n σ σ' where
  next := h.next
  data c hc := h.data c (hc.mono hnm)
  refused c hc := h.refused c (hc.mono hnm)
  reads c hc := h.reads c (hc.mono hnm)
  writes c hc := h.writes c (hc.mono hnm)

/-- Somebody has read one duct up to `rest` and written to another. -/
def effect (σ : Ledger) (src : Duct) (rest : Octets) (dst : Duct) (out : Octets) : Ledger :=
  (σ.leave src rest).enter dst out

lemma effect_data (src : Duct) (rest : Octets) (dst : Duct) (out : Octets) (c : Duct) :
    (σ.effect src rest dst out).data c =
      if c = dst then (if dst = src then rest else σ.data dst) ++ out
      else if c = src then rest else σ.data c := by
  simp only [effect, enter, leave, Function.update_apply]

/-- To read nothing is to leave all of it. -/
lemma effect_self (src dst : Duct) (out : Octets) :
    σ.effect src (σ.data src) dst out = σ.enter dst out := by
  simp [effect, leave]

@[simp] lemma enter_empty (dst : Duct) : σ.enter dst "" = σ := by
  simp [enter]

@[simp] lemma enter_enter (dst : Duct) (out out' : Octets) :
    (σ.enter dst out).enter dst out' = σ.enter dst (out ++ out') := by
  simp [enter, String.append_assoc]

/-- One effect behind another on the same ducts. -/
lemma effect_effect {src dst : Duct} (h : src ≠ dst) (rest rest' out out' : Octets) :
    (σ.effect src rest dst out).effect src rest' dst out' =
      σ.effect src rest' dst (out ++ out') := by
  have hdata : ((σ.effect src rest dst out).effect src rest' dst out').data =
      (σ.effect src rest' dst (out ++ out')).data := by
    funext c
    simp only [effect_data]
    split_ifs <;> simp_all [String.append_assoc]
  calc (σ.effect src rest dst out).effect src rest' dst out'
      = { σ with data := ((σ.effect src rest dst out).effect src rest' dst out').data } := rfl
    _ = σ.effect src rest' dst (out ++ out') := by
      rw [hdata]
      rfl

/-- An effect is the same later. -/
lemma Extends.effect (h : Extends n σ σ') (src : Duct) (rest : Octets) {dst : Duct}
    (hdst : dst.Below n) (out : Octets) :
    Extends n (σ.effect src rest dst out) (σ'.effect src rest dst out) where
  next := h.next
  data c hc := by
    have hdata := h.data c hc
    have hdata' := h.data dst hdst
    simp only [effect_data]
    grind
  refused := h.refused
  reads := h.reads
  writes := h.writes

end Ledger

end Conch
