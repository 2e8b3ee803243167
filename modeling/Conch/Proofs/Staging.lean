import Conch.Proofs.Gathering
import Conch.Proofs.Supply

/-!
# What the stages of a pipeline do

A stage that gets its streams does what its element means: a builtin writes what it has to say, a
program is started on its input, and the body of a group or subshell runs on a share of the input
if that is a given text.

## Main definitions

* `Ledger.Follows` — the ledger behind a command that comes to something.
* `Command.Adequate` — a command does what it means.
* `Ledger.Starts` — somebody has been started.

## Main results

* `Stage.runInside_simple_yields`, `Stage.runInside_nested_yields` — stages that the shell runs
  itself.
* `Pipeline.startProgram_yields` — a program that is started.
-/

set_option autoImplicit false

namespace Conch

open Act (Yields)
open Text (Octets)
open Builtin (Outlet)

/-! ## Builtins -/

section Builtins

variable {os : Ideal} {σ : Ledger} {streams : Streams} {w : Wiring} {port : Port} {dst : Duct}

lemma Wiring.passed_append (w : Wiring) (port : Port) (writes writes' : List (Outlet × Octets)) :
    w.passed port (writes ++ writes') = w.passed port writes ++ w.passed port writes' := by
  induction writes with
  | nil => simp [passed]
  | cons first rest ih => simp [passed, ih, String.append_assoc]

/-- Nobody else writes where a command writes. -/
lemma Ledger.Plumbed.alone (h : σ.Plumbed streams w port dst) (o : Outlet)
    (hwrites : σ.writes (streams.sink o).duct = true) : σ.Unwritten (streams.sink o).duct :=
  h.leads o hwrites ▸ h.unwritten

/-- A text of which the one who writes it does not care whether it is refused. -/
lemma Ledger.Plumbed.tell (h : σ.Plumbed streams w port dst) (o : Outlet) (text : String) :
    Yields os σ (Act.tell (streams.sink o) text) fun σ' _ =>
      σ' = σ.enter dst (w.passed port [(o, Octets.ofText text)]) := by
  rw [← bind_pure (Act.tell _ _)]
  refine Yields.tell (h.alone o) fun r => .pure ?_
  rw [h.emit (fun _ => rfl)]
  simp [Wiring.passed]

namespace Builtin

lemma writeTo_eq (streams : Streams) (outlet : Outlet) (text : String) :
    writeTo streams outlet text =
      if text.isEmpty then pure (.ok ())
      else .call (.write (streams.sink outlet) (Octets.ofText text)) fun
        | .ok () => .done (.ok ())
        | .error e => .done (.error (.io (.os e))) := by
  unfold writeTo
  split
  · rfl
  · cases outlet <;> refine congrArg (Act.call _) (funext fun r => ?_) <;> cases r <;> rfl

/-- A builtin writes its texts up to the first that is refused. -/
lemma perform_yields (h : σ.Plumbed streams w port dst) (o : Outcome) (writes : List Write) :
    Yields os σ (perform streams o writes) fun σ' r =>
      r = (performed (w.refusal port) o writes).2 ∧
        σ' = σ.enter dst (w.passed port (performed (w.refusal port) o writes).1) := by
  induction writes generalizing σ with
  | nil => exact .pure ⟨rfl, by simp [performed, Wiring.passed]⟩
  | cons first rest ih =>
    simp only [perform, writeTo_eq, performed]
    cases hempty : first.text.isEmpty with
    | true => simpa using ih h
    | false =>
      cases hrefusal : w.refusal port first.outlet with
      | some e =>
        refine .refuses ((h.refused _).trans hrefusal) ?_
        exact .pure ⟨by simp, by simp [Wiring.passed]⟩
      | none =>
        refine .write ((h.refused _).trans hrefusal) (h.alone _) ?_
        rw [h.emit (fun _ => rfl)]
        refine (ih (h.enter _)).mono ?_
        rintro _ _ ⟨rfl, rfl⟩
        exact ⟨rfl, by simp [Wiring.passed]⟩

end Builtin

/-- A builtin that does not deal with jobs does its deed. -/
lemma Stage.runBuiltin_yields (h : σ.Plumbed streams w port dst) {b : Builtin}
    (hb : b.isJobControl = false) {argv : List String} {s : Session}
    (hsteady : (Sight.builtin b argv.tail s).Steady os) :
    Yields os σ (Stage.runBuiltin b argv streams s) fun σ' r =>
      r = (b.deed (w.refusal port) argv s os.view).2 ∧
        σ' = σ.enter dst (w.passed port (b.deed (w.refusal port) argv s os.view).1) := by
  simp only [Stage.runBuiltin, Builtin.run_of_not_isJobControl hb, Act.ask_bind, Act.call_bind]
  refine .view fun v hv => ?_
  rw [hsteady v hv]
  unfold Builtin.deed
  cases b.outcome argv.tail s os.view with
  | none => exact .pure ⟨rfl, by simp [Wiring.passed]⟩
  | some o =>
    dsimp only
    refine (Builtin.perform_yields h o o.writes).bind ?_
    rintro _ _ ⟨rfl, rfl⟩
    generalize Builtin.performed (w.refusal port) o o.writes = result
    rcases result with ⟨writes, e | code, s'⟩
    · refine ((h.enter _).tell .err _).bind ?_
      rintro _ - rfl
      exact .pure ⟨rfl, by rw [Ledger.enter_enter, Wiring.passed_append]⟩
    · exact .pure ⟨rfl, rfl⟩

end Builtins

/-! ## Pipes that are fed with a text -/

namespace Ledger

variable {n : Nat} {σ σ' : Ledger}

/-- A thread has been started that writes a text into a pipe. -/
def fed (σ : Ledger) (p : PipeId) (text : String) (t : TaskId) : Ledger :=
  { σ.enter (.pipe p) (Octets.ofText text) with
    companions := σ.companions ++ [⟨.thread t, [], [.pipe p], .ended 0⟩]
    next := t + 1 }

/-- Programs that have come to their end are not roused. -/
lemma rouse_of_isEnded {c : Duct} {companions : List Companion}
    (h : ∀ k ∈ companions, k.progress.isEnded = true) :
    σ.rouse c companions = { σ with companions := σ.companions ++ companions } := by
  induction companions generalizing σ with
  | nil => simp [rouse]
  | cons k rest ih =>
    have hended := h k (by simp)
    cases hprogress : k.progress with
    | waits streams run => simp [hprogress, Progress.isEnded] at hended
    | ended code =>
      simp only [rouse, hprogress]
      rw [ih fun k hk => h k (by simp [hk])]
      simp [joinedBy]

lemma closeWriter_of_isEnded (h : ∀ k ∈ σ.companions, k.progress.isEnded = true) (p : PipeId) :
    σ.closeWriter p = { σ with writes := Function.update σ.writes (.pipe p) false } := by
  rw [closeWriter, rouse_of_isEnded h]
  simp

lemma extends_openPipe {p : PipeId} (hp : σ.next ≤ p) : Extends σ.next σ (σ.openPipe p) where
  next := Nat.le_succ_of_le hp
  data _ hc := Function.update_of_ne (hc.ne_pipe hp) _ _
  refused _ hc := Function.update_of_ne (hc.ne_pipe hp) _ _
  reads _ hc := Function.update_of_ne (hc.ne_pipe hp) _ _
  writes _ hc := Function.update_of_ne (hc.ne_pipe hp) _ _

lemma extends_closeReader {p : PipeId} (hp : n ≤ p) : Extends n σ (σ.closeReader p) where
  next := Nat.le_refl _
  data _ _ := rfl
  refused _ _ := rfl
  reads _ hc := Function.update_of_ne (hc.ne_pipe hp) _ _
  writes _ _ := rfl

lemma extends_closeWriter (h : ∀ k ∈ σ.companions, k.progress.isEnded = true) {p : PipeId}
    (hp : n ≤ p) : Extends n σ (σ.closeWriter p) := by
  rw [closeWriter_of_isEnded h]
  exact
    { next := Nat.le_refl _
      data := fun _ _ => rfl
      refused := fun _ _ => rfl
      reads := fun _ _ => rfl
      writes := fun _ hc => Function.update_of_ne (hc.ne_pipe hp) _ _ }

lemma extends_fed {p : PipeId} (hp : n ≤ p) (text : String) {t : TaskId} (ht : σ.next ≤ t) :
    Extends n σ (σ.fed p text t) where
  next := Nat.le_succ_of_le ht
  data _ hc := Function.update_of_ne (hc.ne_pipe hp) _ _
  refused _ _ := rfl
  reads _ _ := rfl
  writes _ _ := rfl

/-- Whoever reads from a duct that was not there before cannot be seen to do so. -/
lemma Extends.effect_unseen (h : Extends n σ σ') {src src' : Duct} (hsrc : ¬src.Below n)
    (hsrc' : ¬src'.Below n) (rest rest' : Octets) {dst : Duct} (hdst : dst.Below n)
    (out : Octets) : Extends n (σ.effect src rest dst out) (σ'.effect src' rest' dst out) where
  next := h.next
  data c hc := by
    have hdata := h.data c hc
    have hdata' := h.data dst hdst
    simp only [effect_data]
    grind
  refused := h.refused
  reads := h.reads
  writes := h.writes

end Ledger

/-- A thread that writes a text into a pipe. -/
lemma Act.Yields.feeds {os : Ideal} {α : Type} {σ : Ledger} {Q : Ledger → α → Prop} {p : PipeId}
    {text : String} {next : TaskId → Act α} (haccepts : σ.refused (.pipe p) = none)
    (hwrites : σ.writes (.pipe p) = true) (hunwritten : σ.Unwritten (.pipe p))
    (h : ∀ t, σ.next ≤ t → Yields os (σ.fed p text t) (next t) Q) :
    Yields os σ (.call (.fork (.feed p text)) next) Q := by
  refine .fork (R := fun σ' code => code = 0 ∧ σ'.companions = [] ∧
    σ'.data (.pipe p) = σ.data (.pipe p) ++ Octets.ofText text) ?_ ?_ (fun _ _ h => h.2.1) ?_
  · intro c hc _
    cases List.mem_singleton.1 hc
    exact hunwritten
  · have hlent : (σ.lend (.feed p text)).writes (.pipe p) = true := by
      simp [Ledger.lend, Body.writing, hwrites]
    have hnobody : (σ.lend (.feed p text)).Unwritten (.pipe p) := by
      simp [Ledger.Unwritten, Ledger.lend]
    refine .write haccepts (fun _ => hnobody) (.done ⟨rfl, ?_⟩)
    have haccepts' : (σ.lend (.feed p text)).refused (Sink.pipe p).duct = none := haccepts
    have hlent' : (σ.lend (.feed p text)).writes (Sink.pipe p).duct = true := hlent
    simp only [Ledger.emit, hlent', haccepts', Option.isNone_none, Bool.and_self, if_true]
    exact ⟨rfl, Function.update_self ..⟩
  · rintro σ' _ t ⟨rfl, hnobody, hdata⟩ ht
    have hrejoined : (σ.rejoin (.feed p text) σ' t 0).data = (σ.fed p text t).data := by
      funext c
      by_cases hc : c = .pipe p
      · subst hc
        simp [Ledger.rejoin, Body.reading, Body.writing, hdata, Ledger.fed, Ledger.enter]
      · simp [Ledger.rejoin, Body.reading, Body.writing, hc, Ledger.fed, Ledger.enter]
    have hrejoin : σ.rejoin (.feed p text) σ' t 0 = σ.fed p text t :=
      calc σ.rejoin (.feed p text) σ' t 0
          = { σ.fed p text t with data := (σ.rejoin (.feed p text) σ' t 0).data } := by
            simp [Ledger.rejoin, Ledger.fed, Ledger.enter, Body.reading, Body.writing, hwrites]
        _ = σ.fed p text t := by rw [hrejoined]
    rw [hrejoin]
    exact h t ht

/-! ## Stages that the shell runs itself -/

namespace Ledger

variable {σ σ' : Ledger} {streams : Streams} {input : Octets} {port : Port}

/-- The ledger behind a command that comes to something: it has read and written what it does, and
leaves nobody behind. -/
structure Follows (σ : Ledger) (streams : Streams) (f : Flow) (σ' : Ledger) : Prop where
  later : Extends σ.next (σ.effect streams.stdin.duct f.rest streams.stdout.duct f.out) σ'
  companions : σ'.companions = σ.companions

/-- Whoever does not read has left his input. -/
lemma extends_enter {n : Nat} {src dst : Duct} {rest : Octets}
    (hsrc : src.Below n → σ.data src = rest) (hdst : dst.Below n) (out : Octets) :
    Extends n (σ.effect src rest dst out) (σ.enter dst out) where
  next := Nat.le_refl _
  data c hc := by
    rw [← effect_self src]
    simp only [effect_data]
    grind
  refused _ _ := rfl
  reads _ _ := rfl
  writes _ _ := rfl

/-- The outputs of a command serve the next one with another input. -/
lemma Serves.next {n : Nat} (h : σ.Serves streams input port)
    (hout : streams.stdout.duct.Below n) (herr : streams.stderr.duct.Below n)
    {src dst : Duct} {rest out : Octets} (hext : Extends n (σ.effect src rest dst out) σ')
    (htidy : σ'.Tidy) (hunwritten : σ'.Unwritten streams.stdout.duct) {stdin : Source}
    {input' : Octets} (hstdin : σ'.Feeds stdin input') :
    σ'.Serves { streams with stdin } input' port where
  tidy := htidy
  stdin := hstdin
  stdout_below := h.stdout_below.mono hext.next
  stdout_writes := (hext.writes _ hout).trans h.stdout_writes
  stdout_unwritten := hunwritten
  stdout_refused := (hext.refused _ hout).trans h.stdout_refused
  stderr_below := h.stderr_below.mono hext.next
  stderr_writes := (hext.writes _ herr).trans h.stderr_writes
  stderr_refused := (hext.refused _ herr).trans h.stderr_refused

/-- A pipe has been made, and a thread has filled it with a text. -/
def filled (σ : Ledger) (p : PipeId) (text : String) (t : TaskId) : Ledger :=
  ((σ.openPipe p).fed p text t).closeWriter p

section Filled

variable {p : PipeId} (text : String) {t : TaskId}

lemma Tidy.fed (h : σ.Tidy) (hp : σ.next ≤ p) (ht : p < t) :
    ((σ.openPipe p).fed p text t).Tidy := by
  have hlacks : (σ.openPipe p).Lacks (.thread t) :=
    h.lacks_thread (Nat.le_trans hp (Nat.le_of_lt ht))
  have hopen : (σ.openPipe p).Tidy := h.of_companions rfl (Nat.le_succ_of_le hp)
  refine hopen.append rfl (Nat.le_succ_of_le ht) rfl hlacks ?_ ?_
  · rintro _ ⟨⟩
    exact Nat.lt_succ_self t
  · intro c hc
    obtain rfl : c = .pipe p := by simpa using hc
    exact Nat.lt_succ_of_lt ht

lemma filled_eq (h : σ.Tidy) (hp : σ.next ≤ p) (ht : p < t) :
    σ.filled p text t = { (σ.openPipe p).fed p text t with
      writes := Function.update (σ.openPipe p).writes (.pipe p) false } :=
  closeWriter_of_isEnded (h.fed text hp ht).ended p

lemma Tidy.filled (h : σ.Tidy) (hp : σ.next ≤ p) (ht : p < t) : (σ.filled p text t).Tidy := by
  refine (h.fed text hp ht).of_companions ?_ (Nat.le_of_eq ?_) <;> rw [filled_eq text h hp ht]

lemma extends_filled (h : σ.Tidy) (hp : σ.next ≤ p) (ht : p < t) :
    Extends σ.next σ (σ.filled p text t) :=
  (extends_openPipe hp).trans ((extends_fed hp text ht).trans
    (extends_closeWriter (h.fed text hp ht).ended hp))

lemma companions_filled (h : σ.Tidy) (hp : σ.next ≤ p) (ht : p < t) :
    (σ.filled p text t).companions =
      σ.companions ++ [⟨.thread t, [], [.pipe p], .ended 0⟩] := by
  rw [filled_eq text h hp ht]
  rfl

lemma feeds_filled (h : σ.Tidy) (hp : σ.next ≤ p) (ht : p < t) :
    (σ.filled p text t).Feeds (.pipe p) (Octets.ofText text) := by
  have hunread := (h.unused (c := .pipe p) (Nat.not_lt.2 hp)).1
  refine .inr ⟨?_, ⟨?_, ?_, ?_, (h.filled text hp ht).settled _⟩, ?_⟩
  · rw [filled_eq text h hp ht]
    exact Nat.lt_succ_of_lt ht
  · rw [filled_eq text h hp ht]
    exact Function.update_self ..
  · rw [filled_eq text h hp ht]
    exact Function.update_self ..
  · intro k hk
    rw [companions_filled text h hp ht] at hk
    rcases List.mem_append.1 hk with hold | hnew
    · exact hunread k hold
    · cases List.mem_singleton.1 hnew
      exact List.not_mem_nil
  · rw [filled_eq text h hp ht]
    simp [Ledger.fed, enter, openPipe, Source.duct]

/-- A pipe that has been filled serves as input. -/
lemma Serves.filled (h : σ.Serves streams input port) (hp : σ.next ≤ p) (ht : p < t) :
    (σ.filled p text t).Serves { streams with stdin := .pipe p } (Octets.ofText text) port := by
  have hext : Extends σ.next
      (σ.effect streams.stdin.duct (σ.data streams.stdin.duct) streams.stdout.duct "")
      (σ.filled p text t) := by
    rw [effect_self, enter_empty]
    exact extends_filled text h.tidy hp ht
  refine h.next h.stdout_below h.stderr_below hext (h.tidy.filled text hp ht) ?_
    (feeds_filled text h.tidy hp ht)
  intro k hk
  rw [companions_filled text h.tidy hp ht] at hk
  rcases List.mem_append.1 hk with hold | hnew
  · exact h.stdout_unwritten k hold
  · cases List.mem_singleton.1 hnew
    simpa using h.stdout_below.ne_pipe hp

end Filled

end Ledger

/-- A command does what it means: whoever gives it streams gets its status and session, and its
output. -/
def Command.Adequate (os : Ideal) (c : Command) : Prop :=
  ∀ {σ : Ledger} {streams : Streams} {s : Session} {input : Octets} {port : Port} {f : Flow},
    c.flow os port s input = some f → (∀ sight ∈ f.sights, sight.Steady os) →
    σ.Serves streams input port → (∀ t, streams.stdin ≠ .text t) →
    Yields os σ (c.run streams s) fun σ' r => r = (f.code, f.session) ∧ σ.Follows streams f σ'

/-- The body of a group or subshell does what it means. -/
def Element.Adequate (os : Ideal) : Element → Prop
  | .simple _ => True
  | .subshell body | .group body => body.Adequate os

namespace Stage

variable {os : Ideal} {σ : Ledger} {streams : Streams} {input : Octets} {port : Port}

/-- The body of a group or subshell, on a share of a given text. -/
lemma runInside_nested_yields (h : σ.Serves streams input port) {body : Command}
    (hbody : body.Adequate os) {s : Session} {f : Flow}
    (hflow : body.flow os port s input = some f) (hsteady : ∀ sight ∈ f.sights, sight.Steady os)
    (copied copy : Bool) :
    Yields os σ (runInside (.nested body copy) copied body.run streams s) fun σ' r =>
      r = (f.code, if copied || copy then s else f.session) ∧ σ.Follows streams f σ' := by
  rcases h.stdin with ⟨text, htext, hinput⟩ | ⟨hbelow, hreadable, hdata⟩
  · simp only [runInside, htext, share, Act.ask_bind]
    refine .pipe fun p hp => ?_
    have hunused := h.tidy.unused (c := .pipe p) (Nat.not_lt.2 hp)
    refine .feeds (Function.update_self ..) (Function.update_self ..) hunused.2 fun t ht => ?_
    refine .closeWriter ((h.tidy.fed text hp ht).settled _) ?_
    have hserves := h.filled text hp ht
    rw [hinput] at hserves
    refine (hbody hflow hsteady hserves (by simp)).bind ?_
    rintro σ' _ ⟨rfl, hfollows⟩
    have hcompanions := hfollows.companions.trans (Ledger.companions_filled text h.tidy hp ht)
    have hlacks := h.tidy.lacks_thread (Nat.le_trans hp (Nat.le_of_lt ht))
    have hends : (σ'.closeReader p).Ends (.thread t) 0 :=
      Ledger.ends_of_companions hcompanions hlacks rfl
    refine .closeReader (.joins hends (.pure ⟨rfl, ?_, ?_⟩))
    · have htext' : ¬streams.stdin.duct.Below σ.next := by
        rw [htext]
        exact id
      have hpipe : ¬(Duct.pipe p).Below σ.next := Nat.not_lt.2 hp
      have hext := Ledger.extends_filled text h.tidy hp ht
      have hlater := (hext.effect_unseen htext' hpipe f.rest f.rest h.stdout_below f.out).trans
        ((hfollows.later.mono hext.next).trans (Ledger.extends_closeReader hp))
      exact ⟨hlater.next, hlater.data, hlater.refused, hlater.reads, hlater.writes⟩
    · exact Ledger.companions_without hcompanions hlacks
  · have hshare : share streams.stdin = pure (streams.stdin, [], []) := by
      cases hstdin : streams.stdin with
      | text t =>
        rw [hstdin] at hbelow
        exact hbelow.elim
      | _ => rfl
    have hnotText (t : String) : streams.stdin ≠ .text t := by
      intro hstdin
      rw [hstdin] at hbelow
      exact hbelow
    simp only [runInside, hshare, pure_bind]
    refine (hbody hflow hsteady h hnotText).bind ?_
    rintro σ' _ ⟨rfl, hfollows⟩
    exact .pure ⟨rfl, hfollows⟩

/-- A simple command that the shell runs itself writes what it means, and does not read. -/
lemma runInside_simple_yields {w : Wiring} {dst : Duct} (h : σ.Plumbed streams w port dst)
    {c : SimpleCommand} {s : Session} (hw : Wiring.none.openAll os s c.redirects = some w)
    {copied : Bool} {f : Flow} (hflow : c.flow os port copied s input = some f)
    (hsteady : ∀ sight ∈ f.sights, sight.Steady os)
    (hinside : (c.action s os.view).isProgram = false) (nested : Nested) :
    Yields os σ (runInside (c.action s os.view) copied nested streams s) fun σ' r =>
      r = (f.code, f.session) ∧ σ' = σ.enter dst f.out := by
  simp only [SimpleCommand.flow, hw] at hflow
  cases haction : c.action s os.view with
  | program argv vars => simp [haction, Action.isProgram] at hinside
  | builtin b argv =>
    simp only [haction] at hflow
    split at hflow
    case isTrue => cases hflow
    case isFalse hb =>
      cases hflow
      have hb' : b.isJobControl = false := by simpa using hb
      refine (runBuiltin_yields h hb' (hsteady _ (by simp))).bind ?_
      rintro _ _ ⟨rfl, rfl⟩
      exact .pure ⟨rfl, rfl⟩
  | assign vars =>
    simp only [haction] at hflow
    cases hflow
    exact .pure ⟨rfl, by simp⟩
  | nested body copy => simp [haction] at hflow

end Stage

/-! ## Programs -/

namespace Ledger

variable {σ σ' : Ledger} {streams : Streams} {w : Wiring} {port : Port} {dst : Duct}

/-- What a command writes gets where it did, however it reads. -/
lemma Plumbed.of_extends (h : σ.Plumbed streams w port dst) (hext : Extends σ.next σ σ')
    (hunwritten : σ'.Unwritten dst) (stdin : Source) :
    σ'.Plumbed { streams with stdin } w port dst where
  below o := (h.below o).mono hext.next
  refused o := (hext.refused _ (h.below o)).trans (h.refused o)
  passes o := (congrArg (· && _) (hext.writes _ (h.below o))).trans (h.passes o)
  leads o hwrites := h.leads o ((hext.writes _ (h.below o)).symm.trans hwrites)
  unwritten := hunwritten

lemma Plumbed.eq_of_mem_lets (h : σ.Plumbed streams w port dst) {c : Duct}
    (hc : c ∈ σ.lets streams) : c = dst := by
  obtain ⟨hmem, hwrites⟩ := List.mem_filter.1 hc
  simp only [List.mem_cons, List.not_mem_nil, or_false] at hmem
  rcases hmem with rfl | rfl
  · exact h.leads .out hwrites
  · exact h.leads .err hwrites

lemma Plumbed.below_of_mem_lets (h : σ.Plumbed streams w port dst) {c : Duct}
    (hc : c ∈ σ.lets streams) : c.Below σ.next := by
  obtain ⟨hmem, -⟩ := List.mem_filter.1 hc
  simp only [List.mem_cons, List.not_mem_nil, or_false] at hmem
  rcases hmem with rfl | rfl
  · exact h.below .out
  · exact h.below .err

/-- A command may write later where it might before. -/
lemma Plumbed.lets_of_extends (h : σ.Plumbed streams w port dst) (hext : Extends σ.next σ σ')
    (stdin : Source) : σ'.lets { streams with stdin } = σ.lets streams := by
  refine List.filter_congr fun c hc => hext.writes c ?_
  simp only [List.mem_cons, List.not_mem_nil, or_false] at hc
  rcases hc with rfl | rfl
  · exact h.below .out
  · exact h.below .err

/-- A program that runs on its whole input. -/
lemma Plumbed.perform (h : σ.Plumbed streams w port dst) {writing : List Duct}
    (hwriting : writing = σ.lets streams) (run : Octets → Report) :
    σ.perform (· ∈ writing) streams run =
      σ.effect streams.stdin.duct "" dst
        (w.passed port (run (σ.data streams.stdin.duct)).writes) := by
  have hleft : (σ.leave streams.stdin.duct "").Plumbed streams w port dst :=
    ⟨h.below, h.refused, h.passes, h.leads, h.unwritten⟩
  refine hleft.emitAll (fun o => ?_) _
  subst hwriting
  cases o <;> simp [lets, leave, Streams.sink]

/-- Somebody has been started who reads from `src` and writes to `dst`, and has done so. -/
structure Starts (σ : Ledger) (src : Duct) (rest : Octets) (dst : Duct) (out : Octets)
    (team : List Companion) (σ' : Ledger) : Prop where
  later : Extends σ.next (σ.effect src rest dst out) σ'
  companions : σ'.companions = σ.companions ++ team
  tidy : σ'.Tidy
  reading : ∀ k ∈ team, ∀ c ∈ k.reading, c.Below σ.next → c = src
  writing : ∀ k ∈ team, ∀ c ∈ k.writing, c.Below σ.next → c = dst

/-- The programs that wait for a duct run one after the other. -/
lemma rouse_append {c : Duct} (companions companions' : List Companion) :
    σ.rouse c (companions ++ companions') = (σ.rouse c companions).rouse c companions' := by
  induction companions generalizing σ with
  | nil => rfl
  | cons k rest ih =>
    simp only [List.cons_append, rouse]
    split
    · split <;> exact ih
    · exact ih

end Ledger

namespace Pipeline

variable {os : Ideal} {σ : Ledger} {streams : Streams} {input : Octets} {w : Wiring} {port : Port}
  {dst : Duct}

/-- The threads of helpers that are no threads. -/
lemma threads_eq_nil {helpers : List Helper} (h : ∀ h ∈ helpers, ∃ c, h = Helper.channel c) :
    Helper.threads helpers = [] := by
  refine List.filterMap_eq_nil_iff.2 fun helper hmem => ?_
  obtain ⟨c, rfl⟩ := h helper hmem
  rfl

/-- A program that can be started on a source other than a text. -/
lemma spawn_yields (htidy : σ.Tidy) (hplumbed : σ.Plumbed streams w port dst)
    (hbelow : streams.stdin.duct.Below σ.next) (hreadable : σ.Readable streams.stdin.duct)
    {sp : Spawn} (hstreams : sp.streams = streams) {run : Octets → Report}
    (hrun : os.program sp.argv sp.env sp.cwd = .ok run) :
    Yields os σ (Act.ask (.spawn sp)) fun σ' r => ∃ pid helpers team, r = .ok (pid, helpers) ∧
      IsTeam team pid helpers (run (σ.data streams.stdin.duct)).code ∧
      σ.Starts streams.stdin.duct "" dst
        (w.passed port (run (σ.data streams.stdin.duct)).writes) team σ' := by
  subst hstreams
  have halone (c : Duct) (hc : c ∈ σ.lets sp.streams) : σ.Unwritten c :=
    hplumbed.eq_of_mem_lets hc ▸ hplumbed.unwritten
  refine .starts hrun hreadable halone fun pid helpers hpid hhelpers => .pure ?_
  have hthreads := threads_eq_nil hhelpers
  unfold Ledger.start
  rw [hplumbed.perform rfl]
  refine ⟨pid, helpers, _, rfl, ⟨?_, ?_, ?_⟩, ⟨?_, rfl, ?_, ?_, ?_⟩⟩
  · simp [hthreads]
  · simp [hthreads]
  · exact ⟨_, List.mem_singleton_self _, rfl, rfl⟩
  · exact ⟨Nat.le_refl _, fun _ _ => rfl, fun _ _ => rfl, fun _ _ => rfl, fun _ _ => rfl⟩
  · refine htidy.append rfl (Nat.le_refl _) rfl hpid (by simp) fun c hc => ?_
    rcases List.mem_append.1 hc with hread | hwritten
    · cases List.mem_singleton.1 hread
      exact hbelow
    · exact hplumbed.below_of_mem_lets hwritten
  · intro k hk c hc _
    cases List.mem_singleton.1 hk
    exact List.mem_singleton.1 hc
  · intro k hk c hc _
    cases List.mem_singleton.1 hk
    exact hplumbed.eq_of_mem_lets hc

end Pipeline

namespace Ledger

variable {σ : Ledger} {streams : Streams} {w : Wiring} {port : Port} {dst : Duct}

/-- A program has been started on a pipe, and then a thread that fills the pipe with a text. -/
def started (σ : Ledger) (p : PipeId) (pid : Pid) (streams : Streams) (run : Octets → Report)
    (text : String) (t : TaskId) : Ledger :=
  ((((σ.openPipe p).suspend pid { streams with stdin := .pipe p } run).closeReader p).fed p text
    t).closeWriter p

/-- The ledger with a pipe that a thread has filled, without those who run. -/
def charged (σ : Ledger) (p : PipeId) (text : String) (t : TaskId) : Ledger :=
  { σ with
    data := Function.update σ.data (.pipe p) (Octets.ofText text)
    refused := Function.update σ.refused (.pipe p) none
    reads := Function.update σ.reads (.pipe p) false
    writes := Function.update σ.writes (.pipe p) false
    next := t + 1 }

lemma extends_charged {p : PipeId} (hp : σ.next ≤ p) (text : String) {t : TaskId} (ht : p < t) :
    Extends σ.next σ (σ.charged p text t) where
  next := Nat.le_succ_of_le (Nat.le_trans hp (Nat.le_of_lt ht))
  data _ hc := Function.update_of_ne (hc.ne_pipe hp) _ _
  refused _ hc := Function.update_of_ne (hc.ne_pipe hp) _ _
  reads _ hc := Function.update_of_ne (hc.ne_pipe hp) _ _
  writes _ hc := Function.update_of_ne (hc.ne_pipe hp) _ _

/-- One more process and the thread that feeds it, both of which have come to their ends. -/
lemma Tidy.served (h : σ.Tidy) {p : PipeId} (hp : σ.next ≤ p) {t : TaskId} (ht : p < t)
    {pid : Pid} (hpid : σ.Lacks (.process pid)) {writing : List Duct}
    (hwriting : ∀ c ∈ writing, c.Below σ.next) (code : Int) {σ' : Ledger}
    (hcompanions : σ'.companions = σ.companions) (hnext : σ'.next = t + 1) :
    ((σ'.joinedBy ⟨.process pid, [.pipe p], writing, .ended code⟩).joinedBy
      ⟨.thread t, [], [.pipe p], .ended 0⟩).Tidy := by
  have hpipe : (Duct.pipe p).Below σ'.next := hnext ▸ Nat.lt_succ_of_lt ht
  have hle : σ.next ≤ σ'.next := Nat.le_of_lt (Nat.lt_of_le_of_lt hp hpipe)
  have hthread := h.lacks_thread (Nat.le_trans hp (Nat.le_of_lt ht))
  have hprocess : (σ'.joinedBy ⟨.process pid, [.pipe p], writing, .ended code⟩).Tidy := by
    refine (h.of_companions hcompanions hle).append rfl (Nat.le_refl _) rfl ?_ (by simp) ?_
    · exact fun k hk => hpid k (hcompanions ▸ hk)
    · intro c hc
      rcases List.mem_append.1 hc with hread | hwritten
      · cases List.mem_singleton.1 hread
        exact hpipe
      · exact (hwriting c hwritten).mono hle
  refine hprocess.append rfl (Nat.le_refl _) rfl ?_ ?_ ?_
  · intro k hk
    rcases List.mem_append.1 hk with hold | hprocess
    · exact hthread k (hcompanions ▸ hold)
    · cases List.mem_singleton.1 hprocess
      simp
  · rintro _ ⟨⟩
    exact hnext ▸ Nat.lt_succ_self t
  · intro c hc
    obtain rfl : c = .pipe p := by simpa using hc
    exact hpipe

/-- The program runs as soon as its input is complete. -/
lemma Plumbed.started_eq (h : σ.Plumbed streams w port dst) (htidy : σ.Tidy) {p : PipeId}
    (hp : σ.next ≤ p) (pid : Pid) (run : Octets → Report) (text : String) {t : TaskId}
    (ht : p < t) :
    σ.started p pid streams run text t =
      (((σ.charged p text t).effect (.pipe p) "" dst
          (w.passed port (run (Octets.ofText text)).writes)).joinedBy
        ⟨.process pid, [.pipe p], σ.lets streams, .ended (run (Octets.ofText text)).code⟩).joinedBy
        ⟨.thread t, [], [.pipe p], .ended 0⟩ := by
  have hext := extends_charged hp text ht
  have hlets := h.lets_of_extends (extends_openPipe hp) (.pipe p)
  have hcharged := h.of_extends hext h.unwritten (.pipe p)
  have hperform := hcharged.perform (h.lets_of_extends hext (.pipe p)).symm run
  have hdata : (σ.charged p text t).data (.pipe p) = Octets.ofText text :=
    Function.update_self ..
  have hcompanions : ((((σ.openPipe p).suspend pid { streams with stdin := .pipe p }
      run).closeReader p).fed p text t).companions = σ.companions ++
      [⟨.process pid, [.pipe p], σ.lets streams, .waits { streams with stdin := .pipe p } run⟩,
        ⟨.thread t, [], [.pipe p], .ended 0⟩] := by
    rw [← hlets]
    exact List.append_assoc ..
  have hbase : { (((σ.openPipe p).suspend pid { streams with stdin := .pipe p }
      run).closeReader p).fed p text t with
        writes := Function.update (σ.openPipe p).writes (.pipe p) false
        companions := [] ++ σ.companions } = σ.charged p text t := by
    simp [charged, fed, Ledger.enter, closeReader, suspend, joinedBy, openPipe]
  unfold started closeWriter
  rw [hcompanions, rouse_append, rouse_of_isEnded htidy.ended]
  refine Eq.trans (congrArg (fun τ : Ledger => τ.rouse (.pipe p) _) hbase) ?_
  simp only [rouse, Source.duct, if_true]
  rw [hperform, hdata]
  simp only [Source.duct, hdata]

end Ledger

namespace Pipeline

variable {os : Ideal} {σ : Ledger} {streams : Streams} {input : Octets} {w : Wiring} {port : Port}
  {dst : Duct} {argv : List String} {vars : List (String × String)} {s : Session}

/-- What is asked for to start a program on a source. -/
def spawnOn (argv : List String) (vars : List (String × String)) (streams : Streams)
    (group : Option (Option Pid)) (s : Session) (stdin : Source) : Spawn :=
  { argv := (called s argv).map Octets.ofText, env := (s.env.setAll vars).entries
    cwd := s.cwd, streams := { streams with stdin }, group, asScript := false }

lemma startProgram_duct {n : Nat} (h : streams.stdin.duct.Below n) (group : Option (Option Pid)) :
    startProgram argv vars streams group s =
      Act.ask (.spawn (spawnOn argv vars streams group s streams.stdin)) := by
  unfold startProgram
  split
  case h_1 t ht =>
    rw [ht] at h
    exact h.elim
  case h_2 => rfl

lemma startProgram_text {text : String} (h : streams.stdin = .text text)
    (group : Option (Option Pid)) :
    startProgram argv vars streams group s =
      .call .pipe fun p => .call (.spawn (spawnOn argv vars streams group s (.pipe p))) fun r =>
        .call (.close (.reader p)) fun _ => match r with
          | .error e => .call (.close (.writer p)) fun _ => .done (.error e)
          | .ok (pid, helpers) => .call (.fork (.feed p text)) fun t =>
            .call (.close (.writer p)) fun _ => .done (.ok (pid, .thread t :: helpers)) := by
  unfold startProgram
  rw [h]
  refine congrArg (Act.call _) (funext fun p => congrArg (Act.call _) (funext fun r => ?_))
  rcases r with e | ⟨pid, helpers⟩ <;> rfl

/-- A program that cannot be started leaves nothing behind. -/
lemma startProgram_fails (htidy : σ.Tidy) (hfeeds : σ.Feeds streams.stdin input) {e : IoError}
    (he : os.program ((called s argv).map Octets.ofText) (s.env.setAll vars).entries s.cwd =
      .error e) (group : Option (Option Pid)) :
    Yields os σ (startProgram argv vars streams group s) fun σ' r =>
      r = .error e ∧ σ.Opens σ' := by
  rcases hfeeds with ⟨text, htext, -⟩ | ⟨hbelow, -, -⟩
  · rw [startProgram_text htext]
    refine .pipe fun p hp => .noProgram he (.closeReader (.closeWriter ?_ (.done ⟨rfl, ?_, ?_⟩)))
    · exact fun k hk _ => htidy.ended k hk
    · have hclose : Ledger.Extends σ.next ((σ.openPipe p).closeReader p)
          (((σ.openPipe p).closeReader p).closeWriter p) :=
        Ledger.extends_closeWriter (σ := (σ.openPipe p).closeReader p) htidy.ended hp
      exact (Ledger.extends_openPipe hp).trans ((Ledger.extends_closeReader hp).trans hclose)
    · rw [Ledger.closeWriter_of_isEnded (σ := (σ.openPipe p).closeReader p) htidy.ended]
      rfl
  · rw [startProgram_duct hbelow]
    exact .noProgram he (.done ⟨rfl, .refl σ⟩)

/-- A program and the thread that feeds it. -/
lemma started_team (htidy : σ.Tidy) (hplumbed : σ.Plumbed streams w port dst)
    (hdst : dst.Below σ.next) {text : String} (htext : streams.stdin = .text text)
    {p : PipeId} (hp : σ.next ≤ p) {pid : Pid} (hpid : σ.Lacks (.process pid))
    {helpers : List Helper} (hhelpers : ∀ h ∈ helpers, ∃ c, h = Helper.channel c) {t : TaskId}
    (ht : p < t) (run : Octets → Report) :
    ∃ team, IsTeam team pid (.thread t :: helpers) (run (Octets.ofText text)).code ∧
      σ.Starts streams.stdin.duct "" dst (w.passed port (run (Octets.ofText text)).writes) team
        (σ.started p pid streams run text t) := by
  have hthreads : Helper.threads (.thread t :: helpers) = [t] :=
    congrArg (t :: ·) (threads_eq_nil hhelpers)
  have hsource : ¬streams.stdin.duct.Below σ.next := by
    rw [htext]
    exact id
  have hpipe : ¬(Duct.pipe p).Below σ.next := Nat.not_lt.2 hp
  have hext := Ledger.extends_charged hp text ht
  rw [hplumbed.started_eq htidy hp pid run text ht]
  refine ⟨_, ⟨?_, ?_, ⟨_, List.mem_cons_self, rfl, rfl⟩⟩,
    ⟨?_, List.append_assoc .., ?_, ?_, ?_⟩⟩
  · simp [hthreads]
  · simp [hthreads]
  · have hlater := hext.effect_unseen hsource hpipe "" "" hdst
      (w.passed port (run (Octets.ofText text)).writes)
    exact ⟨hlater.next, hlater.data, hlater.refused, hlater.reads, hlater.writes⟩
  · exact htidy.served hp ht hpid (fun c hc => hplumbed.below_of_mem_lets hc) _ rfl rfl
  · intro k hk c hc hbelow
    rcases List.mem_cons.1 hk with rfl | hk
    · cases List.mem_singleton.1 hc
      exact absurd hbelow hpipe
    · cases List.mem_singleton.1 hk
      exact absurd hc List.not_mem_nil
  · intro k hk c hc hbelow
    rcases List.mem_cons.1 hk with rfl | hk
    · exact hplumbed.eq_of_mem_lets hc
    · cases List.mem_singleton.1 hk
      cases List.mem_singleton.1 hc
      exact absurd hbelow hpipe

/-- **A program that can be started runs on its whole input.**  A given text is fed to it by a
thread. -/
theorem startProgram_yields (htidy : σ.Tidy) (hplumbed : σ.Plumbed streams w port dst)
    (hdst : dst.Below σ.next) (hfeeds : σ.Feeds streams.stdin input) {run : Octets → Report}
    (hrun : os.program ((called s argv).map Octets.ofText) (s.env.setAll vars).entries s.cwd =
      .ok run) (group : Option (Option Pid)) :
    Yields os σ (startProgram argv vars streams group s) fun σ' r =>
      ∃ pid helpers team, r = .ok (pid, helpers) ∧ IsTeam team pid helpers (run input).code ∧
        σ.Starts streams.stdin.duct "" dst (w.passed port (run input).writes) team σ' := by
  rcases hfeeds with ⟨text, htext, hinput⟩ | ⟨hbelow, hreadable, hdata⟩
  · rw [startProgram_text htext]
    refine .pipe fun p hp => ?_
    have hunused := htidy.unused (c := .pipe p) (Nat.not_lt.2 hp)
    have hopen := hplumbed.of_extends (Ledger.extends_openPipe hp) hplumbed.unwritten (.pipe p)
    have halone (c : Duct) (hc : c ∈ (σ.openPipe p).lets { streams with stdin := .pipe p }) :
        (σ.openPipe p).Unwritten c :=
      hopen.eq_of_mem_lets hc ▸ hopen.unwritten
    refine .suspends hrun (Function.update_self ..) (Function.update_self ..) hunused.1 halone ?_
    intro pid helpers hpid hhelpers
    have hnotDst : Duct.pipe p ∉ (σ.openPipe p).lets { streams with stdin := .pipe p } := by
      intro hmem
      exact hdst.ne_pipe hp (hopen.eq_of_mem_lets hmem).symm
    refine .closeReader (.feeds (Function.update_self ..) (Function.update_self ..) ?_ ?_)
    · intro k hk
      rcases List.mem_append.1 hk with hold | hnew
      · exact hunused.2 k hold
      · cases List.mem_singleton.1 hnew
        exact hnotDst
    · intro t ht
      refine .closeWriter ?_ (.done ⟨pid, .thread t :: helpers, ?_⟩)
      · intro k hk hwrites
        rcases List.mem_append.1 hk with hk | hfeeder
        · rcases List.mem_append.1 hk with hold | hprocess
          · exact htidy.ended k hold
          · cases List.mem_singleton.1 hprocess
            exact absurd hwrites hnotDst
        · cases List.mem_singleton.1 hfeeder
          rfl
      · obtain ⟨team, hteam, hstarts⟩ :=
          started_team htidy hplumbed hdst htext hp hpid hhelpers ht run
        rw [hinput] at hteam hstarts
        exact ⟨team, rfl, hteam, hstarts⟩
  · rw [startProgram_duct hbelow, ← hdata]
    exact spawn_yields htidy hplumbed hbelow hreadable rfl hrun

end Pipeline

end Conch
