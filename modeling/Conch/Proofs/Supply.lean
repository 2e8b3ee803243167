import Conch.Proofs.Descriptors
import Conch.Proofs.Meaning
import Mathlib.Data.Option.Basic

/-!
# What commands are supplied with

In front of every command the ledger has to say that its input is complete and that nobody else
reads it, and that nobody else writes to its output.  Opening redirections keeps this: a file has
a number that nobody else has, so all that is said about older ducts stays true.

## Main definitions

* `Ledger.Tidy` — everybody who runs has come to his end and is somebody else.
* `Ledger.Serves` — a command gets these streams, with this input.
* `Ledger.Wired` — opened redirections have behind them what a wiring says.
* `Ledger.Plumbed` — what a command writes gets where a wiring says.

## Main results

* `Element.planAll_yields` — planning elements that mean something opens what their wirings say.
* `Ledger.Serves.plumbed`, `Ledger.Serves.feeds` — what redirections make of given streams.
-/

set_option autoImplicit false

namespace Conch

open Text (Octets)
open Builtin (Outlet)

namespace Ledger

variable {n : Nat} {σ σ' : Ledger}

/-! ## Companions -/

/-- Everybody who runs has come to his end, is somebody else, and uses ducts that are there. -/
structure Tidy (σ : Ledger) : Prop where
  ended : ∀ k ∈ σ.companions, k.progress.isEnded = true
  nodup : (σ.companions.map Companion.who).Nodup
  threads : ∀ k ∈ σ.companions, ∀ t, k.who = .thread t → t < σ.next
  ducts : ∀ k ∈ σ.companions, ∀ c ∈ k.reading ++ k.writing, c.Below σ.next

lemma Tidy.settled (h : σ.Tidy) (c : Duct) : σ.Settled c := fun k hk _ => h.ended k hk

lemma Tidy.of_companions (h : σ.Tidy) (hcompanions : σ'.companions = σ.companions)
    (hnext : σ.next ≤ σ'.next) : σ'.Tidy where
  ended := hcompanions ▸ h.ended
  nodup := hcompanions ▸ h.nodup
  threads k hk t hwho := Nat.lt_of_lt_of_le (h.threads k (hcompanions ▸ hk) t hwho) hnext
  ducts k hk c hc := (h.ducts k (hcompanions ▸ hk) c hc).mono hnext

/-- Nobody uses a duct that is not there yet. -/
lemma Tidy.unused (h : σ.Tidy) {c : Duct} (hc : ¬c.Below σ.next) :
    σ.Unread c ∧ σ.Unwritten c :=
  ⟨fun k hk hmem => hc (h.ducts k hk c (by simp [hmem])),
    fun k hk hmem => hc (h.ducts k hk c (by simp [hmem]))⟩

/-- A thread that is not there yet is nobody's. -/
lemma Tidy.lacks_thread (h : σ.Tidy) {t : TaskId} (ht : σ.next ≤ t) : σ.Lacks (.thread t) :=
  fun k hk hwho => Nat.not_lt.2 ht (h.threads k hk t hwho)

/-- One more companion who has come to his end. -/
lemma Tidy.append (h : σ.Tidy) {k : Companion} (hcompanions : σ'.companions = σ.companions ++ [k])
    (hnext : σ.next ≤ σ'.next) (hended : k.progress.isEnded = true) (hnew : σ.Lacks k.who)
    (hthread : ∀ t, k.who = .thread t → t < σ'.next)
    (hducts : ∀ c ∈ k.reading ++ k.writing, c.Below σ'.next) : σ'.Tidy where
  ended k' hk' := by
    rcases List.mem_append.1 (hcompanions ▸ hk') with hold | hnew
    · exact h.ended k' hold
    · exact List.mem_singleton.1 hnew ▸ hended
  nodup := by
    rw [hcompanions, List.map_append, List.map_singleton, List.nodup_append]
    refine ⟨h.nodup, List.nodup_singleton _, fun who hwho who' hwho' heq => ?_⟩
    obtain ⟨k', hk', rfl⟩ := List.mem_map.1 hwho
    exact hnew k' hk' (heq.trans (List.mem_singleton.1 hwho'))
  threads k' hk' t hwho := by
    rcases List.mem_append.1 (hcompanions ▸ hk') with hold | hnew
    · exact Nat.lt_of_lt_of_le (h.threads k' hold t hwho) hnext
    · cases List.mem_singleton.1 hnew
      exact hthread t hwho
  ducts k' hk' c hc := by
    rcases List.mem_append.1 (hcompanions ▸ hk') with hold | hnew
    · exact (h.ducts k' hold c hc).mono hnext
    · cases List.mem_singleton.1 hnew
      exact hducts c hc

/-! ## Streams -/

/-- What somebody finds at a source: a given text, or all that is in a duct. -/
def Feeds (σ : Ledger) (src : Source) (input : Octets) : Prop :=
  (∃ t, src = .text t ∧ Octets.ofText t = input) ∨
    src.duct.Below σ.next ∧ σ.Readable src.duct ∧ σ.data src.duct = input

/-- The ledger has streams for a command, with this input, and with this port for its outputs.
Nothing is entered about its standard error, which is shared with others. -/
structure Serves (σ : Ledger) (streams : Streams) (input : Octets) (port : Port) : Prop where
  tidy : σ.Tidy
  stdin : σ.Feeds streams.stdin input
  stdout_below : streams.stdout.duct.Below σ.next
  stdout_writes : σ.writes streams.stdout.duct = true
  stdout_unwritten : σ.Unwritten streams.stdout.duct
  stdout_refused : σ.refused streams.stdout.duct = port.out
  stderr_below : streams.stderr.duct.Below σ.next
  stderr_writes : σ.writes streams.stderr.duct = false
  stderr_refused : σ.refused streams.stderr.duct = port.err

/-- What is read is not what is written to. -/
lemma Serves.stdin_ne {streams : Streams} {input : Octets} {port : Port}
    (h : σ.Serves streams input port) : streams.stdin.duct ≠ streams.stdout.duct := by
  have hwrites := h.stdout_writes
  intro heq
  rcases h.stdin with ⟨t, ht, -⟩ | ⟨-, hreadable, -⟩
  · have hbelow := h.stdout_below
    rw [← heq, ht] at hbelow
    exact hbelow
  · rw [← heq, hreadable.2.1] at hwrites
    cases hwrites

end Ledger

/-! ## Redirections -/

namespace Ledger

variable {n : Nat} {σ σ' : Ledger}

/-- A file has been opened for reading, and this is in it. -/
structure HoldsInput (σ : Ledger) (f : FileId) (data : Octets) : Prop where
  lt : f < σ.next
  readable : σ.Readable (.file f)
  data_eq : σ.data (.file f) = data

/-- A file has been opened for writing, and this goes wrong there. -/
structure TakesOutput (σ : Ledger) (f : FileId) (refusal : Option Errno) : Prop where
  lt : f < σ.next
  writes : σ.writes (.file f) = false
  refused : σ.refused (.file f) = refusal

/-- Where a standard error leads. -/
inductive TakesError (σ : Ledger) : ErrorTarget → ErrorWire → Prop where
  | file {f : FileId} {refusal : Option Errno} : σ.TakesOutput f refusal →
      TakesError σ (.file f) (.file refusal)
  | output : TakesError σ .pipelineOutput .output

/-- Opened redirections have behind them what a wiring says. -/
structure Wired (σ : Ledger) (r : Redirections) (w : Wiring) : Prop where
  stdin : Option.Rel σ.HoldsInput r.stdin w.stdin
  stdout : Option.Rel σ.TakesOutput r.stdout w.stdout
  stderr : Option.Rel σ.TakesError r.stderr w.stderr

lemma wired_none (σ : Ledger) : σ.Wired .none .none := ⟨.none, .none, .none⟩

lemma Wired.eq_none {r : Redirections} (h : σ.Wired r .none) : r = .none := by
  obtain ⟨rin, rout, rerr⟩ := r
  obtain ⟨hin, hout, herr⟩ := h
  cases hin with
  | none => cases hout with
    | none => cases herr with
      | none => rfl

lemma Wired.exists_holdsInput {r : Redirections} {w : Wiring} (h : σ.Wired r w) {f : FileId}
    (hf : r.stdin = some f) : ∃ data, w.stdin = some data ∧ σ.HoldsInput f data := by
  obtain ⟨win, wout, werr⟩ := w
  have hin := h.stdin
  rw [hf] at hin
  cases hin with
  | some hholds => exact ⟨_, rfl, hholds⟩

/-- Nothing has changed about the files that have been opened, except for what is in them. -/
structure Keeps (σ σ' : Ledger) : Prop where
  next : σ.next ≤ σ'.next
  refused : ∀ f < σ.next, σ'.refused (.file f) = σ.refused (.file f)
  reads : ∀ f < σ.next, σ'.reads (.file f) = σ.reads (.file f)
  writes : ∀ f < σ.next, σ'.writes (.file f) = σ.writes (.file f)

lemma Extends.keeps (h : Extends σ.next σ σ') : σ.Keeps σ' where
  next := h.next
  refused f hf := h.refused (.file f) hf
  reads f hf := h.reads (.file f) hf
  writes f hf := h.writes (.file f) hf

lemma HoldsInput.of_keeps {f : FileId} {data : Octets} (h : σ.HoldsInput f data)
    (hkeeps : σ.Keeps σ') (hdata : σ'.data (.file f) = σ.data (.file f)) (htidy : σ'.Tidy)
    (hunread : σ'.Unread (.file f)) : σ'.HoldsInput f data where
  lt := Nat.lt_of_lt_of_le h.lt hkeeps.next
  readable := ⟨(hkeeps.reads f h.lt).trans h.readable.1,
    (hkeeps.writes f h.lt).trans h.readable.2.1, hunread, htidy.settled _⟩
  data_eq := hdata.trans h.data_eq

lemma TakesOutput.of_keeps {f : FileId} {refusal : Option Errno} (h : σ.TakesOutput f refusal)
    (hkeeps : σ.Keeps σ') : σ'.TakesOutput f refusal where
  lt := Nat.lt_of_lt_of_le h.lt hkeeps.next
  writes := (hkeeps.writes f h.lt).trans h.writes
  refused := (hkeeps.refused f h.lt).trans h.refused

/-- The redirections of a command are the same later, unless somebody else reads its input. -/
lemma Wired.of_keeps {r : Redirections} {w : Wiring} (h : σ.Wired r w) (hkeeps : σ.Keeps σ')
    (htidy : σ'.Tidy) (hinput : ∀ f, r.stdin = some f →
      σ'.data (.file f) = σ.data (.file f) ∧ σ'.Unread (.file f)) : σ'.Wired r w := by
  obtain ⟨rin, rout, rerr⟩ := r
  obtain ⟨win, wout, werr⟩ := w
  obtain ⟨hin, hout, herr⟩ := h
  refine ⟨?_, ?_, ?_⟩
  · cases hin with
    | none => exact .none
    | some hf => exact .some (hf.of_keeps hkeeps (hinput _ rfl).1 htidy (hinput _ rfl).2)
  · cases hout with
    | none => exact .none
    | some hf => exact .some (hf.of_keeps hkeeps)
  · cases herr with
    | none => exact .none
    | some herror =>
      cases herror with
      | file hf => exact .some (.file (hf.of_keeps hkeeps))
      | output => exact .some .output

lemma Wired.joinError {r : Redirections} {w : Wiring} (h : σ.Wired r w) :
    σ.Wired r.joinError w.joinError := by
  obtain ⟨rin, rout, rerr⟩ := r
  obtain ⟨win, wout, werr⟩ := w
  obtain ⟨hin, hout, -⟩ := h
  refine ⟨hin, hout, ?_⟩
  cases hout with
  | none => exact .some .output
  | some hf => exact .some (.file hf)

lemma Wired.addInput {r : Redirections} {w : Wiring} (h : σ.Wired r w) {f : FileId}
    {data : Octets} (hf : σ.HoldsInput f data) : σ.Wired (r.add .input f) (w.addInput data) :=
  ⟨.some hf, h.stdout, h.stderr⟩

lemma Wired.addOutput {r : Redirections} {w : Wiring} (h : σ.Wired r w) {op : RedirectOp}
    (hinput : op ≠ .input) (hjoin : op ≠ .errorToOutput) {f : FileId} {refusal : Option Errno}
    (hf : σ.TakesOutput f refusal) : σ.Wired (r.add op f) (w.addOutput op refusal) := by
  obtain ⟨hin, hout, herr⟩ := h
  cases op with
  | input => exact absurd rfl hinput
  | output | append => exact ⟨hin, .some hf, herr⟩
  | error | errorAppend => exact ⟨hin, hout, .some (.file hf)⟩
  | both | bothAlt => exact ⟨hin, .some hf, .some (.file hf)⟩
  | errorToOutput => exact absurd rfl hjoin

/-! ## What redirections make of streams -/

/-- What a command writes gets where a wiring says: to `dst`, or where nothing is entered. -/
structure Plumbed (σ : Ledger) (streams : Streams) (w : Wiring) (port : Port) (dst : Duct) :
    Prop where
  below : ∀ o, (streams.sink o).duct.Below σ.next
  refused : ∀ o, σ.refused (streams.sink o).duct = w.refusal port o
  passes : ∀ o, (σ.writes (streams.sink o).duct && (w.refusal port o).isNone) = w.leads port o
  leads : ∀ o, σ.writes (streams.sink o).duct = true → (streams.sink o).duct = dst
  unwritten : σ.Unwritten dst

variable {streams : Streams} {input : Octets} {port : Port} {r : Redirections} {w : Wiring}

/-- Where an output of a command leads whose redirections have been opened: to a file of its own,
or to one of the outputs that it was given. -/
lemma Wired.sink_cases (h : σ.Wired r w) (streams : Streams) (port : Port) (o : Outlet) :
    (∃ f, (r.apply streams).sink o = .file f ∧ σ.TakesOutput f (w.refusal port o) ∧
        w.leads port o = false) ∨
      ((r.apply streams).sink o = streams.stdout ∧ w.refusal port o = port.out ∧
        w.leads port o = port.out.isNone) ∨
      ((r.apply streams).sink o = streams.stderr ∧ w.refusal port o = port.err ∧
        w.leads port o = false) := by
  obtain ⟨rin, rout, rerr⟩ := r
  obtain ⟨win, wout, werr⟩ := w
  obtain ⟨-, hout, herr⟩ := h
  cases o with
  | out =>
    cases hout with
    | none => exact .inr (.inl ⟨rfl, rfl, rfl⟩)
    | some hf => exact .inl ⟨_, rfl, hf, rfl⟩
  | err =>
    cases herr with
    | none => exact .inr (.inr ⟨rfl, rfl, rfl⟩)
    | some herror =>
      cases herror with
      | file hf => exact .inl ⟨_, rfl, hf, rfl⟩
      | output => exact .inr (.inl ⟨rfl, rfl, rfl⟩)

/-- What a command writes whose redirections have been opened. -/
lemma Serves.plumbed (h : σ.Serves streams input port) (hw : σ.Wired r w) :
    σ.Plumbed (r.apply streams) w port streams.stdout.duct where
  below o := by
    rcases hw.sink_cases streams port o with ⟨f, hsink, hf, -⟩ | ⟨hsink, -⟩ | ⟨hsink, -⟩
    · exact hsink ▸ hf.lt
    · exact hsink ▸ h.stdout_below
    · exact hsink ▸ h.stderr_below
  refused o := by
    rcases hw.sink_cases streams port o with ⟨f, hsink, hf, -⟩ | ⟨hsink, hr, -⟩ | ⟨hsink, hr, -⟩
    · exact hsink ▸ hf.refused
    · exact hr ▸ hsink ▸ h.stdout_refused
    · exact hr ▸ hsink ▸ h.stderr_refused
  passes o := by
    rcases hw.sink_cases streams port o with ⟨f, hsink, hf, hl⟩ | ⟨hsink, hr, hl⟩ | ⟨hsink, hr, hl⟩
    · have hwrites : σ.writes (Sink.file f).duct = false := hf.writes
      rw [hsink, hl, hwrites, Bool.false_and]
    · rw [hsink, hl, hr, h.stdout_writes, Bool.true_and]
    · rw [hsink, hl, h.stderr_writes, Bool.false_and]
  leads o hwrites := by
    rcases hw.sink_cases streams port o with ⟨f, hsink, hf, -⟩ | ⟨hsink, -⟩ | ⟨hsink, -⟩
    · have hcontra := hf.writes.symm.trans (hsink ▸ hwrites)
      cases hcontra
    · rw [hsink]
    · have hcontra := h.stderr_writes.symm.trans (hsink ▸ hwrites)
      cases hcontra
  unwritten := h.stdout_unwritten

/-- What a command reads whose redirections have been opened. -/
lemma Serves.feeds (h : σ.Serves streams input port) (hw : σ.Wired r w) :
    σ.Feeds (r.apply streams).stdin (w.stdin.getD input) := by
  obtain ⟨rin, rout, rerr⟩ := r
  obtain ⟨win, wout, werr⟩ := w
  obtain ⟨hin, -, -⟩ := hw
  cases hin with
  | none => exact h.stdin
  | some hf => exact .inr ⟨hf.lt, hf.readable, hf.data_eq⟩

/-! ## What is written -/

lemma Plumbed.enter {dst : Duct} (h : σ.Plumbed streams w port dst) (data : Octets) :
    (σ.enter dst data).Plumbed streams w port dst :=
  ⟨h.below, h.refused, h.passes, h.leads, h.unwritten⟩

/-- One text that is written. -/
lemma Plumbed.emit {dst : Duct} (h : σ.Plumbed streams w port dst) {writing : Duct → Bool}
    (hwriting : ∀ o, writing (streams.sink o).duct = σ.writes (streams.sink o).duct) (o : Outlet)
    (data : Octets) :
    σ.emit writing (streams.sink o).duct data =
      σ.enter dst (if w.leads port o then data else "") := by
  have hpasses := h.passes o
  unfold Ledger.emit
  rw [hwriting, h.refused, hpasses]
  cases hleads : w.leads port o with
  | false => simp
  | true =>
    have hwrites : σ.writes (streams.sink o).duct = true := by
      rw [hleads] at hpasses
      exact (Bool.and_eq_true_iff.1 hpasses).1
    simp [h.leads o hwrites]

/-- All that is written, one after the other. -/
lemma Plumbed.emitAll {dst : Duct} (h : σ.Plumbed streams w port dst) {writing : Duct → Bool}
    (hwriting : ∀ o, writing (streams.sink o).duct = σ.writes (streams.sink o).duct)
    (writes : List (Outlet × Octets)) :
    σ.emitAll writing streams writes = σ.enter dst (w.passed port writes) := by
  induction writes generalizing σ with
  | nil => simp [Ledger.emitAll, Wiring.passed]
  | cons first rest ih =>
    obtain ⟨o, data⟩ := first
    have hemit := h.emit hwriting o data
    have hrest := ih (h.enter (if w.leads port o then data else "")) hwriting
    simp only [Ledger.emitAll, List.foldl_cons, hemit, Wiring.passed] at hrest ⊢
    rw [hrest, enter_enter]

end Ledger

/-! ## Planning -/

namespace Ledger

variable {os : Ideal} {σ σ' σ'' : Ledger}

/-- Files have been opened, and nothing else has happened. -/
structure Opens (σ σ' : Ledger) : Prop where
  later : Extends σ.next σ σ'
  companions : σ'.companions = σ.companions

lemma Opens.refl (σ : Ledger) : σ.Opens σ := ⟨.refl _ _, rfl⟩

lemma Opens.trans (h : σ.Opens σ') (h' : σ'.Opens σ'') : σ.Opens σ'' :=
  ⟨h.later.trans (h'.later.mono h.later.next), h'.companions.trans h.companions⟩

lemma Opens.tidy (h : σ.Opens σ') (htidy : σ.Tidy) : σ'.Tidy :=
  htidy.of_companions h.companions h.later.next

lemma Opens.wired {r : Redirections} {w : Wiring} (h : σ.Opens σ') (htidy : σ.Tidy)
    (hw : σ.Wired r w) : σ'.Wired r w := by
  refine hw.of_keeps h.later.keeps (h.tidy htidy) fun f hf => ?_
  obtain ⟨data, -, hholds⟩ := hw.exists_holdsInput hf
  refine ⟨h.later.data (.file f) hholds.lt, ?_⟩
  unfold Unread
  rw [h.companions]
  exact hholds.readable.2.2.1

lemma opens_openInput {f : FileId} (hf : σ.next ≤ f) (data : Octets) :
    σ.Opens (σ.openInput f data) where
  later :=
    { next := Nat.le_succ_of_le hf
      data := fun _ hc => Function.update_of_ne (hc.ne_file hf) _ _
      refused := fun _ _ => rfl
      reads := fun _ hc => Function.update_of_ne (hc.ne_file hf) _ _
      writes := fun _ hc => Function.update_of_ne (hc.ne_file hf) _ _ }
  companions := rfl

lemma opens_openOutput {f : FileId} (hf : σ.next ≤ f) (refusal : Option Errno) :
    σ.Opens (σ.openOutput f refusal) where
  later :=
    { next := Nat.le_succ_of_le hf
      data := fun _ _ => rfl
      refused := fun _ hc => Function.update_of_ne (hc.ne_file hf) _ _
      reads := fun _ _ => rfl
      writes := fun _ hc => Function.update_of_ne (hc.ne_file hf) _ _ }
  companions := rfl

lemma holdsInput_openInput (htidy : σ.Tidy) {f : FileId} (hf : σ.next ≤ f) (data : Octets) :
    (σ.openInput f data).HoldsInput f data where
  lt := Nat.lt_succ_self f
  readable := by
    have hunused := htidy.unused (c := .file f) (Nat.not_lt.2 hf)
    exact ⟨Function.update_self .., Function.update_self .., hunused.1,
      fun k hk _ => htidy.ended k hk⟩
  data_eq := Function.update_self ..

lemma takesOutput_openOutput (σ : Ledger) (f : FileId) (refusal : Option Errno) :
    (σ.openOutput f refusal).TakesOutput f refusal where
  lt := Nat.lt_succ_self f
  writes := Function.update_self ..
  refused := Function.update_self ..

end Ledger

open Act (Yields)

namespace Redirections

variable {os : Ideal} {σ : Ledger} {s : Session}

lemma target_yields {word name : String} (hplain : Word.IsPlain word)
    (hname : Word.expand s os.view.tree os.view.self word = [name]) (hsome : name.isEmpty = false) :
    Yields os σ (target s word) fun σ' r => σ' = σ ∧ r = .ok name := by
  unfold target
  rw [Act.ask_bind]
  refine .view fun v hv => ?_
  rw [os.self_eq v hv, hplain.expand_eq s v.tree os.view.tree, hname]
  simp only [hsome, Bool.false_eq_true, if_false]
  exact .pure ⟨rfl, rfl⟩

lemma openFile_input_yields {name : String} {data : Octets}
    (hdata : os.input (s.resolve name) = .ok data) :
    Yields os σ (openFile s .input name) fun σ' r =>
      ∃ f, σ.next ≤ f ∧ r = .ok f ∧ σ' = σ.openInput f data :=
  .openInput hdata fun f hf => .pure ⟨f, hf, rfl, rfl⟩

lemma openFile_output_yields {op : RedirectOp} (hop : op ≠ .input) {name : String}
    {refusal : Option Errno} (hrefusal : os.output (s.resolve name) op.appends = .ok refusal) :
    Yields os σ (openFile s op name) fun σ' r =>
      ∃ f, σ.next ≤ f ∧ r = .ok f ∧ σ' = σ.openOutput f refusal := by
  cases op with
  | input => exact absurd rfl hop
  | _ => exact .openOutput hrefusal fun f hf => .pure ⟨f, hf, rfl, rfl⟩

/-- One more redirection that can be opened. -/
lemma openOne_yields {r : Redirections} {w w' : Wiring} {d : Redirect}
    (hopen : w.openOne os s d = some w') (hplain : Word.IsPlain d.file) (htidy : σ.Tidy)
    (hw : σ.Wired r w) :
    Yields os σ (openOne s r d) fun σ' out => ∃ r', out = .ok r' ∧ σ'.Wired r' w' ∧ σ.Opens σ' ∧
      ∀ f, r'.stdin = some f → r.stdin = some f ∨ σ.next ≤ f := by
  by_cases hd : d.op = .errorToOutput
  · rw [openOne_join r hd]
    have hw' : w' = w.joinError := by
      unfold Wiring.openOne at hopen
      rw [hd] at hopen
      exact (Option.some.inj hopen).symm
    exact .pure ⟨_, rfl, hw' ▸ hw.joinError, .refl σ, fun f hf => .inl hf⟩
  · obtain ⟨name, hname, hsome, hfile⟩ := Wiring.exists_of_openOne hd hopen
    rw [openOne_file r hd]
    refine (target_yields hplain hname hsome).bind fun σ' found ⟨hσ, hfound⟩ => ?_
    subst hσ hfound
    rcases hfile with ⟨hop, data, hdata, rfl⟩ | ⟨hop, refusal, hrefusal, rfl⟩
    · rw [hop]
      refine (openFile_input_yields hdata).bind ?_
      rintro _ _ ⟨f, hf, rfl, rfl⟩
      have hopens := Ledger.opens_openInput hf data
      have hholds := Ledger.holdsInput_openInput htidy hf data
      exact .pure ⟨_, rfl, (hopens.wired htidy hw).addInput hholds, hopens, by grind [add]⟩
    · refine (openFile_output_yields hop hrefusal).bind ?_
      rintro _ _ ⟨f, hf, rfl, rfl⟩
      have hopens := Ledger.opens_openOutput hf refusal
      have htakes := Ledger.takesOutput_openOutput σ' f refusal
      have hstdin : (r.add d.op f).stdin = r.stdin := by
        cases hop' : d.op <;> first | rfl | exact absurd hop' hop
      exact .pure ⟨_, rfl, (hopens.wired htidy hw).addOutput hop hd htakes, hopens,
        fun f' hf' => .inl (hstdin ▸ hf')⟩

/-- Redirections that can all be opened. -/
lemma resolve_yields {r : Redirections} {w w' : Wiring} {ds : List Redirect}
    (hopen : w.openAll os s ds = some w') (hplain : ∀ d ∈ ds, Word.IsPlain d.file)
    (htidy : σ.Tidy) (hw : σ.Wired r w) :
    Yields os σ (resolve s r ds) fun σ' out => ∃ r', out = .ok r' ∧ σ'.Wired r' w' ∧ σ.Opens σ' ∧
      ∀ f, r'.stdin = some f → r.stdin = some f ∨ σ.next ≤ f := by
  induction ds generalizing σ r w with
  | nil =>
    cases hopen
    exact .pure ⟨r, rfl, hw, .refl σ, fun f hf => .inl hf⟩
  | cons d rest ih =>
    unfold Wiring.openAll at hopen
    split at hopen
    case h_2 => cases hopen
    case h_1 w₁ hw₁ =>
      refine (openOne_yields hw₁ (hplain d (by simp)) htidy hw).bind ?_
      rintro σ₁ _ ⟨r₁, rfl, hr₁, hopens, hnew⟩
      refine (ih hopen (fun d hd => hplain d (by simp [hd])) (hopens.tidy htidy) hr₁).mono ?_
      rintro σ₂ _ ⟨r₂, rfl, hr₂, hopens', hnew'⟩
      refine ⟨r₂, rfl, hr₂, hopens.trans hopens', fun f hf => ?_⟩
      rcases hnew' f hf with hold | hlater
      · exact hnew f hold
      · exact .inr (Nat.le_trans hopens.later.next hlater)

end Redirections

namespace Ledger

/-- A stage is what an element means, with redirections that have been opened. -/
structure Planned (os : Ideal) (s : Session) (σ : Ledger) (stage : Stage) (e : Element) :
    Prop where
  action : stage.action = e.action os s
  wired : ∀ w, e.wiring os s = some w → σ.Wired stage.redirects w

end Ledger

/-- The files that stages read. -/
def Stage.inputs (stages : List Stage) : List FileId := stages.filterMap (·.redirects.stdin)

namespace Element

variable {os : Ideal} {σ : Ledger} {s : Session}

lemma plan_yields {e : Element} {w : Wiring} (hw : e.wiring os s = some w)
    (hsteady : ∀ sight ∈ e.words, sight.Steady os) (htidy : σ.Tidy) :
    Yields os σ (plan s e) fun σ' out => ∃ stage, out = .ok stage ∧
      σ'.Planned os s stage e ∧ σ.Opens σ' ∧ ∀ f, stage.redirects.stdin = some f → σ.next ≤ f := by
  cases e with
  | simple c =>
    simp only [plan, Act.ask_bind]
    refine .view fun v hv => ?_
    have hplain (d : Redirect) (hd : d ∈ c.redirects) : Word.IsPlain d.file :=
      hsteady (.word d.file) (by simp [words, SimpleCommand.sights]; grind)
    refine (Redirections.resolve_yields hw hplain htidy σ.wired_none).bind ?_
    rintro σ' _ ⟨r, rfl, hr, hopens, hnew⟩
    refine .pure ⟨_, rfl, ⟨c.action_eq hsteady s hv, fun w' hw' => ?_⟩, hopens, fun f hf => ?_⟩
    · cases hw.symm.trans hw'
      exact hr
    · rcases hnew f hf with hnone | hnew
      · cases hnone
      · exact hnew
  | subshell body =>
    refine .pure ⟨_, rfl, ⟨rfl, fun w' hw' => ?_⟩, .refl σ, by simp [Redirections.none]⟩
    cases hw'
    exact σ.wired_none
  | group body =>
    refine .pure ⟨_, rfl, ⟨rfl, fun w' hw' => ?_⟩, .refl σ, by simp [Redirections.none]⟩
    cases hw'
    exact σ.wired_none

/-- **Planning elements that mean something opens what their wirings say.** -/
theorem planAll_yields {es : List Element} (hw : ∀ e ∈ es, ∃ w, e.wiring os s = some w)
    (hsteady : ∀ e ∈ es, ∀ sight ∈ e.words, sight.Steady os) (htidy : σ.Tidy) :
    Yields os σ (planAll s es) fun σ' out => ∃ stages, out = .ok stages ∧
      List.Forall₂ (σ'.Planned os s) stages es ∧ σ.Opens σ' ∧ (Stage.inputs stages).Nodup ∧
      ∀ f ∈ Stage.inputs stages, σ.next ≤ f := by
  induction es generalizing σ with
  | nil => exact .pure ⟨[], rfl, .nil, .refl σ, List.nodup_nil, by simp [Stage.inputs]⟩
  | cons e rest ih =>
    obtain ⟨w, hwiring⟩ := hw e (by simp)
    refine (plan_yields hwiring (hsteady e (by simp)) htidy).bind ?_
    rintro σ₁ _ ⟨stage, rfl, hstage, hopens, hnew⟩
    have hrest := ih (fun e he => hw e (by simp [he])) (fun e he => hsteady e (by simp [he]))
      (hopens.tidy htidy)
    refine hrest.bind ?_
    rintro σ₂ _ ⟨stages, rfl, hstages, hopens', hnodup, hinputs⟩
    have hstage' : σ₂.Planned os s stage e :=
      ⟨hstage.action, fun w hw => hopens'.wired (hopens.tidy htidy) (hstage.wired w hw)⟩
    refine .pure ⟨_, rfl, .cons hstage' hstages, hopens.trans hopens', ?_, ?_⟩
    · -- the input of the first stage was there before the other files were opened
      cases hinput : stage.redirects.stdin with
      | none => simpa [Stage.inputs, hinput] using hnodup
      | some f =>
        obtain ⟨data, -, hholds⟩ := (hstage.wired w hwiring).exists_holdsInput hinput
        have hnotMem : f ∉ Stage.inputs stages := fun hmem =>
          Nat.not_lt.2 (hinputs f hmem) hholds.lt
        simpa [Stage.inputs, hinput] using ⟨by simpa [Stage.inputs] using hnotMem, hnodup⟩
    · intro f hf
      have hle := hopens.later.next
      have hcases : stage.redirects.stdin = some f ∨ f ∈ Stage.inputs stages := by
        simp only [Stage.inputs, List.mem_filterMap, List.mem_cons] at hf ⊢
        grind
      rcases hcases with hfirst | hlater
      · exact hnew f hfirst
      · exact Nat.le_trans hle (hinputs f hlater)

end Element

end Conch
