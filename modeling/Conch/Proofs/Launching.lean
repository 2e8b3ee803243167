import Conch.Proofs.Staging

/-!
# Launching a pipeline

Every stage of a pipeline is started in front of the next one, on ducts that nobody else has: its
input is complete when it starts, as the stage in front of it has come to its end in the ledger,
and what it writes is the input of the stage behind it.

## Main definitions

* `Pipeline.Step` — one more stage has been launched.

## Main results

* `Pipeline.launchOne_yields` — one stage.
* `Pipeline.launchFrom_yields`, `Pipeline.launch_yields` — all stages.
-/

set_option autoImplicit false

namespace Conch

open Act (Yields)
open Text (Octets)
open Builtin (Outlet)

/-! ## Threads for stages -/

namespace Ledger

variable {n : Nat} {σ σ' : Ledger} {streams : Streams} {input : Octets} {w : Wiring} {port : Port}
  {dst : Duct}

lemma Extends.enter (h : Extends n σ σ') (hdst : dst.Below n) (out : Octets) :
    Extends n (σ.enter dst out) (σ'.enter dst out) where
  next := h.next
  data c hc := by
    have hdata := h.data c hc
    have hdata' := h.data dst hdst
    simp only [Ledger.enter, Function.update_apply]
    grind
  refused := h.refused
  reads := h.reads
  writes := h.writes

lemma tidy_of_companions_nil (h : σ.companions = []) : σ.Tidy where
  ended := by simp [h]
  nodup := by simp [h]
  threads := by simp [h]
  ducts := by simp [h]

/-- A thread may write where the stage that it runs may. -/
lemma Plumbed.lend (h : σ.Plumbed streams w port dst) (stage : Stage) (s : Session) :
    (σ.lend (.stage stage streams s)).Plumbed streams w port dst := by
  have hwrites (o : Outlet) : (σ.lend (.stage stage streams s)).writes (streams.sink o).duct =
      σ.writes (streams.sink o).duct := by
    cases o <;> simp [Ledger.lend, Body.writing, Streams.sink]
  refine ⟨h.below, h.refused, fun o => ?_, fun o ho => ?_, fun k hk => absurd hk List.not_mem_nil⟩
  · rw [hwrites]
    exact h.passes o
  · exact h.leads o ((hwrites o).symm.trans ho)

/-- A thread gets the streams of the stage that it runs. -/
lemma Serves.lend (h : σ.Serves streams input port) (stage : Stage) (s : Session) :
    (σ.lend (.stage stage streams s)).Serves streams input port where
  tidy := tidy_of_companions_nil rfl
  stdin := by
    rcases h.stdin with htext | ⟨hbelow, hreadable, hdata⟩
    · exact .inl htext
    · have hreading : streams.stdin.duct ∈ (Body.stage stage streams s).reading := by
        cases hstdin : streams.stdin with
        | text t =>
          rw [hstdin] at hbelow
          exact hbelow.elim
        | _ => simp [Body.reading, hstdin, Source.reading]
      have htidy : (σ.lend (.stage stage streams s)).Tidy := tidy_of_companions_nil rfl
      refine .inr ⟨hbelow, ⟨?_, ?_, fun k hk => absurd hk List.not_mem_nil, htidy.settled _⟩, hdata⟩
      · exact decide_eq_true ⟨hreading, hreadable⟩
      · simp [Ledger.lend, hreadable.2.1]
  stdout_below := h.stdout_below
  stdout_writes := by simp [Ledger.lend, Body.writing, h.stdout_writes]
  stdout_unwritten k hk := absurd hk List.not_mem_nil
  stdout_refused := h.stdout_refused
  stderr_below := h.stderr_below
  stderr_writes := by simp [Ledger.lend, h.stderr_writes]
  stderr_refused := h.stderr_refused

/-- What is read from a source is the duct behind it. -/
lemma eq_of_mem_reading {src : Source} {c : Duct} (h : c ∈ src.reading) : c = src.duct := by
  cases src with
  | text t => exact absurd h List.not_mem_nil
  | _ => exact List.mem_singleton.1 h

lemma Feeds.below_of_mem {src : Source} (h : σ.Feeds src input) {c : Duct}
    (hc : c ∈ src.reading) : c.Below σ.next := by
  rcases h with ⟨t, rfl, -⟩ | ⟨hbelow, -, -⟩
  · exact absurd hc List.not_mem_nil
  · exact eq_of_mem_reading hc ▸ hbelow

/-- What is left of the input of a command that does not read. -/
lemma Serves.exists_left (h : σ.Serves streams input port) (r : Redirections) :
    ∃ rest, (r.stdin = none → rest = input) ∧
      ((r.apply streams).stdin.duct.Below σ.next →
        σ.data (r.apply streams).stdin.duct = rest) := by
  cases hredirect : r.stdin with
  | some g => exact ⟨_, by simp, fun _ => rfl⟩
  | none =>
    have hsame : (r.apply streams).stdin = streams.stdin := by
      simp [Redirections.apply, hredirect]
    refine ⟨input, fun _ => rfl, fun hbelow => ?_⟩
    rw [hsame] at hbelow ⊢
    rcases h.stdin with ⟨t, ht, -⟩ | ⟨-, -, hinput⟩
    · rw [ht] at hbelow
      exact hbelow.elim
    · exact hinput

/-- A thread has been started that has done its work. -/
lemma Plumbed.starts_rejoin (h : σ.Plumbed streams w port dst) (htidy : σ.Tidy)
    (hfeeds : σ.Feeds streams.stdin input) (stage : Stage) (s : Session) {rest out : Octets}
    (hchild : Extends σ.next
      ((σ.lend (.stage stage streams s)).effect streams.stdin.duct rest dst out) σ')
    (hdst : dst ∈ (Body.stage stage streams s).writing ∨ out = "") (code : Int) {t : TaskId}
    (ht : σ.next ≤ t) :
    σ.Starts streams.stdin.duct rest dst out
      [⟨.thread t, streams.stdin.reading, σ.lets streams, .ended code⟩]
      (σ.rejoin (.stage stage streams s) σ' t code) where
  later :=
    { next := Nat.le_succ_of_le ht
      data := fun c hc => by
        have hsrc : c = streams.stdin.duct → c ∈ (Body.stage stage streams s).reading := by
          rintro rfl
          cases hstdin : streams.stdin with
          | text t =>
            rw [hstdin] at hc
            exact hc.elim
          | _ => simp [Body.reading, hstdin, Source.reading]
        have hdata := hchild.data c hc
        simp only [effect_data] at hdata ⊢
        simp only [rejoin, List.mem_append]
        split
        case isTrue hmem => exact hdata
        case isFalse hmem =>
          rw [not_or] at hmem
          have hne : c ≠ streams.stdin.duct := fun heq => hmem.1 (hsrc heq)
          by_cases hcdst : c = dst
          · subst hcdst
            have hout := hdst.resolve_left hmem.2
            simp [hne, hout]
          · simp [hne, hcdst]
      refused := fun _ _ => rfl
      reads := fun _ _ => rfl
      writes := fun _ _ => rfl }
  companions := rfl
  tidy := by
    refine htidy.append rfl (Nat.le_succ_of_le ht) rfl (htidy.lacks_thread ht) ?_ fun c hc => ?_
    · rintro _ ⟨⟩
      exact Nat.lt_succ_self t
    · rcases List.mem_append.1 hc with hread | hwritten
      · exact (hfeeds.below_of_mem hread).mono (Nat.le_succ_of_le ht)
      · exact (h.below_of_mem_lets hwritten).mono (Nat.le_succ_of_le ht)
  reading k hk c hc _ := by
    cases List.mem_singleton.1 hk
    exact eq_of_mem_reading hc
  writing k hk c hc _ := by
    cases List.mem_singleton.1 hk
    exact h.eq_of_mem_lets hc

end Ledger

/-! ## Stages that the shell runs itself -/

namespace Stage

variable {os : Ideal} {σ : Ledger} {streams : Streams} {input : Octets} {port : Port}

/-- What a stage that the shell runs itself does, in its own ledger `τ` or in that of its
thread. -/
def DoesInside (os : Ideal) (σ τ : Ledger) (stage : Stage) (copied : Bool) (nested : Nested)
    (streams : Streams) (s : Session) (f : Flow) : Prop :=
  ∃ rest, (stage.redirects.stdin = none → rest = f.rest) ∧
    (streams.stdout.duct ∈ (Body.stage stage (stage.redirects.apply streams) s).writing ∨
      f.out = "") ∧
    Yields os τ (runInside stage.action copied nested (stage.redirects.apply streams) s)
      fun τ' r => r = (f.code, f.session) ∧
        Ledger.Extends σ.next (τ.effect (stage.redirects.apply streams).stdin.duct rest
          streams.stdout.duct f.out) τ' ∧
        τ'.companions = τ.companions

section Inside

variable {τ : Ledger} {stage : Stage} {s : Session} {copied : Bool} {f : Flow}

/-- A builtin or an assignment. -/
lemma doesInside_simple (h : σ.Serves streams input port) {c : SimpleCommand}
    (hplanned : σ.Planned os s stage (.simple c))
    (hflow : c.flow os port copied s input = some f)
    (hsteady : ∀ sight ∈ f.sights, sight.Steady os) (hinside : stage.action.isProgram = false)
    (hτ : τ = σ ∨ τ = σ.lend (.stage stage (stage.redirects.apply streams) s))
    (nested : Nested) : DoesInside os σ τ stage copied nested streams s f := by
  obtain ⟨w, hw⟩ := Element.exists_wiring (e := .simple c) hflow
  have hplumbed := h.plumbed (hplanned.wired w hw)
  have hplumbed' : τ.Plumbed (stage.redirects.apply streams) w port streams.stdout.duct := by
    rcases hτ with rfl | rfl
    · exact hplumbed
    · exact hplumbed.lend stage s
  have hdata : τ.data = σ.data := by rcases hτ with rfl | rfl <;> rfl
  have haction : stage.action = c.action s os.view := hplanned.action
  have hinside' := haction ▸ hinside
  obtain ⟨hrest, hnowhere⟩ := SimpleCommand.flow_inside hw hflow hinside'
  obtain ⟨rest, hnone, hleft⟩ := h.exists_left stage.redirects
  refine ⟨rest, fun hstdin => (hnone hstdin).trans hrest.symm, ?_, ?_⟩
  · by_cases hleads : ∀ o, w.leads port o = false
    · exact .inr (hnowhere hleads)
    · simp only [Bool.not_eq_false, not_forall] at hleads
      obtain ⟨o, ho⟩ := hleads
      have hpasses := (hplumbed.passes o).trans ho
      have hsink := hplumbed.leads o (Bool.and_eq_true_iff.1 hpasses).1
      left
      rw [← hsink]
      cases o <;> simp [Body.writing, Streams.sink]
  · rw [haction]
    refine (runInside_simple_yields hplumbed' hw hflow hsteady hinside' nested).mono ?_
    rintro _ _ ⟨rfl, rfl⟩
    refine ⟨rfl, Ledger.extends_enter (fun hbelow => ?_) h.stdout_below _, rfl⟩
    rw [hdata]
    exact hleft hbelow

/-- The body of a group or a subshell. -/
lemma doesInside_nested (h : σ.Serves streams input port) {body : Command} {copy : Bool}
    (haction : stage.action = .nested body copy) (hredirects : stage.redirects = .none)
    (hbody : body.Adequate os) {g : Flow} (hflow : body.flow os port s input = some g)
    (hsteady : ∀ sight ∈ g.sights, sight.Steady os)
    (hf : f = { g with session := if copied || copy then s else g.session })
    (hτ : τ = σ ∨ τ = σ.lend (.stage stage (stage.redirects.apply streams) s)) :
    DoesInside os σ τ stage copied body.run streams s f := by
  rw [hredirects, Redirections.apply_none] at hτ
  have hserves : τ.Serves streams input port := by
    rcases hτ with rfl | rfl
    · exact h
    · exact h.lend stage s
  have hnext : τ.next = σ.next := by rcases hτ with rfl | rfl <;> rfl
  unfold DoesInside
  rw [hredirects, Redirections.apply_none, haction]
  refine ⟨f.rest, fun _ => rfl, .inl (by simp [Body.writing]), ?_⟩
  refine (runInside_nested_yields hserves hbody hflow hsteady copied copy).mono ?_
  rintro τ' _ ⟨rfl, hfollows⟩
  subst hf
  exact ⟨rfl, hnext ▸ hfollows.later, hfollows.companions⟩

/-- **A stage that the shell runs itself does what its element means**, on the spot or on a
thread. -/
theorem doesInside (h : σ.Serves streams input port) {e : Element}
    (hplanned : σ.Planned os s stage e) (he : e.Adequate os)
    (hflow : e.flow os port copied s input = some f)
    (hsteady : ∀ sight ∈ f.sights, sight.Steady os) (hinside : stage.action.isProgram = false)
    {nested : Nested} (hnested : ∀ body copy, stage.action = .nested body copy → nested = body.run)
    (hτ : τ = σ ∨ τ = σ.lend (.stage stage (stage.redirects.apply streams) s)) :
    DoesInside os σ τ stage copied nested streams s f := by
  have haction := hplanned.action
  cases e with
  | simple c => exact doesInside_simple h hplanned hflow hsteady hinside hτ nested
  | subshell body =>
    obtain ⟨g, hg, rfl⟩ := Option.map_eq_some_iff.1 hflow
    rw [hnested body true haction]
    exact doesInside_nested h haction (hplanned.wired .none rfl).eq_none he hg hsteady (by simp) hτ
  | group body =>
    obtain ⟨g, hg, rfl⟩ := Option.map_eq_some_iff.1 hflow
    rw [hnested body false haction]
    exact doesInside_nested h haction (hplanned.wired .none rfl).eq_none he hg hsteady (by simp) hτ

end Inside

end Stage

/-! ## One stage -/

namespace Pipeline

/-- One more stage has been launched on given streams, and comes to `f`. -/
structure Step (σ : Ledger) (l : Launched) (stage : Stage) (streams : Streams) (f : Flow)
    (σ' : Ledger) (l' : Launched) : Prop where
  session : l'.session = f.session
  starts : ∃ rest team running helpers, (stage.redirects.stdin = none → rest = f.rest) ∧
    σ.Starts (stage.redirects.apply streams).stdin.duct rest streams.stdout.duct f.out team σ' ∧
    l'.stages = l.stages ++ [running] ∧ l'.helpers = l.helpers ++ helpers ∧
    Running.Manned team helpers f.code running

section One

variable {os : Ideal} {σ : Ledger} {streams : Streams} {input : Octets} {port : Port}
  {stage : Stage} {s : Session} {copied : Bool} {f : Flow} {l : Launched}

/-- A stage that the shell runs itself on the spot. -/
lemma step_finished (h : σ.Serves streams input port) {nested : Nested} (hl : l.session = s)
    (hinside : stage.action.isProgram = false)
    (hdoes : Stage.DoesInside os σ σ stage copied nested streams s f) (isolate : Bool) :
    Yields os σ (launchOne isolate copied true nested stage (stage.redirects.apply streams) l)
      fun σ' l' => Step σ l stage streams f σ' l' := by
  obtain ⟨rest, hrest, -, hyields⟩ := hdoes
  rw [launchOne_inside _ _ _ _ hinside, if_pos rfl, hl]
  refine hyields.bind ?_
  rintro σ' _ ⟨rfl, hlater, hcompanions⟩
  have hstarts : σ.Starts (stage.redirects.apply streams).stdin.duct rest streams.stdout.duct
      f.out [] σ' :=
    ⟨hlater, by simp [hcompanions], h.tidy.of_companions hcompanions hlater.next, by simp, by simp⟩
  exact .pure ⟨rfl, rest, [], .finished f.code, [], hrest, hstarts, rfl, rfl, .finished rfl rfl⟩

/-- A stage that the shell runs itself on a thread. -/
lemma step_thread (h : σ.Serves streams input port) {e : Element}
    (hplanned : σ.Planned os s stage e) (hflow : e.flow os port true s input = some f)
    (hl : l.session = s) (hinside : stage.action.isProgram = false)
    (hdoes : Stage.DoesInside os σ (σ.lend (.stage stage (stage.redirects.apply streams) s)) stage
      true stage.runBody streams s f) (isolate : Bool) (nested : Nested) :
    Yields os σ (launchOne isolate copied false nested stage (stage.redirects.apply streams) l)
      fun σ' l' => Step σ l stage streams f σ' l' := by
  obtain ⟨w, hw⟩ := Element.exists_wiring hflow
  have hwired := hplanned.wired w hw
  have hplumbed := h.plumbed hwired
  obtain ⟨rest, hrest, hdst, hyields⟩ := hdoes
  rw [launchOne_inside _ _ _ _ hinside, if_neg Bool.false_ne_true, hl, Act.ask_bind]
  refine .fork ?_ (hyields.bind fun τ r hr => .done (Q := fun τ code => code = f.code ∧
    Ledger.Extends σ.next ((σ.lend (.stage stage (stage.redirects.apply streams) s)).effect
      (stage.redirects.apply streams).stdin.duct rest streams.stdout.duct f.out) τ ∧
    τ.companions = []) ⟨congrArg Prod.fst hr.1, hr.2.1, hr.2.2⟩) (fun _ _ h => h.2.2) ?_
  · intro c hc hwrites
    have hlets : c ∈ σ.lets (stage.redirects.apply streams) := List.mem_filter.2 ⟨hc, hwrites⟩
    exact hplumbed.eq_of_mem_lets hlets ▸ hplumbed.unwritten
  · rintro τ _ t ⟨rfl, hlater, -⟩ ht
    have hstarts := hplumbed.starts_rejoin h.tidy (h.feeds hwired) stage s hlater hdst f.code ht
    refine .pure ⟨?_, rest, _, .thread t, [.thread t], hrest, hstarts, rfl, rfl,
      .thread rfl rfl rfl rfl⟩
    exact hl.trans (Element.flow_session hflow (.inl rfl)).symm

/-- The report that a program cannot be started. -/
lemma step_notFound (h : σ.Serves streams input port) {w : Wiring}
    (hwired : σ.Wired stage.redirects w) {argv : List String} {vars : List (String × String)}
    (haction : stage.action = .program argv vars) (hl : l.session = s) {e : IoError}
    (he : os.program ((called s argv).map Octets.ofText) (s.env.setAll vars).entries s.cwd =
      .error e) (sights : List Sight) (isolate isLast : Bool) (nested : Nested) :
    Yields os σ (launchOne isolate copied isLast nested stage (stage.redirects.apply streams) l)
      fun σ' l' => Step σ l stage streams
        ⟨w.passed port [(.err, Octets.ofText ("rshell: " ++
          (ShellError.execution (argv.headD "") e).describe ++ "\n"))], 1, s, input, sights⟩
        σ' l' := by
  unfold launchOne
  rw [haction, hl]
  refine (startProgram_fails h.tidy (h.feeds hwired) he _).bind ?_
  rintro σ' _ ⟨rfl, hopens⟩
  have hunwritten : σ'.Unwritten streams.stdout.duct := fun k hk =>
    h.stdout_unwritten k (hopens.companions ▸ hk)
  have hplumbed := (h.plumbed hwired).of_extends hopens.later hunwritten
    (stage.redirects.apply streams).stdin
  refine (hplumbed.tell .err _).bind ?_
  rintro _ - rfl
  obtain ⟨rest, hrest, hleft⟩ := h.exists_left stage.redirects
  have hlater (out : Octets) := (Ledger.extends_enter hleft h.stdout_below out).trans
    (hopens.later.enter h.stdout_below out)
  have hstarts (out : Octets) : σ.Starts (stage.redirects.apply streams).stdin.duct rest
      streams.stdout.duct out [] (σ'.enter streams.stdout.duct out) :=
    ⟨hlater out, hopens.companions.trans (List.append_nil _).symm,
      h.tidy.of_companions hopens.companions hopens.later.next, by simp, by simp⟩
  exact .pure ⟨hl, rest, [], .finished 1, [], hrest, hstarts _, rfl, rfl, .finished rfl rfl⟩

/-- A program that can be started. -/
lemma step_started (h : σ.Serves streams input port) {w : Wiring}
    (hwired : σ.Wired stage.redirects w) {argv : List String} {vars : List (String × String)}
    (haction : stage.action = .program argv vars) (hl : l.session = s) {run : Octets → Report}
    (hrun : os.program ((called s argv).map Octets.ofText) (s.env.setAll vars).entries s.cwd =
      .ok run) (sights : List Sight) (isolate isLast : Bool) (nested : Nested) :
    Yields os σ (launchOne isolate copied isLast nested stage (stage.redirects.apply streams) l)
      fun σ' l' => Step σ l stage streams
        ⟨w.passed port (run (w.stdin.getD input)).writes, (run (w.stdin.getD input)).code, s,
          if w.stdin.isSome then input else "", sights⟩ σ' l' := by
  unfold launchOne
  rw [haction, hl]
  refine (startProgram_yields h.tidy (h.plumbed hwired) h.stdout_below (h.feeds hwired) hrun
    _).bind ?_
  rintro σ' _ ⟨pid, helpers, team, rfl, hteam, hstarts⟩
  refine .pure ⟨hl, "", team, .process pid, helpers, fun hnone => ?_, hstarts, rfl, rfl,
    .process hteam⟩
  -- without a redirection the program has read what is supplied
  have hstdin := hwired.stdin
  rw [hnone] at hstdin
  cases hwin : w.stdin with
  | none => rfl
  | some data =>
    rw [hwin] at hstdin
    cases hstdin

/-- A program, or the report that it cannot be started. -/
lemma step_program (h : σ.Serves streams input port) {e : Element}
    (hplanned : σ.Planned os s stage e) (hflow : e.flow os port copied s input = some f)
    (hl : l.session = s) (hprogram : stage.action.isProgram = true) (isolate isLast : Bool)
    (nested : Nested) :
    Yields os σ (launchOne isolate copied isLast nested stage (stage.redirects.apply streams) l)
      fun σ' l' => Step σ l stage streams f σ' l' := by
  obtain ⟨w, hw⟩ := Element.exists_wiring hflow
  have haction := hplanned.action
  obtain ⟨argv, vars, hargv⟩ : ∃ argv vars, stage.action = .program argv vars := by
    cases hstage : stage.action with
    | program argv vars => exact ⟨argv, vars, rfl⟩
    | _ => simp [hstage, Action.isProgram] at hprogram
  cases e with
  | subshell body => cases hargv.symm.trans haction
  | group body => cases hargv.symm.trans haction
  | simple c =>
    have haction' : c.action s os.view = .program argv vars := haction.symm.trans hargv
    have hw' : Wiring.none.openAll os s c.redirects = some w := hw
    simp only [Element.flow, SimpleCommand.flow, hw', haction'] at hflow
    split at hflow
    case h_1 err herr =>
      cases hflow
      exact step_notFound h (hplanned.wired w hw) hargv hl herr _ isolate isLast nested
    case h_2 run hrun =>
      cases hflow
      exact step_started h (hplanned.wired w hw) hargv hl hrun _ isolate isLast nested

/-- **A stage of a pipeline is launched as its element means.** -/
theorem launchOne_yields (h : σ.Serves streams input port) {e : Element}
    (hplanned : σ.Planned os s stage e) (he : e.Adequate os)
    (hflow : e.flow os port copied s input = some f)
    (hsteady : ∀ sight ∈ f.sights, sight.Steady os) (hl : l.session = s) {isLast : Bool}
    (hcopied : isLast = false → copied = true) {nested : Nested}
    (hnested : isLast = true → ∀ body copy, stage.action = .nested body copy → nested = body.run)
    (isolate : Bool) :
    Yields os σ (launchOne isolate copied isLast nested stage (stage.redirects.apply streams) l)
      fun σ' l' => Step σ l stage streams f σ' l' := by
  cases hprogram : stage.action.isProgram with
  | true => exact step_program h hplanned hflow hl hprogram isolate isLast nested
  | false =>
    cases isLast with
    | true =>
      have hdoes := Stage.doesInside h hplanned he hflow hsteady hprogram (hnested rfl) (.inl rfl)
      exact step_finished h hl hprogram hdoes isolate
    | false =>
      have hbody (body : Command) (copy : Bool) (haction : stage.action = .nested body copy) :
          stage.runBody = body.run := by
        funext streams s
        simp [Stage.runBody, haction]
      rw [hcopied rfl] at hflow
      have hdoes := Stage.doesInside h hplanned he hflow hsteady hprogram hbody (.inr rfl)
      exact step_thread h hplanned hflow hl hprogram hdoes isolate nested

end One

end Pipeline

/-! ## All stages -/

namespace Ledger

variable {n : Nat} {σ σ' : Ledger}

/-- The ends of the pipes beside a stage have been closed. -/
def closed (σ : Ledger) (input output : Option PipeId) : Ledger :=
  { σ with
    reads := input.elim σ.reads fun p => Function.update σ.reads (.pipe p) false
    writes := output.elim σ.writes fun p => Function.update σ.writes (.pipe p) false }

lemma closeAll_yields {os : Ideal} (h : σ.Tidy) (input output : Option PipeId) :
    Yields os σ (closeAll ((input.map End.reader).toList ++ (output.map End.writer).toList))
      fun σ' _ => σ' = σ.closed input output := by
  have hwriter (σ : Ledger) (h : σ.Tidy) :
      Yields os σ (closeAll (output.map End.writer).toList)
        fun σ' _ => σ' = σ.closed none output := by
    cases output with
    | none => exact .done rfl
    | some p => exact .closeWriter (h.settled _) (.done (closeWriter_of_isEnded h.ended p))
  cases input with
  | none => exact hwriter σ h
  | some p => exact .closeReader (hwriter (σ.closeReader p) (h.of_companions rfl (Nat.le_refl _)))

lemma closed_reads {input : Option PipeId} {c : Duct} (h : ∀ p ∈ input, c ≠ .pipe p)
    (output : Option PipeId) : (σ.closed input output).reads c = σ.reads c := by
  cases input with
  | none => rfl
  | some p => exact Function.update_of_ne (h p rfl) _ _

lemma closed_writes {output : Option PipeId} {c : Duct} (h : ∀ p ∈ output, c ≠ .pipe p)
    (input : Option PipeId) : (σ.closed input output).writes c = σ.writes c := by
  cases output with
  | none => rfl
  | some p => exact Function.update_of_ne (h p rfl) _ _

lemma extends_closed {input output : Option PipeId} (hinput : ∀ p ∈ input, n ≤ p)
    (houtput : ∀ p ∈ output, n ≤ p) : Extends n σ (σ.closed input output) where
  next := Nat.le_refl _
  data _ _ := rfl
  refused _ _ := rfl
  reads _ hc := closed_reads (fun p hp => hc.ne_pipe (hinput p hp)) _
  writes _ hc := closed_writes (fun p hp => hc.ne_pipe (houtput p hp)) _

/-- A pipe that nobody has used. -/
structure FreshPipe (σ : Ledger) (p : PipeId) : Prop where
  lt : p < σ.next
  reads : σ.reads (.pipe p) = true
  writes : σ.writes (.pipe p) = true
  refused : σ.refused (.pipe p) = none
  data_eq : σ.data (.pipe p) = ""
  unread : σ.Unread (.pipe p)
  unwritten : σ.Unwritten (.pipe p)

lemma freshPipe_openPipe (h : σ.Tidy) {p : PipeId} (hp : σ.next ≤ p) :
    (σ.openPipe p).FreshPipe p where
  lt := Nat.lt_succ_self p
  reads := Function.update_self ..
  writes := Function.update_self ..
  refused := Function.update_self ..
  data_eq := Function.update_self ..
  unread := (h.unused (c := .pipe p) (Nat.not_lt.2 hp)).1
  unwritten := (h.unused (c := .pipe p) (Nat.not_lt.2 hp)).2

lemma FreshPipe.of_opens {p : PipeId} (h : σ.FreshPipe p)
    (hopens : σ.Opens σ') : σ'.FreshPipe p where
  lt := Nat.lt_of_lt_of_le h.lt hopens.later.next
  reads := (hopens.later.reads (.pipe p) h.lt).trans h.reads
  writes := (hopens.later.writes (.pipe p) h.lt).trans h.writes
  refused := (hopens.later.refused (.pipe p) h.lt).trans h.refused
  data_eq := (hopens.later.data (.pipe p) h.lt).trans h.data_eq
  unread k hk := h.unread k (hopens.companions ▸ hk)
  unwritten k hk := h.unwritten k (hopens.companions ▸ hk)

/-- Whoever has been started reads from no other duct. -/
lemma Starts.unread {src dst : Duct} {rest out : Octets} {team : List Companion}
    (h : σ.Starts src rest dst out team σ') {c : Duct} (hc : c.Below σ.next) (hne : c ≠ src)
    (hold : σ.Unread c) : σ'.Unread c := by
  intro k hk
  rw [h.companions] at hk
  rcases List.mem_append.1 hk with hk | hk
  · exact hold k hk
  · exact fun hmem => hne (h.reading k hk c hmem hc)

/-- Whoever has been started writes to no other duct. -/
lemma Starts.unwritten {src dst : Duct} {rest out : Octets} {team : List Companion}
    (h : σ.Starts src rest dst out team σ') {c : Duct} (hc : c.Below σ.next) (hne : c ≠ dst)
    (hold : σ.Unwritten c) : σ'.Unwritten c := by
  intro k hk
  rw [h.companions] at hk
  rcases List.mem_append.1 hk with hk | hk
  · exact hold k hk
  · exact fun hmem => hne (h.writing k hk c hmem hc)

section BesidePipes

variable {src : Duct} {rest out : Octets} {team : List Companion} {p : PipeId}
  {input : Option PipeId}

/-- Files that have been opened are the same when a stage has been started on its pipes. -/
lemma Starts.keeps {dst : Duct} (h : σ.Starts src rest dst out team σ') (output : Option PipeId) :
    σ.Keeps (σ'.closed input output) where
  next := h.later.next
  refused f hf := h.later.refused (.file f) hf
  reads f hf := (closed_reads (by simp) _).trans (h.later.reads (.file f) hf)
  writes f hf := (closed_writes (by simp) _).trans (h.later.writes (.file f) hf)

/-- All that will ever be in the pipe that a stage writes into is there. -/
lemma FreshPipe.feeds (h : σ.FreshPipe p) (hstarts : σ.Starts src rest (.pipe p) out team σ')
    (hsrc : Duct.pipe p ≠ src) (hinput : ∀ p' ∈ input, Duct.pipe p ≠ .pipe p') :
    (σ'.closed input (some p)).Feeds (.pipe p) out := by
  refine .inr ⟨Nat.lt_of_lt_of_le h.lt hstarts.later.next,
    ⟨?_, Function.update_self .., ?_, ?_⟩, ?_⟩
  · exact (closed_reads hinput _).trans ((hstarts.later.reads (.pipe p) h.lt).trans h.reads)
  · exact hstarts.unread h.lt hsrc h.unread
  · exact fun k hk _ => hstarts.tidy.ended k hk
  · refine (hstarts.later.data (.pipe p) h.lt).trans ?_
    simp [effect_data, hsrc, h.data_eq]

/-- Nobody has used the pipes behind a stage. -/
lemma FreshPipe.of_starts {q : PipeId} (h : σ.FreshPipe q)
    (hstarts : σ.Starts src rest (.pipe p) out team σ') (hsrc : Duct.pipe q ≠ src)
    (hne : Duct.pipe q ≠ .pipe p) (hinput : ∀ p' ∈ input, Duct.pipe q ≠ .pipe p') :
    (σ'.closed input (some p)).FreshPipe q where
  lt := Nat.lt_of_lt_of_le h.lt hstarts.later.next
  reads := (closed_reads hinput _).trans ((hstarts.later.reads (.pipe q) h.lt).trans h.reads)
  writes := (closed_writes (by simpa using hne) _).trans
    ((hstarts.later.writes (.pipe q) h.lt).trans h.writes)
  refused := (hstarts.later.refused (.pipe q) h.lt).trans h.refused
  data_eq := by
    refine (hstarts.later.data (.pipe q) h.lt).trans ?_
    simp [effect_data, hne, hsrc, h.data_eq]
  unread := hstarts.unread h.lt hsrc h.unread
  unwritten := hstarts.unwritten h.lt hne h.unwritten

end BesidePipes

/-- What goes through a pipe that was not there before cannot be seen. -/
lemma Extends.through {src dst : Duct} {rest out : Octets} {p : PipeId}
    (h : Extends n (σ.effect src rest (.pipe p) out) σ') (hp : n ≤ p) (hdst : dst.Below n)
    (rest' out' : Octets) :
    Extends n (σ.effect src rest dst out') (σ'.effect (.pipe p) rest' dst out') where
  next := h.next
  data c hc := by
    have hdata := h.data c hc
    have hdata' := h.data dst hdst
    have hcp := hc.ne_pipe hp
    have hdp := hdst.ne_pipe hp
    simp only [effect_data] at hdata hdata' ⊢
    grind
  refused := h.refused
  reads := h.reads
  writes := h.writes

end Ledger

namespace Pipeline

/-- The streams of a pipeline whose first stage reads from a pipe, if there is one. -/
def fromPipe (streams : Streams) (input : Option PipeId) : Streams :=
  { streams with stdin := (input.map Source.pipe).getD streams.stdin }

/-- What the stages of a pipeline that are not launched yet find: streams, redirections that have
been opened, and pipes between them, all behind number `n`. -/
structure Supplied (os : Ideal) (n : Nat) (s : Session) (streams : Streams) (port : Port)
    (σ : Ledger) (stages : List Stage) (es : List Element) (pipes : List PipeId)
    (input : Option PipeId) (x : Octets) : Prop where
  serves : σ.Serves (fromPipe streams input) x port
  stdout : streams.stdout.duct.Below n
  stderr : streams.stderr.duct.Below n
  input_le : ∀ p ∈ input, n ≤ p
  stdin_pipe : ∀ p, (fromPipe streams input).stdin.duct = .pipe p → p ∉ pipes
  stdin_file : ∀ f, (fromPipe streams input).stdin.duct = .file f → f < n
  planned : List.Forall₂ (σ.Planned os s) stages es
  files_nodup : (Stage.inputs stages).Nodup
  files : ∀ f ∈ Stage.inputs stages, n ≤ f
  pipes_nodup : pipes.Nodup
  pipes_le : ∀ p ∈ pipes, n ≤ p
  pipes_fresh : ∀ p ∈ pipes, σ.FreshPipe p
  length : stages.length = pipes.length + 1

section All

variable {os : Ideal} {n : Nat} {s : Session} {streams : Streams} {port : Port} {σ σ' : Ledger}
  {stage : Stage} {stages : List Stage} {e : Element} {es : List Element} {pipes : List PipeId}
  {input : Option PipeId} {x : Octets} {f : Flow} {l l' : Launched}

/-- What has been done to the ducts that were there before, once a stage has been launched. -/
lemma Step.later {streams : Streams} (h : Step σ l stage streams f σ' l')
    (hserves : σ.Serves streams x port) (hn : n ≤ σ.next)
    (hfile : ∀ g, stage.redirects.stdin = some g → n ≤ g ∧ f.rest = x) :
    Ledger.Extends n (σ.effect streams.stdin.duct f.rest streams.stdout.duct f.out) σ' := by
  obtain ⟨rest, team, r, helpers, hrest, hstarts, -⟩ := h.starts
  refine Ledger.Extends.trans ?_ (hstarts.later.mono hn)
  cases hredirect : stage.redirects.stdin with
  | none =>
    have hsame : (stage.redirects.apply streams).stdin = streams.stdin := by
      simp [Redirections.apply, hredirect]
    rw [hsame, hrest hredirect]
    exact .refl _ _
  | some g =>
    -- the file that the stage reads was not there before, and what is supplied is left
    obtain ⟨hg, hx⟩ := hfile g hredirect
    have hfile : (stage.redirects.apply streams).stdin.duct = .file g := by
      simp [Redirections.apply, hredirect, Source.duct]
    have hleft : streams.stdin.duct.Below n → σ.data streams.stdin.duct = x := by
      intro hbelow
      rcases hserves.stdin with ⟨t, ht, -⟩ | ⟨-, -, hdata⟩
      · rw [ht] at hbelow
        exact hbelow.elim
      · exact hdata
    have hne := hserves.stdin_ne
    rw [hfile, hx]
    refine ⟨Nat.le_refl _, fun c hc => ?_, fun _ _ => rfl, fun _ _ => rfl, fun _ _ => rfl⟩
    have hcg := hc.ne_file hg
    simp only [Ledger.effect_data]
    grind

/-- What a stage whose input is redirected leaves of the input supplied. -/
lemma rest_of_redirected {copied : Bool} (hplanned : σ.Planned os s stage e)
    (hflow : e.flow os port copied s x = some f) {g : FileId}
    (hg : stage.redirects.stdin = some g) : f.rest = x := by
  obtain ⟨w, hw⟩ := Element.exists_wiring hflow
  obtain ⟨data, hdata, -⟩ := (hplanned.wired w hw).exists_holdsInput hg
  cases e with
  | simple c =>
    have hw' : Wiring.none.openAll os s c.redirects = some w := hw
    simp only [Element.flow, SimpleCommand.flow, hw', hdata] at hflow
    split at hflow
    · split at hflow <;> cases hflow <;> rfl
    · split at hflow <;> cases hflow
      rfl
    · cases hflow
      rfl
    · cases hflow
  | subshell body =>
    cases hw
    cases hdata
  | group body =>
    cases hw
    cases hdata

/-- The first of several stages writes into a pipe. -/
lemma Supplied.serves_pipe {p : PipeId}
    (h : Supplied os n s streams port σ stages es (p :: pipes) input x) :
    σ.Serves { fromPipe streams input with stdout := .pipe p } x ⟨none, port.err⟩ :=
  have hp := h.pipes_fresh p (by simp)
  { tidy := h.serves.tidy
    stdin := h.serves.stdin
    stdout_below := hp.lt
    stdout_writes := hp.writes
    stdout_unwritten := hp.unwritten
    stdout_refused := hp.refused
    stderr_below := h.serves.stderr_below
    stderr_writes := h.serves.stderr_writes
    stderr_refused := h.serves.stderr_refused }

/-- Where a stage reads from: neither from the pipes behind it nor from the files of others. -/
lemma Supplied.stdin_ne (h : Supplied os n s streams port σ (stage :: stages) (e :: es) pipes input
      x) (stdout : Sink) :
    (∀ p ∈ pipes, (stage.redirects.apply { fromPipe streams input with stdout }).stdin.duct ≠
        .pipe p) ∧
      ∀ g ∈ Stage.inputs stages,
        (stage.redirects.apply { fromPipe streams input with stdout }).stdin.duct ≠ .file g := by
  have hnodup := h.files_nodup
  have hfiles := h.files
  cases hredirect : stage.redirects.stdin with
  | none =>
    have hsame : (stage.redirects.apply { fromPipe streams input with stdout }).stdin =
        (fromPipe streams input).stdin := by
      simp [Redirections.apply, hredirect]
    rw [hsame]
    refine ⟨fun p hp heq => h.stdin_pipe p heq hp, fun g hg heq => ?_⟩
    have hle := hfiles g (by simpa [Stage.inputs, hredirect] using hg)
    exact Nat.not_lt.2 hle (h.stdin_file g heq)
  | some g₀ =>
    have hfile : (stage.redirects.apply { fromPipe streams input with stdout }).stdin.duct =
        .file g₀ := by
      simp [Redirections.apply, hredirect, Source.duct]
    have hcons : Stage.inputs (stage :: stages) = g₀ :: Stage.inputs stages := by
      simp [Stage.inputs, hredirect]
    rw [hcons, List.nodup_cons] at hnodup
    rw [hfile]
    exact ⟨by simp, fun g hg heq => hnodup.1 (Duct.file.inj heq ▸ hg)⟩

/-- Plans stay as they are while nobody reads from their files. -/
lemma planned_of_keeps (hkeeps : σ.Keeps σ') (htidy : σ'.Tidy)
    (hfiles : ∀ g ∈ Stage.inputs stages, g < σ.next → σ.Unread (.file g) →
      σ'.data (.file g) = σ.data (.file g) ∧ σ'.Unread (.file g))
    (h : List.Forall₂ (σ.Planned os s) stages es) :
    List.Forall₂ (σ'.Planned os s) stages es := by
  induction h with
  | nil => exact .nil
  | @cons stage e stages es hstage _ ih =>
    refine .cons ⟨hstage.action, fun w hw => ?_⟩ (ih fun g hg => hfiles g ?_)
    · refine (hstage.wired w hw).of_keeps hkeeps htidy fun g hg => ?_
      obtain ⟨data, -, hholds⟩ := (hstage.wired w hw).exists_holdsInput hg
      exact hfiles g (by simp [Stage.inputs, hg]) hholds.lt hholds.readable.2.2.1
    · exact ((List.sublist_cons_self stage stages).filterMap _).subset hg

/-- **The stages behind one that has been launched** find the pipe that it has written into, and
all else as it was. -/
lemma Supplied.next {p : PipeId}
    (h : Supplied os n s streams port σ (stage :: stages) (e :: es) (p :: pipes) input x)
    (hstep : Step σ l stage { fromPipe streams input with stdout := .pipe p } f σ' l') :
    Supplied os n s streams port (σ'.closed input (some p)) stages es pipes (some p) f.out := by
  obtain ⟨hpipes, hfiles⟩ := h.stdin_ne (.pipe p)
  have hp := h.pipes_fresh p (by simp)
  have hpn := h.pipes_le p (by simp)
  have hnodup := List.nodup_cons.1 h.pipes_nodup
  obtain ⟨rest, team, r, helpers, -, hstarts, -⟩ := hstep.starts
  generalize hsrc : (stage.redirects.apply { fromPipe streams input with stdout := .pipe p
    }).stdin.duct = src at hpipes hfiles hstarts
  have hlater := hstarts.later
  have htidy : (σ'.closed input (some p)).Tidy := hstarts.tidy.of_companions rfl (Nat.le_refl _)
  have hinput (q : PipeId) (hq : q ∈ p :: pipes) (p' : PipeId) (hp' : p' ∈ input) :
      Duct.pipe q ≠ .pipe p' := by
    rintro ⟨⟩
    refine h.stdin_pipe q ?_ hq
    rw [Option.mem_def.1 hp']
    rfl
  have hn : n ≤ σ.next := Nat.le_trans hpn (Nat.le_of_lt hp.lt)
  have hpipe : p ∈ p :: pipes := by simp
  have hfeeds := hp.feeds hstarts (hpipes p hpipe).symm (hinput p hpipe)
  have hext : Ledger.Extends n (σ.effect src rest (.pipe p) f.out) (σ'.closed input (some p)) :=
    (hlater.mono hn).trans (Ledger.extends_closed h.input_le (by simpa using hpn))
  have hstdout := hstarts.unwritten (h.stdout.mono hn) (h.stdout.ne_pipe hpn)
    h.serves.stdout_unwritten
  have hsub := (List.sublist_cons_self stage stages).filterMap (·.redirects.stdin)
  refine
    { serves := h.serves.next h.stdout h.stderr hext htidy hstdout hfeeds
      stdout := h.stdout
      stderr := h.stderr
      input_le := by simpa using hpn
      stdin_pipe := fun q hq => ?_
      stdin_file := by simp [fromPipe, Source.duct]
      planned := ?_
      files_nodup := h.files_nodup.sublist hsub
      files := fun g hg => h.files g (hsub.subset hg)
      pipes_nodup := hnodup.2
      pipes_le := fun q hq => h.pipes_le q (by simp [hq])
      pipes_fresh := fun q hq => ?_
      length := by simpa using h.length }
  · cases hq
    exact hnodup.1
  · cases h.planned with
    | cons _ hplanned =>
      refine planned_of_keeps (hstarts.keeps _) htidy (fun g hg hlt hold => ⟨?_, ?_⟩) hplanned
      · refine (hlater.data (.file g) hlt).trans ?_
        simp [Ledger.effect_data, Sink.duct, (hfiles g hg).symm]
      · exact hstarts.unread hlt (hfiles g hg).symm hold
  · have hq' : q ∈ p :: pipes := by simp [hq]
    have hne : Duct.pipe q ≠ .pipe p := fun heq => hnodup.1 (Duct.pipe.inj heq ▸ hq)
    exact (h.pipes_fresh q hq').of_starts hstarts (hpipes q hq').symm hne (hinput q hq')

/-- What launching stages leads to. -/
structure Launches (n : Nat) (σ : Ledger) (streams : Streams) (c : Course) (base : List Companion)
    (codes : List Int) (σ' : Ledger) (l : Launched) : Prop where
  later : Ledger.Extends n (σ.effect streams.stdin.duct c.rest streams.stdout.duct c.out) σ'
  tidy : σ'.Tidy
  session : l.session = c.session
  manned : l.Manned base (codes ++ c.codes) σ'

/-- The last stage writes where the pipeline does. -/
lemma launchFrom_last (isolate : Bool) {copied : Bool} {nested : Nested} {base : List Companion}
    {codes : List Int} (h : Supplied os n s streams port σ [stage] [e] [] input x)
    (hn : n ≤ σ.next) (he : e.Adequate os) (hflow : e.flow os port copied s x = some f)
    (hsteady : ∀ sight ∈ f.sights, sight.Steady os)
    (hnested : ∀ body copy, stage.action = .nested body copy → nested = body.run)
    (hl : l.session = s) (hmanned : l.Manned base codes σ) :
    Yields os σ (launchFrom isolate copied nested streams [stage] [] input l) fun σ' l' =>
      Launches n σ (fromPipe streams input) (.ofStage f) base codes σ' l' := by
  obtain ⟨hstage, -⟩ := List.forall₂_cons.1 h.planned
  have hlast : true = false → copied = true := by simp
  refine (launchOne_yields h.serves hstage he hflow hsteady hl hlast (fun _ => hnested)
    isolate).bind fun σ₁ l₁ hstep => ?_
  obtain ⟨left, team, r, helpers, -, hstarts, hstages, hhelpers, hr⟩ := hstep.starts
  refine (Ledger.closeAll_yields hstarts.tidy input none).bind ?_
  rintro _ - rfl
  have htidy : (σ₁.closed input none).Tidy := hstarts.tidy.of_companions rfl (Nat.le_refl _)
  have hlater := hstep.later h.serves hn fun g hg =>
    ⟨h.files g (by simp [Stage.inputs, hg]), rest_of_redirected hstage hflow hg⟩
  exact .pure
    { later := hlater.trans (Ledger.extends_closed h.input_le (by simp))
      tidy := htidy
      session := hstep.session
      manned := hmanned.add hr htidy hstarts.companions hstages hhelpers }

/-- **All stages of a pipeline are launched as their elements mean.**

**Proof sketch.** By induction on the stages.  The last stage writes where the pipeline does.  Any
other stage writes into the next pipe; when its ends have been closed, all that will ever be in the
pipe is there, so it serves the stages behind as input. -/
theorem launchFrom_yields (isolate : Bool) {copied : Bool} {nested : Nested}
    {base : List Companion} {codes : List Int} {c : Course}
    (h : Supplied os n s streams port σ stages es pipes input x) (hn : n ≤ σ.next)
    (hes : ∀ e ∈ es, e.Adequate os) (hflow : Element.flowAll os es port copied s x = some c)
    (hsteady : ∀ sight ∈ c.sights, sight.Steady os) (hcopied : 1 < stages.length → copied = true)
    (hnested : ∀ stage body copy, stages.getLast? = some stage →
      stage.action = .nested body copy → nested = body.run)
    (hl : l.session = s) (hmanned : l.Manned base codes σ) :
    Yields os σ (launchFrom isolate copied nested streams stages pipes input l) fun σ' l' =>
      Launches n σ (fromPipe streams input) c base codes σ' l' := by
  induction stages generalizing σ es pipes input x c codes l with
  | nil =>
    have hlength := h.length
    simp at hlength
  | cons stage rest ih =>
    obtain ⟨e, es', hstage, hrest, rfl⟩ := List.forall₂_cons_left_iff.1 h.planned
    cases rest with
    | nil =>
      cases hrest
      obtain rfl : pipes = [] := by simpa using h.length
      obtain ⟨f, hf, rfl⟩ := Option.map_eq_some_iff.1 hflow
      exact launchFrom_last isolate h hn (hes e (by simp)) hf hsteady
        (fun body copy => hnested stage body copy rfl) hl hmanned
    | cons stage' rest =>
      obtain ⟨p, pipes', rfl⟩ : ∃ p pipes', pipes = p :: pipes' := by
        cases pipes with
        | nil =>
          have hlength := h.length
          simp at hlength
        | cons p pipes' => exact ⟨p, pipes', rfl⟩
      obtain ⟨e', es'', rfl⟩ : ∃ e' es'', es' = e' :: es'' := by
        cases hrest
        exact ⟨_, _, rfl⟩
      simp only [Element.flowAll, Option.bind_eq_bind, Option.bind_eq_some_iff,
        Option.map_eq_some_iff] at hflow
      obtain ⟨f, hf, c', hc', rfl⟩ := hflow
      have hcopied' : copied = true := hcopied (by simp)
      have hsession : f.session = s := Element.flow_session hf (.inl hcopied')
      have hfirst : false = true → ∀ body copy, stage.action = .nested body copy →
          nested = body.run := by simp
      refine (launchOne_yields h.serves_pipe hstage (hes e (by simp)) hf
        (fun sight hsight => hsteady sight (List.mem_append_left _ hsight)) hl (fun _ => hcopied')
        hfirst isolate).bind fun σ₁ l₁ hstep => ?_
      obtain ⟨left, team, r, helpers, -, hstarts, hstages, hhelpers, hr⟩ := hstep.starts
      have hpn := h.pipes_le p (by simp)
      refine (Ledger.closeAll_yields hstarts.tidy input (some p)).bind ?_
      rintro _ - rfl
      have hmanned' : l₁.Manned base (codes ++ [f.code]) (σ₁.closed input (some p)) :=
        hmanned.add hr (hstarts.tidy.of_companions rfl (Nat.le_refl _)) hstarts.companions hstages
          hhelpers
      have hrest := ih (h.next hstep) (Nat.le_trans hn hstarts.later.next)
        (fun e he => hes e (by simp [he])) hc'
        (fun sight hsight => hsteady sight (List.mem_append_right _ hsight)) (fun _ => hcopied')
        (fun last body copy hlast => hnested last body copy (by simpa using hlast))
        (hstep.session.trans hsession) hmanned'
      refine hrest.mono fun σ₂ l₂ hlaunches => ?_
      have hclosed : Ledger.Extends n σ₁ (σ₁.closed input (some p)) :=
        Ledger.extends_closed h.input_le (by simpa using hpn)
      have hlater := (hstep.later h.serves_pipe hn fun g hg =>
        ⟨h.files g (by simp [Stage.inputs, hg]), rest_of_redirected hstage hf hg⟩).trans hclosed
      exact
        { later := (hlater.through hpn h.stdout c'.rest c'.out).trans hlaunches.later
          tidy := hlaunches.tidy
          session := hlaunches.session
          manned := List.append_assoc codes [f.code] c'.codes ▸ hlaunches.manned }

end All

/-! ## Whole pipelines -/

section Launch

variable {os : Ideal} {s : Session} {streams : Streams} {port : Port} {σ σ' : Ledger} {x : Octets}

/-- Pipes that nobody has used. -/
lemma makePipes_yields (h : σ.Tidy) (k : Nat) :
    Yields os σ (makePipes k) fun σ' pipes => pipes.length = k ∧ pipes.Nodup ∧ σ.Opens σ' ∧
      ∀ p ∈ pipes, σ.next ≤ p ∧ σ'.FreshPipe p := by
  induction k generalizing σ with
  | zero => exact .pure ⟨rfl, List.nodup_nil, .refl σ, by simp⟩
  | succ k ih =>
    refine .pipe fun p hp => ?_
    have hopens : σ.Opens (σ.openPipe p) := ⟨Ledger.extends_openPipe hp, rfl⟩
    refine (ih (hopens.tidy h)).bind ?_
    rintro σ' pipes ⟨hlength, hnodup, hopens', hpipes⟩
    have hnotMem : p ∉ pipes := fun hmem => Nat.not_lt.2 (hpipes p hmem).1 (Nat.lt_succ_self p)
    refine .pure ⟨by simp [hlength], List.nodup_cons.2 ⟨hnotMem, hnodup⟩, hopens.trans hopens', ?_⟩
    intro q hq
    rcases List.mem_cons.1 hq with rfl | hq
    · exact ⟨hp, (Ledger.freshPipe_openPipe h hp).of_opens hopens'⟩
    · exact ⟨Nat.le_trans (Nat.le_succ_of_le hp) (hpipes q hq).1, (hpipes q hq).2⟩

/-- Streams serve as they did when files and pipes have been opened. -/
lemma serves_of_opens (h : σ.Serves streams x port) (hopens : σ.Opens σ') :
    σ'.Serves streams x port where
  tidy := hopens.tidy h.tidy
  stdin := by
    rcases h.stdin with htext | ⟨hbelow, hreadable, hdata⟩
    · exact .inl htext
    · refine .inr ⟨hbelow.mono hopens.later.next, ⟨?_, ?_, ?_, ?_⟩, ?_⟩
      · exact (hopens.later.reads _ hbelow).trans hreadable.1
      · exact (hopens.later.writes _ hbelow).trans hreadable.2.1
      · exact fun k hk => hreadable.2.2.1 k (hopens.companions ▸ hk)
      · exact (hopens.tidy h.tidy).settled _
      · exact (hopens.later.data _ hbelow).trans hdata
  stdout_below := h.stdout_below.mono hopens.later.next
  stdout_writes := (hopens.later.writes _ h.stdout_below).trans h.stdout_writes
  stdout_unwritten k hk := h.stdout_unwritten k (hopens.companions ▸ hk)
  stdout_refused := (hopens.later.refused _ h.stdout_below).trans h.stdout_refused
  stderr_below := h.stderr_below.mono hopens.later.next
  stderr_writes := (hopens.later.writes _ h.stderr_below).trans h.stderr_writes
  stderr_refused := (hopens.later.refused _ h.stderr_below).trans h.stderr_refused

/-- What the stages of a pipeline find when its files and pipes have been opened. -/
lemma supplied_of_opens {stages : List Stage} {es : List Element} {pipes : List PipeId}
    (h : σ.Serves streams x port) (hopens : σ.Opens σ')
    (hplanned : List.Forall₂ (σ'.Planned os s) stages es)
    (hnodup : (Stage.inputs stages).Nodup) (hfiles : ∀ f ∈ Stage.inputs stages, σ.next ≤ f)
    (hpipes : pipes.Nodup) (hfresh : ∀ p ∈ pipes, σ.next ≤ p ∧ σ'.FreshPipe p)
    (hlength : stages.length = pipes.length + 1) :
    Supplied os σ.next s streams port σ' stages es pipes none x where
  serves := serves_of_opens h hopens
  stdout := h.stdout_below
  stderr := h.stderr_below
  input_le := by simp
  stdin_pipe p hp hmem := by
    rcases h.stdin with ⟨t, ht, -⟩ | ⟨hbelow, -, -⟩
    · cases (congrArg Source.duct ht).symm.trans hp
    · have hbelow' : (Duct.pipe p).Below σ.next := hp ▸ hbelow
      exact Nat.not_lt.2 (hfresh p hmem).1 hbelow'
  stdin_file f hf := by
    rcases h.stdin with ⟨t, ht, -⟩ | ⟨hbelow, -, -⟩
    · cases (congrArg Source.duct ht).symm.trans hf
    · have hbelow' : (Duct.file f).Below σ.next := hf ▸ hbelow
      exact hbelow'
  planned := hplanned
  files_nodup := hnodup
  files := hfiles
  pipes_nodup := hpipes
  pipes_le p hp := (hfresh p hp).1
  pipes_fresh p hp := (hfresh p hp).2
  length := hlength

/-- Nobody runs for a pipeline that is not launched yet. -/
lemma manned_nil {base : List Companion} (h : σ.companions = base) (s : Session) :
    Launched.Manned ⟨[], [], none, s⟩ base [] σ where
  team := ⟨[], by simp [h], by simp [Launched.runners, Launched.pids, Helper.threads]⟩
  pids := List.nodup_nil
  helpers := List.nodup_nil
  threads := by simp
  codes := .nil

/-- **A pipeline whose stages have been planned is launched as its elements mean.**  The ledger
`σ` is the one in front of the plan. -/
theorem launch_yields (isolate : Bool) {nested : Nested} {stages : List Stage} {es : List Element}
    {c : Course} (h : σ.Serves streams x port) (hopens : σ.Opens σ')
    (hplanned : List.Forall₂ (σ'.Planned os s) stages es) (hsome : stages ≠ [])
    (hnodup : (Stage.inputs stages).Nodup) (hfiles : ∀ f ∈ Stage.inputs stages, σ.next ≤ f)
    (hes : ∀ e ∈ es, e.Adequate os)
    (hflow : Element.flowAll os es port (1 < stages.length) s x = some c)
    (hsteady : ∀ sight ∈ c.sights, sight.Steady os)
    (hnested : ∀ stage body copy, stages.getLast? = some stage →
      stage.action = .nested body copy → nested = body.run) :
    Yields os σ' (launch isolate nested stages streams s) fun σ'' l =>
      Launches σ.next σ streams c σ.companions [] σ'' l := by
  have htidy := hopens.tidy h.tidy
  refine (makePipes_yields htidy (stages.length - 1)).bind ?_
  rintro τ pipes ⟨hlength, hpipes, hopens', hfresh⟩
  have hopens'' := hopens.trans hopens'
  have hplanned' : List.Forall₂ (τ.Planned os s) stages es := hplanned.imp fun _ _ hstage =>
    ⟨hstage.action, fun w hw => hopens'.wired htidy (hstage.wired w hw)⟩
  have hfresh' (p : PipeId) (hp : p ∈ pipes) : σ.next ≤ p ∧ τ.FreshPipe p :=
    ⟨Nat.le_trans hopens.later.next (hfresh p hp).1, (hfresh p hp).2⟩
  have hlength' : stages.length = pipes.length + 1 := by
    have hpos := List.length_pos_of_ne_nil hsome
    omega
  have hsupplied := supplied_of_opens h hopens'' hplanned' hnodup hfiles hpipes hfresh' hlength'
  refine (launchFrom_yields isolate hsupplied hopens''.later.next hes hflow hsteady
    (by simp) hnested rfl (manned_nil hopens''.companions s)).mono fun σ₁ l hlaunches => ?_
  have hlater := (hopens''.later.effect streams.stdin.duct c.rest h.stdout_below c.out).trans
    hlaunches.later
  exact ⟨hlater, hlaunches.tidy, hlaunches.session, hlaunches.manned⟩

end Launch

end Pipeline

end Conch
