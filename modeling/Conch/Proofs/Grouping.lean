import Conch.Proofs.Adequacy

/-!
# Groups around stages of a pipeline

A pipeline composes its stages, so it does not matter how they are bracketed: if runs of stages
that stand side by side are put into groups, the pipeline writes the same and has the same status,
with and without `pipefail`.

This is so as long as what the shell finds in the file tree does not depend on when it looks: the
files behind all redirections of a pipeline are opened before its first stage starts, but those
of a group are opened when the group runs.  It also takes a session that has not been asked to
exit, since every group ends with the status that has been asked for.

## Main definitions

* `Element.grouped` — a run of stages as a group.
* `Element.Regroups` — some runs of stages have been put into groups.
* `Pipeline.Delivers` — a pipeline comes to an end with this status and this output.

## Main results

* `Element.Regroups.alike` — stages and groups of them come to the same.
* `Pipeline.regroup_delivers` — a pipeline and its regroupings deliver the same.
* `Pipeline.regroup_differs` — not so if a stage opens a file that another one has made.
-/

set_option autoImplicit false

namespace Conch

open Act (Yields)
open Text (Octets)

/-! ## Statuses -/

namespace Pipeline

/-- Without `pipefail` the last stages decide the status; with `pipefail` they do unless all of
them have succeeded. -/
lemma exitCode_append (pipefail : Bool) (front : List Int) {codes : List Int} (h : codes ≠ []) :
    exitCode pipefail (front ++ codes) =
      if pipefail && exitCode pipefail codes = 0 then exitCode pipefail front
      else exitCode pipefail codes := by
  cases pipefail with
  | false => simp [exitCode, List.getLast?_append, List.getLast?_eq_some_getLast h]
  | true =>
    simp only [exitCode, if_true, Bool.true_and, List.filter_append, List.getLast?_append]
    cases hlast : (codes.filter (· ≠ 0)).getLast? with
    | none => simp
    | some code =>
      have hcode : code ≠ 0 := by simpa using (List.mem_filter.1 (List.mem_of_getLast? hlast)).2
      simp [hcode]

end Pipeline

/-! ## Compositions -/

namespace Course

/-- Stages behind others. -/
def append (a b : Course) : Course :=
  ⟨b.out, a.codes ++ b.codes, b.session, a.rest, a.sights ++ b.sights⟩

lemma behind_append (f : Flow) (a b : Course) : behind f (a.append b) = (behind f a).append b := by
  simp [behind, append]

/-- Two pipelines come to the same, except for the session behind them. -/
structure Alike (pipefail : Bool) (a b : Course) : Prop where
  out : b.out = a.out
  status : Pipeline.exitCode pipefail b.codes = Pipeline.exitCode pipefail a.codes
  rest : b.rest = a.rest
  sights : b.sights = a.sights

lemma Alike.refl (pipefail : Bool) (a : Course) : Alike pipefail a a := ⟨rfl, rfl, rfl, rfl⟩

lemma Alike.append {pipefail : Bool} {a a' b b' : Course} (h : Alike pipefail a a')
    (h' : Alike pipefail b b') (hb : b.codes ≠ []) (hb' : b'.codes ≠ []) :
    Alike pipefail (a.append b) (a'.append b') where
  out := h'.out
  status := by
    simp only [Course.append, Pipeline.exitCode_append pipefail _ hb,
      Pipeline.exitCode_append pipefail _ hb', h.status, h'.status]
  rest := h.rest
  sights := by simp only [Course.append, h.sights, h'.sights]

end Course

namespace Element

variable {os : Ideal} {s : Session} {port : Port} {copied : Bool} {input : Octets}

lemma codes_ne_nil {es : List Element} (hes : es ≠ []) {a : Course}
    (h : flowAll os es port copied s input = some a) : a.codes ≠ [] := by
  cases es with
  | nil => exact absurd rfl hes
  | cons e rest =>
    cases rest with
    | nil =>
      obtain ⟨f, -, rfl⟩ := Option.map_eq_some_iff.1 h
      exact List.cons_ne_nil _ _
    | cons second rest =>
      simp only [flowAll, Option.bind_eq_bind, Option.bind_eq_some_iff,
        Option.map_eq_some_iff] at h
      obtain ⟨f, -, b, -, rfl⟩ := h
      exact List.cons_ne_nil _ _

/-- **What stages behind others come to**: these read what the others write. -/
theorem flowAll_append {es es' : List Element} (hes : es ≠ []) (hes' : es' ≠ []) :
    flowAll os (es ++ es') port copied s input =
      (flowAll os es ⟨none, port.err⟩ copied s input).bind fun a =>
        (flowAll os es' port copied s a.out).map a.append := by
  induction es generalizing input with
  | nil => exact absurd rfl hes
  | cons e rest ih =>
    cases rest with
    | nil =>
      obtain ⟨first, rest', rfl⟩ := List.exists_cons_of_ne_nil hes'
      simp only [List.cons_append, List.nil_append, flowAll, Option.bind_eq_bind]
      cases e.flow os ⟨none, port.err⟩ copied s input <;> rfl
    | cons second rest =>
      simp only [List.cons_append, flowAll, Option.bind_eq_bind] at ih ⊢
      cases e.flow os ⟨none, port.err⟩ copied s input with
      | none => rfl
      | some f =>
        simp only [Option.bind_some, ih (List.cons_ne_nil _ _), Option.bind_map]
        cases flowAll os (second :: rest) ⟨none, port.err⟩ copied s f.out with
        | none => rfl
        | some a =>
          simp only [Option.bind_some, Function.comp_apply, Option.map_map]
          exact congrArg (Option.map · _) (funext fun b => Course.behind_append f a b)

/-- Whether an element works on a copy makes a difference to the session only. -/
lemma flow_copied (e : Element) :
    e.flow os port true s input =
      (e.flow os port false s input).map ({ · with session := s }) := by
  cases e with
  | simple c =>
    simp only [flow, SimpleCommand.flow]
    cases Wiring.none.openAll os s c.redirects with
    | none => rfl
    | some w =>
      cases c.action s os.view with
      | program argv vars => dsimp only; split <;> rfl
      | builtin b argv => dsimp only; split <;> rfl
      | assign vars => rfl
      | nested body copy => rfl
  | subshell body =>
    simp only [flow, Option.map_map]
    rfl
  | group body =>
    simp only [flow, Option.map_map]
    rfl

end Element

/-! ## Groups -/

namespace Ledger

/-- A ledger that has three pipes for a command: one that holds its input, and two for its
outputs. -/
def fresh (input : Octets) (port : Port) : Ledger where
  data c := if c = .pipe 0 then input else ""
  refused c := if c = .pipe 1 then port.out else if c = .pipe 2 then port.err else none
  reads c := c = .pipe 0
  writes c := c = .pipe 1
  companions := []
  results := []
  next := 3

/-- The pipes of `Ledger.fresh`. -/
def freshStreams : Streams := ⟨.pipe 0, .pipe 1, .pipe 2⟩

lemma serves_fresh (input : Octets) (port : Port) :
    (fresh input port).Serves freshStreams input port where
  tidy := ⟨by simp [fresh], by simp [fresh], by simp [fresh], by simp [fresh]⟩
  stdin := by
    refine .inr ⟨?_, ⟨?_, ?_, ?_, ?_⟩, ?_⟩ <;>
      simp [freshStreams, Source.duct, Duct.Below, fresh, Unread, Settled]
  stdout_below := by simp [freshStreams, Sink.duct, Duct.Below, fresh]
  stdout_writes := by simp [freshStreams, Sink.duct, fresh]
  stdout_unwritten := by simp [Unwritten, fresh]
  stdout_refused := by simp [freshStreams, Sink.duct, fresh]
  stderr_below := by simp [freshStreams, Sink.duct, Duct.Below, fresh]
  stderr_writes := by simp [freshStreams, Sink.duct, fresh]
  stderr_refused := by simp [freshStreams, Sink.duct, fresh]

end Ledger

/-- A run of stages as a group. -/
def Element.grouped (run : List Element) : Element := .group ⟨[⟨⟨run, false⟩, []⟩]⟩

section Groups

variable {os : Ideal} {s : Session} {port : Port} {input : Octets}

/-- A pipeline means a status that agrees with what its session asks for: so does every run of it,
and in some system it runs. -/
lemma Pipeline.exits_of_flow {p : Pipeline} {f : Flow} (h : p.flow os port s input = some f)
    (hsteady : ∀ sight ∈ f.sights, sight.Steady os) (hs : s.exitRequested = none) :
    f.session.Exits f.code := by
  have hyields := Pipeline.adequate os p h hsteady (Ledger.serves_fresh input port)
  obtain ⟨tr, _, -, hruns, rfl, -⟩ := hyields.exists_runs
  exact Pipeline.run_exits _ p s hs tr _ hruns

/-- Stages are a pipeline of their own. -/
lemma Pipeline.exists_flow_of_flowAll {run : List Element} (hrun : run ≠ []) {a : Course}
    (h : Element.flowAll os run port true s input = some a) :
    ∃ session, Pipeline.flow os ⟨run, false⟩ port s input =
      some ⟨a.out, exitCode s.pipefail a.codes, session, a.rest, a.sights⟩ := by
  obtain ⟨e, rest, rfl⟩ := List.exists_cons_of_ne_nil hrun
  cases rest with
  | nil =>
    -- a single stage works on the session itself
    obtain ⟨f, hf, rfl⟩ := Option.map_eq_some_iff.1 h
    rw [Element.flow_copied] at hf
    obtain ⟨g, hg, rfl⟩ := Option.map_eq_some_iff.1 hf
    exact ⟨g.session, by simp [flow, Element.flowAll, hg, Course.ofStage]⟩
  | cons second rest => exact ⟨a.session, by simp [flow, h]⟩

/-- A group of stages has the output and the status of these stages. -/
lemma Element.exists_flow_grouped {run : List Element} (hrun : run ≠ []) {a : Course}
    (h : Element.flowAll os run port true s input = some a)
    (hsteady : ∀ sight ∈ a.sights, sight.Steady os) (hs : s.exitRequested = none)
    (copied : Bool) :
    ∃ session, (grouped run).flow os port copied s input =
      some ⟨a.out, Pipeline.exitCode s.pipefail a.codes, session, a.rest, a.sights⟩ := by
  obtain ⟨session, hflow⟩ := Pipeline.exists_flow_of_flowAll hrun h
  have hexits : session.Exits (Pipeline.exitCode s.pipefail a.codes) :=
    Pipeline.exits_of_flow hflow hsteady hs
  refine ⟨if copied then s else { session with status := Pipeline.exitCode s.pipefail a.codes }, ?_⟩
  simp only [grouped, flow, Command.flow, Block.flowAll, Block.flow, Link.flowAll, hflow,
    Option.bind_eq_bind, Option.bind_some, Option.map_some, Flow.andThen, String.append_empty,
    List.append_nil]
  rcases hexits with hnone | hcode
  · simp [hnone]
  · simp [hcode]

end Groups

namespace Element

/-- Some runs of stages that stand side by side have been put into groups. -/
inductive Regroups : List Element → List Element → Prop where
  | nil : Regroups [] []
  | keep (e : Element) {es es' : List Element} : Regroups es es' → Regroups (e :: es) (e :: es')
  | group {run es es' : List Element} : run ≠ [] → Regroups es es' →
      Regroups (run ++ es) (grouped run :: es')

lemma Regroups.eq_nil_iff {es es' : List Element} (h : Regroups es es') : es = [] ↔ es' = [] := by
  cases h with
  | nil => simp
  | keep => simp
  | group hrun => simp [hrun]

variable {os : Ideal} {s : Session}

/-- Whatever some elements come to as stages of a pipeline, others come to as well. -/
def Alike (os : Ideal) (s : Session) (es es' : List Element) : Prop :=
  ∀ (port : Port) (input : Octets) (a : Course), flowAll os es port true s input = some a →
    (∀ sight ∈ a.sights, sight.Steady os) →
    ∃ a', flowAll os es' port true s input = some a' ∧ a.Alike s.pipefail a'

lemma Alike.refl (es : List Element) : Alike os s es es := fun _ _ a h _ => ⟨a, h, .refl _ _⟩

lemma Alike.append {es es' more more' : List Element} (h : Alike os s es es')
    (hmore : Alike os s more more') (hes : es ≠ []) (hes' : es' ≠ []) (hsome : more ≠ [])
    (hsome' : more' ≠ []) : Alike os s (es ++ more) (es' ++ more') := by
  intro port input c hc hsteady
  rw [flowAll_append hes hsome] at hc
  obtain ⟨a, ha, hc⟩ := Option.bind_eq_some_iff.1 hc
  obtain ⟨b, hb, rfl⟩ := Option.map_eq_some_iff.1 hc
  obtain ⟨a', ha', halike⟩ :=
    h _ _ a ha fun sight hsight => hsteady sight (List.mem_append_left _ hsight)
  obtain ⟨b', hb', halike'⟩ :=
    hmore _ _ b hb fun sight hsight => hsteady sight (List.mem_append_right _ hsight)
  refine ⟨a'.append b', ?_, halike.append halike' (codes_ne_nil hsome hb) (codes_ne_nil hsome' hb')⟩
  rw [flowAll_append hes' hsome', ha', Option.bind_some, halike.out, hb', Option.map_some]

lemma alike_grouped {run : List Element} (hrun : run ≠ []) (hs : s.exitRequested = none) :
    Alike os s run [grouped run] := by
  intro port input a ha hsteady
  obtain ⟨session, hflow⟩ := exists_flow_grouped hrun ha hsteady hs true
  refine ⟨.ofStage _, by rw [flowAll, hflow]; rfl, ⟨rfl, ?_, rfl, rfl⟩⟩
  exact Pipeline.exitCode_singleton _ _

/-- **Stages and groups of them come to the same.**

**Proof sketch.** Induction on the groups from the front.  A group means what its stages mean
(`alike_grouped`), and what stands behind reads the same input (`Alike.append`). -/
theorem Regroups.alike {es es' : List Element} (h : Regroups es es')
    (hs : s.exitRequested = none) : Alike os s es es' := by
  induction h with
  | nil => exact Alike.refl []
  | @keep e es es' hrest ih =>
    by_cases hes : es = []
    · cases hes
      cases hrest.eq_nil_iff.1 rfl
      exact Alike.refl [e]
    · exact (Alike.refl [e]).append ih (by simp) (by simp) hes (mt hrest.eq_nil_iff.2 hes)
  | @group run es es' hrun hrest ih =>
    by_cases hes : es = []
    · cases hes
      cases hrest.eq_nil_iff.1 rfl
      simpa using alike_grouped hrun hs
    · exact (alike_grouped hrun hs).append ih hrun (by simp) hes (mt hrest.eq_nil_iff.2 hes)

end Element

/-! ## Pipelines -/

namespace Pipeline

variable {os : Ideal} {σ : Ledger} {streams : Streams} {s : Session} {input : Octets} {port : Port}
  {f : Flow}

/-- A pipeline and its regroupings mean the same, except for the session behind them. -/
lemma exists_flow_regroup {es es' : List Element} (hlen : 2 ≤ es.length)
    (hregroups : Element.Regroups es es') (hs : s.exitRequested = none)
    (hflow : Pipeline.flow os ⟨es, false⟩ port s input = some f)
    (hsteady : ∀ sight ∈ f.sights, sight.Steady os) :
    ∃ session, Pipeline.flow os ⟨es', false⟩ port s input = some { f with session } := by
  have hcopied : decide (1 < es.length) = true := decide_eq_true hlen
  have hsome : es ≠ [] := by
    rintro rfl
    simp at hlen
  simp only [flow, Bool.false_eq_true, if_false, hcopied, Option.map_eq_some_iff] at hflow
  obtain ⟨a, ha, rfl⟩ := hflow
  obtain ⟨a', ha', halike⟩ := hregroups.alike hs port input a ha hsteady
  obtain ⟨session, hflow'⟩ := exists_flow_of_flowAll (mt hregroups.eq_nil_iff.2 hsome) ha'
  exact ⟨session, by rw [hflow', halike.out, halike.status, halike.rest, halike.sights]⟩

/-- However the system answers, the pipeline comes to an end with this status, and has written this
to its standard output. -/
def Delivers (os : Ideal) (σ : Ledger) (p : Pipeline) (streams : Streams) (s : Session) (code : Int)
    (out : Octets) : Prop :=
  Yields os σ (p.run streams s) fun σ' r =>
    r.1 = code ∧ σ'.data streams.stdout.duct = σ.data streams.stdout.duct ++ out

lemma delivers_of_flow {p : Pipeline} (hflow : p.flow os port s input = some f)
    (hsteady : ∀ sight ∈ f.sights, sight.Steady os) (h : σ.Serves streams input port) :
    p.Delivers os σ streams s f.code f.out := by
  refine (Pipeline.adequate os p hflow hsteady h).mono ?_
  rintro σ' _ ⟨rfl, hfollows⟩
  refine ⟨rfl, (hfollows.later.data _ h.stdout_below).trans ?_⟩
  simp [Ledger.effect_data, h.stdin_ne.symm]

/-- **It does not matter how the stages of a pipeline are grouped.**  In an ideal system let a
pipeline of at least two stages mean something, and let nothing that it looks at change; then the
pipeline and each of its regroupings come to an end, with the same status and the same output.

**Proof sketch.** Both do what they mean (`Pipeline.adequate`), and they mean the same
(`exists_flow_regroup`). -/
theorem regroup_delivers {es es' : List Element} (hlen : 2 ≤ es.length)
    (hregroups : Element.Regroups es es') (hs : s.exitRequested = none)
    (hflow : Pipeline.flow os ⟨es, false⟩ port s input = some f)
    (hsteady : ∀ sight ∈ f.sights, sight.Steady os) (h : σ.Serves streams input port) :
    Delivers os σ ⟨es, false⟩ streams s f.code f.out ∧
      Delivers os σ ⟨es', false⟩ streams s f.code f.out := by
  obtain ⟨session, hflow'⟩ := exists_flow_regroup hlen hregroups hs hflow hsteady
  exact ⟨delivers_of_flow hflow hsteady h,
    delivers_of_flow (f := { f with session }) hflow' hsteady h⟩

/-! ### A pipeline in an ideal system -/

/-- A simple command without redirections. -/
def plain (words : List String) : Element := .simple ⟨words, [], false⟩

/-- A system in which every program copies its input, as `cat` does. -/
def copying : Ideal where
  program _ _ _ := .ok fun input => ⟨[(.out, input)], 0⟩
  input _ := .error (.os .noEntry)
  output _ _ := .ok none
  Sees v := v.self = (default : View).self
  view := default
  sees_view := rfl
  self_eq _ h := h

/-- With `pipefail`, `false | echo hi | cat` fails and prints `hi`; so does
`{ false | echo hi; } | cat`. -/
theorem regroup_delivers_pipefail :
    let s := { (default : Session) with pipefail := true }
    let σ := Ledger.fresh "" ⟨none, none⟩
    let es := [plain ["false"], plain ["echo", "hi"], plain ["cat"]]
    let es' := [.grouped [plain ["false"], plain ["echo", "hi"]], plain ["cat"]]
    (Element.Regroups es es' ∧ σ.Serves Ledger.freshStreams "" ⟨none, none⟩ ∧
      ∃ f, flow copying ⟨es, false⟩ ⟨none, none⟩ s "" = some f ∧
        ∀ sight ∈ f.sights, sight.Steady copying) ∧
    Delivers copying σ ⟨es, false⟩ Ledger.freshStreams s 1 "hi\n" ∧
      Delivers copying σ ⟨es', false⟩ Ledger.freshStreams s 1 "hi\n" := by
  intro s σ es es'
  have hflow : flow copying ⟨es, false⟩ ⟨none, none⟩ s "" =
      some ⟨Octets.ofText "hi\n" ++ "" ++ "", 1, s, "", [.word "false", .builtin .fail [] s,
        .word "echo", .word "hi", .builtin .echo ["hi"] s, .word "cat"]⟩ := rfl
  have hout : Octets.ofText "hi\n" ++ "" ++ "" = "hi\n" := by simp [Octets.ofText, Octets.isAscii]
  rw [hout] at hflow
  have hregroups : Element.Regroups ([plain ["false"], plain ["echo", "hi"]] ++ [plain ["cat"]])
      es' := .group (List.cons_ne_nil _ _) (.keep _ .nil)
  have hserves := Ledger.serves_fresh "" ⟨none, none⟩
  have hsteady : ∀ sight ∈ [.word "false", .builtin .fail [] s, .word "echo", .word "hi",
      .builtin .echo ["hi"] s, .word "cat"], Sight.Steady copying sight := by
    simp only [List.forall_mem_cons]
    exact ⟨fun _ _ => rfl, fun _ _ => rfl, fun _ _ => rfl, fun _ _ => rfl, fun _ _ => rfl,
      fun _ _ => rfl, List.forall_mem_nil _⟩
  exact ⟨⟨hregroups, hserves, _, hflow, hsteady⟩,
    regroup_delivers (by decide) hregroups rfl hflow hsteady hserves⟩

/-! ### Pipelines for which groups matter -/

/-- A system with a single file, which is there once it has been opened for writing.  Threads
succeed. -/
def making : Act.Answers
  | _, .view => some default
  | past, .openOutput .. => some (.ok past.length)
  | past, .openInput _ =>
    if past.any fun x => x.1 matches .openOutput .. then some (.ok past.length)
    else some (.error (.os .noEntry))
  | past, .pipe => some past.length
  | past, .fork _ => some past.length
  | _, .close _ => some ()
  | _, .join _ => some ()
  | _, .result _ => some (some 0)
  | _, .write .. => some (.ok ())
  | _, .job (.seize _ pids) => some ⟨none, pids, true⟩
  | _, .job (.yieldBack _) => some ()
  | _, _ => none

/-- `true > f`. -/
def makes : Element := .simple ⟨["true"], [⟨.output, "f"⟩], false⟩

/-- `true < f`. -/
def takes : Element := .simple ⟨["true"], [⟨.input, "f"⟩], false⟩

/-- The status of some stages in the system `making`. -/
def statusOf (s : Session) (es : List Element) : Option Int :=
  (((mk es false).run .inherit s).play making []).2.map Prod.fst

/-- **Groups matter where one stage makes a file that another one takes**: `true > f | true < f`
succeeds, since its redirections are opened in this order, but `{ true > f; } | true < f` fails,
since the file of the group is opened later.  They also matter behind a request to exit with some
status: `true | true` succeeds, but `true | { true; }` has the status that was asked for. -/
theorem regroup_differs :
    (Element.Regroups [makes, takes] [.grouped [makes], takes] ∧
      (∃ stages, ((Element.planAll default [makes, takes]).play making []).2 = some (.ok stages)) ∧
      statusOf default [makes, takes] = some 0 ∧
      statusOf default [.grouped [makes], takes] = some 1) ∧
    let s := { (default : Session) with exitRequested := some 3 }
    Element.Regroups [plain ["true"], plain ["true"]] [plain ["true"], .grouped [plain ["true"]]] ∧
      statusOf s [plain ["true"], plain ["true"]] = some 0 ∧
      statusOf s [plain ["true"], .grouped [plain ["true"]]] = some 3 := by
  have hfront : Element.Regroups ([makes] ++ [takes]) [.grouped [makes], takes] :=
    .group (List.cons_ne_nil _ _) (.keep _ .nil)
  have hback : Element.Regroups ([plain ["true"]] ++ []) [.grouped [plain ["true"]]] :=
    .group (List.cons_ne_nil _ _) .nil
  exact ⟨⟨hfront, ⟨_, rfl⟩, rfl, rfl⟩, .keep _ hback, rfl, rfl⟩

end Pipeline

end Conch
