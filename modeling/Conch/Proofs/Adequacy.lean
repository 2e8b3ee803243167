import Conch.Proofs.Launching

/-!
# Commands do what they mean

In an ideal system a command that is given streams comes to an end with the status, the session and
the output that it means, however the system answers, whatever the numbers are that it gives out,
and whatever goes to the standard error.

## Main results

* `Pipeline.adequate_of_elements` — a pipeline does what it means if its nested commands do.
* `Command.adequate`, `Pipeline.adequate` — commands and pipelines do what they mean.
-/

set_option autoImplicit false

namespace Conch

open Act (Yields)
open Text (Octets)

/-! ## One command behind another -/

namespace Ledger

variable {σ σ' σ'' : Ledger} {streams : Streams} {input : Octets} {port : Port} {f g : Flow}

/-- A command that neither reads nor writes has no effect. -/
lemma Serves.extends_of_idle (h : σ.Serves streams input port) :
    Extends σ.next (σ.effect streams.stdin.duct input streams.stdout.duct "") σ := by
  obtain ⟨rest, hrest, hleft⟩ := h.exists_left .none
  have hidle := extends_enter hleft h.stdout_below ""
  rwa [Redirections.apply_none, hrest rfl, enter_empty] at hidle

/-- Streams that serve a command serve the next one with what it has left. -/
lemma Serves.follows (h : σ.Serves streams input port) (hstdin : ∀ t, streams.stdin ≠ .text t)
    (hf : σ.Follows streams f σ') : σ'.Serves streams f.rest port := by
  have htidy := h.tidy.of_companions hf.companions hf.later.next
  have hunwritten : σ'.Unwritten streams.stdout.duct := fun k hk =>
    h.stdout_unwritten k (hf.companions ▸ hk)
  refine h.next h.stdout_below h.stderr_below hf.later htidy hunwritten ?_
  rcases h.stdin with ⟨t, ht, -⟩ | ⟨hbelow, hreadable, -⟩
  · exact absurd ht (hstdin t)
  · refine .inr ⟨hbelow.mono hf.later.next, ⟨?_, ?_, ?_, htidy.settled _⟩, ?_⟩
    · exact (hf.later.reads _ hbelow).trans hreadable.1
    · exact (hf.later.writes _ hbelow).trans hreadable.2.1
    · exact fun k hk => hreadable.2.2.1 k (hf.companions ▸ hk)
    · refine (hf.later.data _ hbelow).trans ?_
      simp [effect_data, h.stdin_ne]

/-- What one command behind another comes to. -/
lemma Follows.andThen (h : σ.Serves streams input port) (hf : σ.Follows streams f σ')
    (hg : σ'.Follows streams g σ'') : σ.Follows streams (f.andThen g) σ'' where
  later := by
    have heffect := hf.later.effect streams.stdin.duct g.rest h.stdout_below g.out
    rw [effect_effect h.stdin_ne] at heffect
    exact heffect.trans (hg.later.mono hf.later.next)
  companions := hg.companions.trans hf.companions

end Ledger

/-! ## Pipelines -/

/-- A pipeline does what it means.  It may also read a given text. -/
def Pipeline.Adequate (os : Ideal) (p : Pipeline) : Prop :=
  ∀ {σ : Ledger} {streams : Streams} {s : Session} {input : Octets} {port : Port} {f : Flow},
    p.flow os port s input = some f → (∀ sight ∈ f.sights, sight.Steady os) →
    σ.Serves streams input port →
    Yields os σ (p.run streams s) fun σ' r => r = (f.code, f.session) ∧ σ.Follows streams f σ'

/-- The last element of a pipeline, if it is a group or a subshell, is what runs as its body. -/
lemma Element.runLast_eq {os : Ideal} {s : Session} {es : List Element} {e : Element}
    (he : es.getLast? = some e) {body : Command} {copy : Bool}
    (haction : e.action os s = .nested body copy) : Element.runLast es = body.run := by
  induction es with
  | nil => simp at he
  | cons first rest ih =>
    cases rest with
    | nil =>
      obtain rfl : first = e := by simpa using he
      funext streams s'
      cases first with
      | simple c =>
        simp only [action, SimpleCommand.action] at haction
        split at haction
        · cases haction
        · split at haction <;> cases haction
      | subshell body' =>
        cases haction
        rfl
      | group body' =>
        cases haction
        rfl
    | cons second rest =>
      have hrest := ih (by simpa using he)
      funext streams s'
      simp only [runLast]
      rw [hrest]

/-- The elements of a pipeline that means something mean something. -/
lemma Element.flow_of_flowAll {os : Ideal} {es : List Element} {port : Port} {copied : Bool}
    {s : Session} {input : Octets} {c : Course}
    (h : Element.flowAll os es port copied s input = some c) {e : Element} (he : e ∈ es) :
    ∃ port' input' f, e.flow os port' copied s input' = some f ∧ f.sights ⊆ c.sights := by
  induction es generalizing input c with
  | nil => cases he
  | cons first rest ih =>
    cases rest with
    | nil =>
      obtain rfl := List.mem_singleton.1 he
      obtain ⟨f, hf, rfl⟩ := Option.map_eq_some_iff.1 h
      exact ⟨port, input, f, hf, List.Subset.refl _⟩
    | cons second rest =>
      simp only [flowAll, Option.bind_eq_bind, Option.bind_eq_some_iff,
        Option.map_eq_some_iff] at h
      obtain ⟨f, hf, c', hc', rfl⟩ := h
      rcases List.mem_cons.1 he with rfl | he
      · exact ⟨_, input, f, hf, List.subset_append_left _ _⟩
      · obtain ⟨port', input', g, hg, hsub⟩ := ih hc' he
        exact ⟨port', input', g, hg, List.Subset.trans hsub (List.subset_append_right _ _)⟩

namespace Pipeline

variable {os : Ideal} {σ : Ledger} {streams : Streams} {s : Session} {input : Octets} {port : Port}

/-- Holding the foreground pointer is not entered. -/
lemma held_yields {α : Type} {x : Act α} {Q : Ledger → α → Prop} (h : Yields os σ x Q) :
    Yields os σ (held s x) Q := by
  unfold held
  split
  · exact h
  · refine .notices rfl ⟨default⟩ fun hold => ?_
    exact h.bind fun σ' a ha => .notices rfl ⟨()⟩ fun _ => .pure ha

/-- The last stage is that of the last element. -/
lemma exists_last {stages : List Stage} {es : List Element}
    (h : List.Forall₂ (σ.Planned os s) stages es) {stage : Stage}
    (hlast : stages.getLast? = some stage) :
    ∃ e, es.getLast? = some e ∧ σ.Planned os s stage e := by
  induction h with
  | nil => simp at hlast
  | @cons first e rest es hfirst hrest ih =>
    cases hrest with
    | nil =>
      obtain rfl : first = stage := by simpa using hlast
      exact ⟨e, rfl, hfirst⟩
    | cons _ _ =>
      obtain ⟨e', he', hstage⟩ := ih (by simpa using hlast)
      exact ⟨e', by simpa using he', hstage⟩

/-- Stages that have been planned are launched and waited for. -/
lemma runStages_yields (line : String) {σ' : Ledger} {stages : List Stage} {es : List Element}
    {c : Course} (h : σ.Serves streams input port) (hopens : σ.Opens σ')
    (hplanned : List.Forall₂ (σ'.Planned os s) stages es) (hsome : stages ≠ [])
    (hnodup : (Stage.inputs stages).Nodup) (hfiles : ∀ f ∈ Stage.inputs stages, σ.next ≤ f)
    (hes : ∀ e ∈ es, e.Adequate os)
    (hflow : Element.flowAll os es port (1 < es.length) s input = some c)
    (hsteady : ∀ sight ∈ c.sights, sight.Steady os) :
    Yields os σ' (runStages line (Element.runLast es) stages streams s) fun σ'' r =>
      r = (exitCode s.pipefail c.codes, c.session) ∧
        Ledger.Extends σ.next (σ.effect streams.stdin.duct c.rest streams.stdout.duct c.out) σ'' ∧
        σ''.companions = σ.companions := by
  have hnested (stage : Stage) (body : Command) (copy : Bool) (hlast : stages.getLast? = some stage)
      (haction : stage.action = .nested body copy) : Element.runLast es = body.run := by
    obtain ⟨e, he, hstage⟩ := exists_last hplanned hlast
    exact Element.runLast_eq he (hstage.action.symm.trans haction)
  rw [runStages_eq]
  rw [← hplanned.length_eq] at hflow
  refine (launch_yields s.job.isSome h hopens hplanned hsome hnodup hfiles hes hflow hsteady
    hnested).bind fun σ₁ l hlaunches => ?_
  refine (conclude_of_manned line s hlaunches.manned hlaunches.tidy).bind ?_
  rintro σ₂ _ ⟨rfl, hcompanions, hlater⟩
  exact .pure ⟨by rw [hlaunches.session]; rfl, hlaunches.later.trans (hlater _), hcompanions⟩

/-- **A pipeline does what it means if its nested commands do.**

**Proof sketch.** The plan opens what the wirings of the elements say.  Launching the stages has the
effect of all elements together, and waiting for them makes the status of their codes. -/
theorem adequate_of_elements {es : List Element} (hes : ∀ e ∈ es, e.Adequate os)
    (background : Bool) : Pipeline.Adequate os ⟨es, background⟩ := by
  intro σ streams s input port f hflow hsteady h
  cases background with
  | true => cases hflow
  | false =>
  obtain ⟨c, hc, rfl⟩ := Option.map_eq_some_iff.1 hflow
  have hwirings (e : Element) (he : e ∈ es) : ∃ w, e.wiring os s = some w := by
    obtain ⟨_, _, f, hf, -⟩ := Element.flow_of_flowAll hc he
    exact Element.exists_wiring hf
  have hwords (e : Element) (he : e ∈ es) (sight : Sight) (hsight : sight ∈ e.words) :
      sight.Steady os := by
    obtain ⟨_, _, f, hf, hsights⟩ := Element.flow_of_flowAll hc he
    exact hsteady sight (hsights (Element.words_subset hf hsight))
  rw [run_eq]
  refine (Element.planAll_yields hwirings hwords h.tidy).bind ?_
  rintro σ₁ _ ⟨stages, rfl, hplanned, hopens, hnodup, hfiles⟩
  cases stages with
  | nil =>
    cases hplanned
    cases hc
    have hleft := h.extends_of_idle
    exact .pure ⟨by simp [exitCode], hleft.trans hopens.later, hopens.companions⟩
  | cons first rest =>
    have hsome : first :: rest ≠ [] := List.cons_ne_nil _ _
    refine held_yields ((runStages_yields _ h hopens hplanned hsome hnodup hfiles hes hc
      hsteady).mono ?_)
    rintro σ₂ _ ⟨rfl, hlater, hcompanions⟩
    exact ⟨rfl, hlater, hcompanions⟩

end Pipeline

/-! ## Commands -/

/-- Where one command runs behind another, it finds the streams as they were, with what is left of
the input. -/
lemma Act.Yields.andThen {os : Ideal} {σ : Ledger} {streams : Streams} {input : Octets}
    {port : Port} {f g : Flow} (h : σ.Serves streams input port)
    (hstdin : ∀ t, streams.stdin ≠ .text t) {x : Act (Int × Session)}
    (hx : Yields os σ x fun σ' r => r = (f.code, f.session) ∧ σ.Follows streams f σ')
    {next : Int × Session → Act (Int × Session)}
    (hnext : ∀ σ', σ'.Serves streams f.rest port → Yields os σ' (next (f.code, f.session))
      fun σ'' r => r = (g.code, g.session) ∧ σ'.Follows streams g σ'') :
    Yields os σ (x >>= next) fun σ' r =>
      r = ((f.andThen g).code, (f.andThen g).session) ∧ σ.Follows streams (f.andThen g) σ' := by
  refine hx.bind ?_
  rintro σ' _ ⟨rfl, hf⟩
  refine (hnext σ' (h.follows hstdin hf)).mono ?_
  rintro σ'' _ ⟨rfl, hg⟩
  exact ⟨rfl, hf.andThen h hg⟩

lemma Flow.sights_andThen {f g : Flow} {P : Sight → Prop} :
    (∀ sight ∈ (f.andThen g).sights, P sight) ↔
      (∀ sight ∈ f.sights, P sight) ∧ ∀ sight ∈ g.sights, P sight := by
  simp only [andThen, List.mem_append]
  grind

mutual

/-- **Commands do what they mean.**

**Proof sketch.** Induction on the tree of the command.  Pipelines do so because their nested
commands do; in chains and lists of blocks, one command runs behind another. -/
theorem Command.adequate (os : Ideal) : ∀ c : Command, c.Adequate os
  | ⟨blocks⟩ => fun hflow hsteady h hstdin =>
    Block.runAll_yields os _ _ blocks _ _ _ _ _ hflow hsteady h hstdin

theorem Block.runAll_yields (os : Ideal) (streams : Streams) (port : Port) :
    ∀ (blocks : List Block) (status : Int) (σ : Ledger) (s : Session) (input : Octets) (f : Flow),
      Block.flowAll os blocks port status s input = some f →
      (∀ sight ∈ f.sights, sight.Steady os) → σ.Serves streams input port →
      (∀ t, streams.stdin ≠ .text t) →
      Yields os σ (Block.runAll blocks streams status s) fun σ' r =>
        r = (f.code, f.session) ∧ σ.Follows streams f σ'
  | [], status, σ, s, input, f, hflow, _, h, _ => by
    cases hflow
    exact .pure ⟨rfl, h.extends_of_idle, rfl⟩
  | b :: rest, status, σ, s, input, f, hflow, hsteady, h, hstdin => by
    simp only [Block.flowAll, Option.bind_eq_bind, Option.bind_eq_some_iff] at hflow
    obtain ⟨g, hg, hrest⟩ := hflow
    cases hrequest : g.session.exitRequested with
    | some code =>
      simp only [hrequest] at hrest
      cases hrest
      refine (Block.run_yields os streams port b σ s input g hg hsteady h hstdin).bind ?_
      rintro σ' _ ⟨rfl, hfollows⟩
      simp only [hrequest]
      exact .pure ⟨rfl, hfollows.later, hfollows.companions⟩
    | none =>
      simp only [hrequest, Option.map_eq_some_iff] at hrest
      obtain ⟨k, hk, rfl⟩ := hrest
      obtain ⟨hsteady₁, hsteady₂⟩ := Flow.sights_andThen.1 hsteady
      refine .andThen h hstdin (Block.run_yields os streams port b σ s input g hg hsteady₁ h hstdin)
        fun σ' hserves => ?_
      simp only [hrequest]
      exact Block.runAll_yields os streams port rest _ σ' _ _ k hk hsteady₂ hserves hstdin

theorem Block.run_yields (os : Ideal) (streams : Streams) (port : Port) :
    ∀ (b : Block) (σ : Ledger) (s : Session) (input : Octets) (f : Flow),
      b.flow os port s input = some f → (∀ sight ∈ f.sights, sight.Steady os) →
      σ.Serves streams input port → (∀ t, streams.stdin ≠ .text t) →
      Yields os σ (b.run streams s) fun σ' r => r = (f.code, f.session) ∧ σ.Follows streams f σ'
  | ⟨first, rest⟩, σ, s, input, f, hflow, hsteady, h, hstdin => by
    simp only [Block.flow, Option.bind_eq_bind, Option.bind_eq_some_iff,
      Option.map_eq_some_iff] at hflow
    obtain ⟨g, hg, k, hk, rfl⟩ := hflow
    obtain ⟨hsteady₁, hsteady₂⟩ := Flow.sights_andThen.1 hsteady
    exact .andThen h hstdin (Pipeline.adequate os first hg hsteady₁ h) fun σ' hserves =>
      Link.runAll_yields os streams port rest _ σ' _ _ k hk hsteady₂ hserves hstdin

theorem Link.runAll_yields (os : Ideal) (streams : Streams) (port : Port) :
    ∀ (links : List Link) (status : Int) (σ : Ledger) (s : Session) (input : Octets) (f : Flow),
      Link.flowAll os links port status s input = some f →
      (∀ sight ∈ f.sights, sight.Steady os) → σ.Serves streams input port →
      (∀ t, streams.stdin ≠ .text t) →
      Yields os σ (Link.runAll links streams status s) fun σ' r =>
        r = (f.code, f.session) ∧ σ.Follows streams f σ'
  | [], status, σ, s, input, f, hflow, _, h, _ => by
    cases hflow
    exact .pure ⟨rfl, h.extends_of_idle, rfl⟩
  | ⟨connector, pipeline⟩ :: rest, status, σ, s, input, f, hflow, hsteady, h, hstdin => by
    rw [Link.flowAll] at hflow
    rw [Link.runAll]
    by_cases hrequest : s.exitRequested.isSome = true
    · simp only [hrequest, if_true] at hflow ⊢
      cases hflow
      exact .pure ⟨rfl, h.extends_of_idle, rfl⟩
    by_cases hwants : connector.wants status = true
    · simp only [hrequest, hwants, if_true, Bool.false_eq_true, if_false, Option.bind_eq_bind,
        Option.bind_eq_some_iff, Option.map_eq_some_iff] at hflow ⊢
      obtain ⟨g, hg, k, hk, rfl⟩ := hflow
      obtain ⟨hsteady₁, hsteady₂⟩ := Flow.sights_andThen.1 hsteady
      exact .andThen h hstdin (Pipeline.adequate os pipeline hg hsteady₁ h) fun σ' hserves =>
        Link.runAll_yields os streams port rest _ σ' _ _ k hk hsteady₂ hserves hstdin
    · simp only [hrequest, hwants, Bool.false_eq_true, if_false] at hflow ⊢
      exact Link.runAll_yields os streams port rest status σ s input f hflow hsteady h hstdin

theorem Pipeline.adequate (os : Ideal) : ∀ p : Pipeline, p.Adequate os
  | ⟨elements, background⟩ =>
    Pipeline.adequate_of_elements (Element.adequate_of_mem os elements) background

theorem Element.adequate_of_mem (os : Ideal) : ∀ elements : List Element, ∀ e ∈ elements,
    e.Adequate os
  | first :: rest, e, he => by
    rcases List.mem_cons.1 he with heq | he
    · exact heq ▸ Element.adequate os first
    · exact Element.adequate_of_mem os rest e he

theorem Element.adequate (os : Ideal) : ∀ e : Element, e.Adequate os
  | .simple _ => trivial
  | .subshell body => Command.adequate os body
  | .group body => Command.adequate os body

end

end Conch
