import Conch.Proofs.Isolation
import Conch.Proofs.Supply
import Conch.Proofs.Threads

/-!
# Waiting for the stages of a pipeline

Whoever has launched a pipeline waits for its processes and threads, for each of them once, and
makes a status of their codes.  Behind that none of them runs any more.

## Main definitions

* `Launched.runners` — who has been started for a pipeline.
* `Running.status` — the code with which a stage has ended.
* `Running.Manned`, `Launched.Manned` — who runs for a stage, and for a pipeline.

## Main results

* `Jobs.collectAll_yields`, `Jobs.joinAll_yields` — processes and threads are waited for in turn.
* `Pipeline.stageCodes_yields` — every stage gets its own code.
* `Pipeline.conclude_yields`, `Pipeline.conclude_of_manned` — the status of a pipeline that has been
  launched.
-/

set_option autoImplicit false

namespace Conch

open Act (Yields)

namespace Ledger

variable {σ : Ledger}

/-- Everybody in a list has been waited for. -/
def withoutAll (σ : Ledger) (whos : List Runner) : Ledger :=
  { σ with companions := σ.companions.filter (·.who ∉ whos) }

lemma withoutAll_nil (σ : Ledger) : σ.withoutAll [] = σ := by simp [withoutAll]

lemma withoutAll_withoutAll (whos whos' : List Runner) :
    (σ.withoutAll whos).withoutAll whos' = σ.withoutAll (whos ++ whos') := by
  simp only [withoutAll, List.filter_filter, List.mem_append]
  congr 2
  funext k
  grind

lemma withoutAll_congr {whos whos' : List Runner} (h : ∀ who, who ∈ whos ↔ who ∈ whos') :
    σ.withoutAll whos = σ.withoutAll whos' := by
  simp only [withoutAll, h]

lemma without_eq (σ : Ledger) (who : Runner) : σ.without who = σ.withoutAll [who] := by
  simp [without, withoutAll]

/-- Somebody else who runs still does when others have been waited for. -/
lemma Ends.withoutAll {who : Runner} {code : Int} (h : σ.Ends who code) {whos : List Runner}
    (hwho : who ∉ whos) : (σ.withoutAll whos).Ends who code := by
  obtain ⟨⟨k, hk, hkwho⟩, hall⟩ := h
  refine ⟨⟨k, List.mem_filter.2 ⟨hk, by simpa [hkwho] using hwho⟩, hkwho⟩, fun k' hk' => ?_⟩
  exact hall k' (List.mem_filter.1 hk').1

/-- The one who was started last, and whom nobody else is like. -/
lemma ends_of_companions {companions : List Companion} {k : Companion} {code : Int}
    (h : σ.companions = companions ++ [k]) (hlacks : ∀ k' ∈ companions, k'.who ≠ k.who)
    (hended : k.progress = .ended code) : σ.Ends k.who code := by
  refine ⟨⟨k, by simp [h], rfl⟩, fun k' hk' hwho => ?_⟩
  rcases List.mem_append.1 (h ▸ hk') with hold | hnew
  · exact absurd hwho (hlacks k' hold)
  · rw [List.mem_singleton.1 hnew, hended]

lemma companions_without {companions : List Companion} {k : Companion}
    (h : σ.companions = companions ++ [k]) (hlacks : ∀ k' ∈ companions, k'.who ≠ k.who) :
    (σ.without k.who).companions = companions := by
  have hkept : companions.filter (·.who ≠ k.who) = companions :=
    List.filter_eq_self.2 fun k' hk' => by simpa using hlacks k' hk'
  simp only [without, h, List.filter_append, hkept]
  simp

/-- What is known of who runs does not depend on results. -/
lemma Ends.of_companions {σ' : Ledger} {who : Runner} {code : Int} (h : σ.Ends who code)
    (hcompanions : σ'.companions = σ.companions) : σ'.Ends who code := by
  unfold Ends
  rw [hcompanions]
  exact h

end Ledger

/-! ## Processes and threads -/

/-- The threads among helpers. -/
def Helper.threads (helpers : List Helper) : List TaskId :=
  helpers.filterMap fun
    | .thread t => some t
    | .channel _ => none

namespace Jobs

variable {os : Ideal} {σ : Ledger} {code : Runner → Int}

/-- **Processes are waited for in turn**, each with its own code. -/
lemma collectAll_yields {pids : List Pid}
    (hends : ∀ pid ∈ pids, σ.Ends (.process pid) (code (.process pid))) (hnodup : pids.Nodup) :
    Yields os σ (collectAll pids) fun σ' codes =>
      codes = pids.map (fun pid => code (.process pid)) ∧
        σ' = σ.withoutAll (pids.map Runner.process) := by
  induction pids generalizing σ with
  | nil => exact .pure ⟨rfl, σ.withoutAll_nil.symm⟩
  | cons pid rest ih =>
    rw [List.nodup_cons] at hnodup
    refine .exits (hends pid (by simp)) ?_
    rw [σ.without_eq]
    have hrest := ih (σ := σ.withoutAll [.process pid]) (fun pid' hpid' =>
      (hends pid' (by simp [hpid'])).withoutAll (by grind)) hnodup.2
    refine hrest.bind fun σ' codes ⟨hcodes, hσ'⟩ => .pure ⟨?_, ?_⟩
    · rw [hcodes]
      rfl
    · rw [hσ', Ledger.withoutAll_withoutAll]
      rfl

/-- **Helpers are waited for in turn**; threads leave their codes. -/
lemma joinAll_yields {helpers : List Helper}
    (hends : ∀ t ∈ Helper.threads helpers, σ.Ends (.thread t) (code (.thread t)))
    (hnodup : (Helper.threads helpers).Nodup) :
    Yields os σ (joinAll helpers) fun σ' _ =>
      (∃ results, σ' =
        { σ.withoutAll ((Helper.threads helpers).map Runner.thread) with results }) ∧
      ∀ t, σ'.results.lookup t =
        if t ∈ Helper.threads helpers then some (code (.thread t)) else σ.results.lookup t := by
  induction helpers generalizing σ with
  | nil =>
    refine .pure ⟨⟨σ.results, ?_⟩, fun t => by simp [Helper.threads]⟩
    exact σ.withoutAll_nil.symm
  | cons h rest ih =>
    cases h with
    | channel c => exact .joinsChannel (ih hends hnodup)
    | thread t =>
      have hthreads : Helper.threads (.thread t :: rest) = t :: Helper.threads rest := rfl
      rw [hthreads] at hends hnodup ⊢
      rw [List.nodup_cons] at hnodup
      refine .joins (hends t (by simp)) ?_
      rw [σ.without_eq]
      have hrest (t' : TaskId) (ht' : t' ∈ Helper.threads rest) :
          Ledger.Ends { σ.withoutAll [.thread t] with
            results := (t, code (.thread t)) :: σ.results } (.thread t') (code (.thread t')) := by
        have hother : Runner.thread t' ∉ [Runner.thread t] := by grind
        exact ((hends t' (by simp [ht'])).withoutAll hother).of_companions rfl
      refine (ih hrest hnodup.2).mono ?_
      rintro _ _ ⟨⟨results, rfl⟩, hlookup⟩
      refine ⟨⟨results, ?_⟩, fun t' => ?_⟩
      · exact congrArg (fun σ' : Ledger => { σ' with results })
          (σ.withoutAll_withoutAll [.thread t] ((Helper.threads rest).map Runner.thread))
      · rw [hlookup t', List.lookup_cons]
        by_cases ht' : t' = t
        · simp [ht', hnodup.1]
        · have hne : (t' == t) = false := beq_false_of_ne ht'
          simp [ht', hne]

end Jobs

/-! ## Codes -/

namespace Pipeline

/-- The code with which a stage has ended. -/
def Running.status (code : Runner → Int) : Running → Int
  | .process pid => code (.process pid)
  | .thread t => code (.thread t)
  | .finished c => c

/-- Who has been started for a pipeline. -/
def Launched.runners (l : Launched) : List Runner :=
  l.pids.map Runner.process ++ (Helper.threads l.helpers).map Runner.thread

variable {os : Ideal} {σ : Ledger} {code : Runner → Int}

/-- **Every stage gets its own code**: a process the next one of those that have been waited for,
a thread what it has left. -/
lemma stageCodes_yields {stages : List Running}
    (hresults : ∀ t, .thread t ∈ stages → σ.results.lookup t = some (code (.thread t)))
    {pids : List Pid} (hpids : pids = stages.filterMap fun
      | .process pid => some pid
      | _ => none) :
    Yields os σ (stageCodes stages (pids.map fun pid => code (.process pid))) fun σ' codes =>
      σ' = σ ∧ codes = stages.map (Running.status code) := by
  induction stages generalizing pids with
  | nil => exact .pure ⟨rfl, rfl⟩
  | cons r rest ih =>
    have hrest (t : TaskId) (ht : .thread t ∈ rest) := hresults t (by simp [ht])
    cases r with
    | process pid =>
      subst hpids
      refine (ih hrest rfl).bind ?_
      rintro _ _ ⟨rfl, rfl⟩
      exact .pure ⟨rfl, rfl⟩
    | thread t =>
      refine .result ?_
      rw [hresults t (by simp)]
      refine (ih hrest hpids).bind ?_
      rintro _ _ ⟨rfl, rfl⟩
      exact .pure ⟨rfl, rfl⟩
    | finished c =>
      refine (ih hrest hpids).bind ?_
      rintro _ _ ⟨rfl, rfl⟩
      exact .pure ⟨rfl, rfl⟩

/-! ## The whole pipeline -/

/-- Everybody who has been started for a pipeline runs and ends with a code, and the threads of
its stages are among the helpers. -/
structure Launched.Ends (l : Launched) (code : Runner → Int) (σ : Ledger) : Prop where
  ends : ∀ who ∈ l.runners, σ.Ends who (code who)
  nodup : l.runners.Nodup
  threads : ∀ t, .thread t ∈ l.stages → .thread t ∈ l.helpers

variable {l : Launched}

lemma Launched.Ends.process (h : l.Ends code σ) {pid : Pid} (hpid : pid ∈ l.pids) :
    σ.Ends (.process pid) (code (.process pid)) :=
  h.ends _ (List.mem_append_left _ (List.mem_map_of_mem hpid))

lemma Launched.Ends.thread (h : l.Ends code σ) {t : TaskId} (ht : t ∈ Helper.threads l.helpers) :
    σ.Ends (.thread t) (code (.thread t)) :=
  h.ends _ (List.mem_append_right _ (List.mem_map_of_mem ht))

/-- Everybody who has been started for a pipeline has been waited for. -/
structure Launched.Gathered (l : Launched) (code : Runner → Int) (σ σ' : Ledger) : Prop where
  eq : ∃ results, σ' = { σ.withoutAll l.runners with results }
  results : ∀ t, .thread t ∈ l.stages → σ'.results.lookup t = some (code (.thread t))

lemma mem_threads {t : TaskId} {helpers : List Helper} (h : .thread t ∈ helpers) :
    t ∈ Helper.threads helpers :=
  List.mem_filterMap.2 ⟨_, h, rfl⟩

/-- The other processes and the helpers are waited for behind the last process. -/
lemma gather_yields (h : l.Ends code σ) {siblings : List Pid} {primary : Pid}
    (hpids : l.pids = siblings ++ [primary]) {α : Type} {next : List Int → Act α}
    {Q : Ledger → α → Prop}
    (hnext : ∀ σ', l.Gathered code σ σ' →
      Yields os σ' (next (siblings.map fun pid => code (.process pid))) Q) :
    Yields os (σ.without (.process primary))
      (Jobs.collectAll siblings >>= fun codes => Jobs.joinAll l.helpers >>= fun _ => next codes)
      Q := by
  have hnodup := h.nodup
  unfold Launched.runners at hnodup
  rw [hpids, List.nodup_append, List.map_append, List.nodup_append] at hnodup
  obtain ⟨⟨hsiblings, -, hprimary⟩, hthreads, -⟩ := hnodup
  rw [σ.without_eq]
  have hcollect (pid : Pid) (hpid : pid ∈ siblings) :
      (σ.withoutAll [.process primary]).Ends (.process pid) (code (.process pid)) := by
    refine (h.process (by simp [hpids, hpid])).withoutAll ?_
    have hne := hprimary _ (List.mem_map_of_mem hpid) (.process primary) (by simp)
    simpa using hne
  refine (Jobs.collectAll_yields hcollect hsiblings.of_map).bind ?_
  rintro _ _ ⟨rfl, rfl⟩
  rw [Ledger.withoutAll_withoutAll]
  have hjoin (t : TaskId) (ht : t ∈ Helper.threads l.helpers) :
      (σ.withoutAll ([.process primary] ++ siblings.map Runner.process)).Ends (.thread t)
        (code (.thread t)) :=
    (h.thread ht).withoutAll (by simp)
  refine (Jobs.joinAll_yields hjoin hthreads.of_map).bind ?_
  rintro _ - ⟨⟨results, rfl⟩, hlookup⟩
  refine hnext _ ⟨⟨results, ?_⟩, fun t ht => ?_⟩
  · rw [Ledger.withoutAll_withoutAll]
    refine congrArg (fun σ' : Ledger => { σ' with results }) (Ledger.withoutAll_congr fun who => ?_)
    simp only [Launched.runners, hpids, List.map_append, List.mem_append]
    grind
  · rw [hlookup t, if_pos (mem_threads (h.threads t ht))]

/-- Whoever waits for a pipeline gets the codes of its processes. -/
lemma await_yields (job : Option JobId) (line : String) (h : l.Ends code σ) {siblings : List Pid}
    {primary : Pid} (hpids : l.pids = siblings ++ [primary]) :
    Yields os σ (await job line ⟨primary, siblings, l.helpers⟩) fun σ' completion =>
      completion = .exited (code (.process primary))
        (siblings.map fun pid => code (.process pid)) ∧ l.Gathered code σ σ' := by
  have hprimary : primary ∈ l.pids := by simp [hpids]
  have hends := h.process hprimary
  cases job with
  | none =>
    simp only [await, Jobs.runForeground_eq]
    refine .notices rfl ⟨default⟩ fun hold => .pauses hends ?_
    exact gather_yields h hpids fun σ' hσ' => .notices rfl ⟨()⟩ fun _ => .done ⟨rfl, hσ'⟩
  | some id =>
    simp only [await, Jobs.runInJob_eq]
    refine .notices rfl ⟨()⟩ fun _ => .exits hends ?_
    exact gather_yields h hpids fun σ' hσ' => .notices rfl ⟨()⟩ fun _ => .done ⟨rfl, hσ'⟩

/-- The status is made when everybody has been waited for. -/
lemma exitCode_yields (pipefail : Bool) {σ' : Ledger} (h : l.Gathered code σ σ') {codes : List Int}
    (hcodes : codes = l.pids.map fun pid => code (.process pid)) :
    Yields os σ' (return exitCode pipefail (← stageCodes l.stages codes)) fun σ' c =>
      c = exitCode pipefail (l.stages.map (Running.status code)) ∧
        ∃ results, σ' = { σ.withoutAll l.runners with results } := by
  subst hcodes
  refine (stageCodes_yields h.results rfl).bind ?_
  rintro _ _ ⟨rfl, rfl⟩
  exact .pure ⟨rfl, h.eq⟩

/-- **The status of a pipeline that has been launched** is made of the codes of its stages, and
behind it nobody runs who was started for it. -/
theorem conclude_yields (line : String) (s : Session) (h : l.Ends code σ) :
    Yields os σ (conclude line s l) fun σ' c =>
      c = exitCode s.pipefail (l.stages.map (Running.status code)) ∧
        ∃ results, σ' = { σ.withoutAll l.runners with results } := by
  unfold conclude
  cases hlast : l.pids.getLast? with
  | none =>
    have hnone : l.pids = [] := List.getLast?_eq_none_iff.1 hlast
    have hrunners : l.runners = (Helper.threads l.helpers).map Runner.thread := by
      simp [Launched.runners, hnone]
    have hnodup : (Helper.threads l.helpers).Nodup := (hrunners ▸ h.nodup).of_map
    refine (Jobs.joinAll_yields (fun t ht => h.thread ht) hnodup).bind ?_
    rintro σ' - ⟨heq, hlookup⟩
    have hgathered : l.Gathered code σ σ' := by
      refine ⟨hrunners ▸ heq, fun t ht => ?_⟩
      rw [hlookup t, if_pos (mem_threads (h.threads t ht))]
    exact exitCode_yields s.pipefail hgathered (by simp [hnone])
  | some primary =>
    have hpids : l.pids = l.pids.dropLast ++ [primary] :=
      (List.dropLast_append_getLast? primary hlast).symm
    refine (await_yields s.job line h hpids).bind ?_
    rintro σ' _ ⟨rfl, hgathered⟩
    refine exitCode_yields s.pipefail hgathered ?_
    -- everybody has reported, so no code is unknown
    conv_rhs => rw [hpids]
    simp

/-! ## Who runs for a pipeline -/

/-- The team of a program: its process, which ends with a code, and the threads among its
helpers. -/
structure IsTeam (team : List Companion) (pid : Pid) (helpers : List Helper) (code : Int) :
    Prop where
  who : ∀ who, who ∈ team.map Companion.who ↔
    who = .process pid ∨ ∃ t ∈ Helper.threads helpers, who = .thread t
  nodup : (Helper.threads helpers).Nodup
  ended : ∃ k ∈ team, k.who = .process pid ∧ k.progress = .ended code

/-- Who runs for a stage, and the code with which he ends. -/
inductive Running.Manned (team : List Companion) (helpers : List Helper) (code : Int) :
    Running → Prop where
  | process {pid : Pid} : IsTeam team pid helpers code → Manned team helpers code (.process pid)
  | thread {t : TaskId} {k : Companion} : team = [k] → k.who = .thread t →
      k.progress = .ended code → helpers = [.thread t] → Manned team helpers code (.thread t)
  | finished : team = [] → helpers = [] → Manned team helpers code (.finished code)

/-- Somebody runs for a stage who ends with a code, or it has ended with that code. -/
def Running.Reached (companions : List Companion) : Running → Int → Prop
  | .process pid, code => ∃ k ∈ companions, k.who = .process pid ∧ k.progress = .ended code
  | .thread t, code => ∃ k ∈ companions, k.who = .thread t ∧ k.progress = .ended code
  | .finished c, code => c = code

lemma Running.Reached.mono {companions companions' : List Companion}
    (hsub : companions ⊆ companions') {r : Running} {code : Int} (h : r.Reached companions code) :
    r.Reached companions' code := by
  cases r with
  | process pid =>
    obtain ⟨k, hk, hwho⟩ := h
    exact ⟨k, hsub hk, hwho⟩
  | thread t =>
    obtain ⟨k, hk, hwho⟩ := h
    exact ⟨k, hsub hk, hwho⟩
  | finished c => exact h

/-- Besides those in `base`, exactly those run who have been started for the pipeline, and its
stages end with these codes. -/
structure Launched.Manned (l : Launched) (base : List Companion) (codes : List Int) (σ : Ledger) :
    Prop where
  team : ∃ team, σ.companions = base ++ team ∧ ∀ who, who ∈ team.map Companion.who ↔ who ∈ l.runners
  pids : l.pids.Nodup
  helpers : (Helper.threads l.helpers).Nodup
  threads : ∀ t, .thread t ∈ l.stages → .thread t ∈ l.helpers
  codes : List.Forall₂ (Running.Reached σ.companions) l.stages codes

/-- The process of a stage. -/
def Running.pids : Running → List Pid
  | .process pid => [pid]
  | _ => []

lemma mem_runners {l : Launched} {who : Runner} : who ∈ l.runners ↔
    (∃ pid ∈ l.pids, .process pid = who) ∨ ∃ t ∈ Helper.threads l.helpers, .thread t = who := by
  simp [Launched.runners]

/-- Who is new with a stage. -/
structure Running.News (r : Running) (team : List Companion) (helpers : List Helper) (code : Int) :
    Prop where
  who : ∀ who, who ∈ team.map Companion.who ↔
    (∃ pid ∈ r.pids, .process pid = who) ∨ ∃ t ∈ Helper.threads helpers, .thread t = who
  nodup : (Helper.threads helpers).Nodup
  thread : ∀ t, r = .thread t → .thread t ∈ helpers
  reached : r.Reached team code

lemma Running.Manned.news {r : Running} {team : List Companion} {helpers : List Helper} {code : Int}
    (h : r.Manned team helpers code) : r.News team helpers code := by
  cases h with
  | process hteam =>
    refine ⟨fun who => (hteam.who who).trans ?_, hteam.nodup, by simp, hteam.ended⟩
    simp [Running.pids, eq_comm]
  | @thread t k hteam hwho hended hhelpers =>
    subst hteam hhelpers
    refine ⟨fun who => ?_, List.nodup_singleton _, by simp, k, by simp, hwho, hended⟩
    simp [Running.pids, Helper.threads, hwho, eq_comm]
  | finished hteam hhelpers =>
    subst hteam hhelpers
    exact ⟨by simp [Running.pids, Helper.threads], List.nodup_nil, by simp, rfl⟩

/-- One more stage has been launched. -/
lemma Launched.Manned.add {l l' : Launched} {base : List Companion} {codes : List Int}
    {σ σ' : Ledger} (h : l.Manned base codes σ) {r : Running} {team : List Companion}
    {helpers : List Helper} {code : Int} (hr : r.Manned team helpers code) (htidy : σ'.Tidy)
    (hcompanions : σ'.companions = σ.companions ++ team) (hstages : l'.stages = l.stages ++ [r])
    (hhelpers : l'.helpers = l.helpers ++ helpers) : l'.Manned base (codes ++ [code]) σ' := by
  obtain ⟨hwho, hnodup, hthread, hreached⟩ := hr.news
  obtain ⟨old, hold, holdWho⟩ := h.team
  have hpids : l'.pids = l.pids ++ r.pids := by
    unfold Launched.pids
    rw [hstages, List.filterMap_append]
    cases r <;> rfl
  have hthreads : Helper.threads l'.helpers =
      Helper.threads l.helpers ++ Helper.threads helpers := by
    unfold Helper.threads
    rw [hhelpers, List.filterMap_append]
  -- whoever is new is not among those who were there
  have hnew (who : Runner) (hmem : who ∈ l.runners) : who ∉ team.map Companion.who := by
    have hall := htidy.nodup
    rw [hcompanions, hold, List.map_append, List.map_append, List.nodup_append] at hall
    intro hteam
    exact hall.2.2 who (List.mem_append_right _ ((holdWho who).2 hmem)) who hteam rfl
  refine ⟨⟨old ++ team, by rw [hcompanions, hold, List.append_assoc], fun who => ?_⟩, ?_, ?_, ?_,
    ?_⟩
  · rw [List.map_append, List.mem_append, holdWho, hwho]
    simp only [mem_runners, hpids, hthreads, List.mem_append]
    grind
  · rw [hpids, List.nodup_append]
    refine ⟨h.pids, ?_, ?_⟩
    · cases r <;> simp [Running.pids]
    · rintro pid hpid _ hpid' rfl
      exact hnew (.process pid) (mem_runners.2 (.inl ⟨pid, hpid, rfl⟩))
        ((hwho _).2 (.inl ⟨pid, hpid', rfl⟩))
  · rw [hthreads, List.nodup_append]
    refine ⟨h.helpers, hnodup, ?_⟩
    rintro t ht _ ht' rfl
    exact hnew (.thread t) (mem_runners.2 (.inr ⟨t, ht, rfl⟩)) ((hwho _).2 (.inr ⟨t, ht', rfl⟩))
  · intro t ht
    rw [hstages, List.mem_append, List.mem_singleton] at ht
    rw [hhelpers, List.mem_append]
    exact ht.imp (h.threads t) fun hr => hthread t hr.symm
  · rw [hstages, hcompanions]
    refine List.rel_append ?_ ?_
    · exact h.codes.imp fun _ _ => .mono (List.subset_append_left ..)
    · exact .cons (hreached.mono (List.subset_append_right ..)) .nil

end Pipeline

namespace Ledger

variable {σ : Ledger}

/-- Nobody is like a companion who has come to his end. -/
lemma Tidy.ends (h : σ.Tidy) {k : Companion} (hk : k ∈ σ.companions) {code : Int}
    (hended : k.progress = .ended code) : σ.Ends k.who code := by
  refine ⟨⟨k, hk, rfl⟩, fun k' hk' hwho => ?_⟩
  rw [List.inj_on_of_nodup_map h.nodup hk' hk hwho, hended]

lemma Tidy.exists_ends (h : σ.Tidy) {k : Companion} (hk : k ∈ σ.companions) :
    ∃ code, σ.Ends k.who code := by
  have hended := h.ended k hk
  cases hprogress : k.progress with
  | waits streams run => simp [hprogress, Progress.isEnded] at hended
  | ended code => exact ⟨code, h.ends hk hprogress⟩

/-- There is one code for everybody who ends. -/
lemma exists_code (σ : Ledger) : ∃ code : Runner → Int, ∀ who c, σ.Ends who c → code who = c := by
  classical
  refine ⟨fun who => if h : ∃ c, σ.Ends who c then h.choose else 0, fun who c hc => ?_⟩
  have hsome : ∃ c, σ.Ends who c := ⟨c, hc⟩
  exact (dif_pos hsome).trans (hsome.choose_spec.unique hc)

end Ledger

namespace Pipeline

/-- The stages of a pipeline end with the codes of those who run for them. -/
lemma map_status_of_reached {σ : Ledger} (htidy : σ.Tidy) {code : Runner → Int}
    (hcode : ∀ who c, σ.Ends who c → code who = c) {stages : List Running} {codes : List Int}
    (h : List.Forall₂ (Running.Reached σ.companions) stages codes) :
    stages.map (Running.status code) = codes := by
  induction h with
  | nil => rfl
  | @cons r c _ _ hr _ ih =>
    rw [List.map_cons, ih]
    congr 1
    cases r with
    | process pid =>
      obtain ⟨k, hk, hwho, hended⟩ := hr
      exact hcode _ _ (hwho ▸ htidy.ends hk hended)
    | thread t =>
      obtain ⟨k, hk, hwho, hended⟩ := hr
      exact hcode _ _ (hwho ▸ htidy.ends hk hended)
    | finished c' => exact hr

/-- **Everybody who runs for a pipeline ends**, its stages with their codes, and nobody else is
waited for. -/
lemma Launched.Manned.exists_ends {l : Launched} {base : List Companion} {codes : List Int}
    {σ : Ledger} (h : l.Manned base codes σ) (htidy : σ.Tidy) :
    ∃ code, l.Ends code σ ∧ l.stages.map (Running.status code) = codes ∧
      (σ.withoutAll l.runners).companions = base := by
  obtain ⟨team, hcompanions, hwho⟩ := h.team
  obtain ⟨code, hcode⟩ := σ.exists_code
  refine ⟨code, ⟨fun who hmem => ?_, ?_, h.threads⟩, map_status_of_reached htidy hcode h.codes, ?_⟩
  · obtain ⟨k, hk, rfl⟩ := List.mem_map.1 ((hwho who).2 hmem)
    obtain ⟨c, hends⟩ := htidy.exists_ends (hcompanions ▸ List.mem_append_right base hk)
    exact hcode _ _ hends ▸ hends
  · unfold Launched.runners
    rw [List.nodup_append]
    refine ⟨h.pids.map fun _ _ heq => Runner.process.inj heq,
      h.helpers.map fun _ _ heq => Runner.thread.inj heq, ?_⟩
    simp
  · have hnodup := htidy.nodup
    rw [hcompanions, List.map_append, List.nodup_append] at hnodup
    have hbase : base.filter (·.who ∉ l.runners) = base := by
      refine List.filter_eq_self.2 fun k hk => decide_eq_true fun hmem => ?_
      exact hnodup.2.2 _ (List.mem_map_of_mem hk) _ ((hwho _).2 hmem) rfl
    have hteam : team.filter (·.who ∉ l.runners) = [] := by
      refine List.filter_eq_nil_iff.2 fun k hk => ?_
      simpa using (hwho _).1 (List.mem_map_of_mem hk)
    simp only [Ledger.withoutAll, hcompanions, List.filter_append, hbase, hteam, List.append_nil]

/-- A pipeline that has been launched is waited for: its status, with nobody left behind. -/
theorem conclude_of_manned {os : Ideal} (line : String) (s : Session) {l : Launched}
    {base : List Companion} {codes : List Int} {σ : Ledger} (h : l.Manned base codes σ)
    (htidy : σ.Tidy) :
    Yields os σ (conclude line s l) fun σ' c =>
      c = exitCode s.pipefail codes ∧ σ'.companions = base ∧ ∀ n, Ledger.Extends n σ σ' := by
  obtain ⟨code, hends, hcodes, hbase⟩ := h.exists_ends htidy
  refine (conclude_yields line s hends).mono ?_
  rintro _ _ ⟨rfl, results, rfl⟩
  refine ⟨by rw [hcodes], hbase, fun n => ?_⟩
  exact ⟨Nat.le_refl _, fun _ _ => rfl, fun _ _ => rfl, fun _ _ => rfl, fun _ _ => rfl⟩

end Pipeline

end Conch
