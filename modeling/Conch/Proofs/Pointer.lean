import Conch.Proofs.Threads
import Mathlib.Data.List.Count

/-!
# Holds on the foreground pointer

Whoever runs something in the foreground holds the foreground pointer meanwhile.  The first to come
owns it and clears it at the end; those who come later add their processes to it and take them back
at the end.  Holds are given back in any order.  The pointer names the processes of all holds as
long as its owner is the last to give it back, and no two holds name the same process; it does not
as soon as the owner gives it back before another.

## Main definitions

* `Conch.Holding` — the table and the holds that have not been given back.
* `Holding.step`, `Holding.run` — any number of parties take holds and give them back.
* `Holding.Changes` — what one event can do to the pointer and the holds.
* `Holding.Covers` — the pointer names the processes of all holds and no others.
* `Holding.Clean` — a hold is given back in time.
* `Holding.Reached` — an interrupt is sent to the processes of all holds.

## Main results

* `Holding.Owned.step`, `Holding.Named.step` — the pointer is free exactly if nobody who owns it
  holds it, and names processes of holds only, whatever the order.
* `Holding.step_covers_iff` — giving a hold back keeps the pointer right exactly if it is clean.
* `Holding.covers_iff_clean` — **the pointer is right all the time exactly if all holds are given
  back in time**, and then interrupts reach everybody.
* `Holding.owner_leaves_first` — the pointer is lost if the owner leaves first.
-/

set_option autoImplicit false

namespace Conch

/-! ## Operations on the pointer -/

namespace JobTable

/-- The operation writes the foreground pointer. -/
def Op.writesPointer : Op → Bool
  | .seize .. | .yieldBack _ | .setForeground _ => true
  | _ => false

lemma foreground_collect {t t' : JobTable} {id : JobId} {code : Int}
    (h : t.collect id = some (code, t')) : t'.foreground = t.foreground := by
  unfold collect at h
  grind [remove]

/-- No other operation touches the pointer. -/
lemma foreground_apply {t t' : JobTable} {op : Op} {r : op.Result}
    (h : t.apply op = some (r, t')) (hop : op.writesPointer = false) :
    t'.foreground = t.foreground := by
  cases op with
  | seize job pids => cases hop
  | yieldBack hold => cases hop
  | setForeground fg => cases hop
  | collect id => exact foreground_collect h
  | stopped id =>
    rw [← table_of_apply h rfl]
    unfold stopped
    grind [update, publish]
  | finish id code =>
    rw [← table_of_apply h rfl]
    unfold finish
    grind [update, publish, remove]
  | watch id =>
    rw [← table_of_apply h rfl]
    unfold watch
    grind [update]
  | toForeground id =>
    rw [← table_of_apply h rfl]
    unfold toForeground
    grind [update]
  | toBackground id =>
    rw [← table_of_apply h rfl]
    unfold toBackground
    grind [update]
  | _ => exact table_of_apply h rfl ▸ rfl

/-- The first to come owns the pointer. -/
lemma seize_of_free {t : JobTable} (h : t.foreground = none) (job : Option JobId)
    (pids : List Pid) :
    t.seize job pids = (⟨none, pids, true⟩, { t with foreground := some ⟨job, pids⟩ }) := by
  simp only [seize, h]

/-- Those who come later join; the pointer takes the job of the first who has one. -/
lemma seize_of_taken {t : JobTable} {fg : Foreground} (h : t.foreground = some fg)
    (job : Option JobId) (pids : List Pid) : t.seize job pids =
      (⟨if fg.job.isNone && job.isSome then job else none, pids, false⟩,
        { t with foreground := some ⟨if fg.job.isNone && job.isSome then job else fg.job,
                                      fg.pids ++ pids⟩ }) := by
  simp only [seize, h]

lemma yieldBack_of_owner (t : JobTable) {hold : Hold} (howner : hold.owner = true) :
    t.yieldBack hold = { t with foreground := none } := by
  simp only [yieldBack, howner, if_true]

/-- He who has joined takes back what he has added. -/
lemma yieldBack_of_taken {t : JobTable} {fg : Foreground} (h : t.foreground = some fg) {hold : Hold}
    (howner : hold.owner = false) : t.yieldBack hold =
      { t with foreground := some ⟨if hold.job.isSome && fg.job = hold.job then none else fg.job,
                                    fg.pids.filter (· ∉ hold.pids)⟩ } := by
  simp only [yieldBack, h, howner, Bool.false_eq_true, if_false]

lemma yieldBack_of_free {t : JobTable} (h : t.foreground = none) {hold : Hold}
    (howner : hold.owner = false) : t.yieldBack hold = t := by
  simp only [yieldBack, h, howner, Bool.false_eq_true, if_false]

end JobTable

/-! ## Holds -/

/-- The table with the holds on the foreground pointer that have not been given back. -/
structure Holding where
  table : JobTable
  /-- Oldest first. -/
  holds : List Hold

namespace Holding

/-- Nobody holds the pointer. -/
def initial : Holding := ⟨.empty, []⟩

/-- What can happen. -/
inductive Event where
  /-- Somebody takes the pointer, or joins those who have it. -/
  | seize (job : Option JobId) (pids : List Pid)
  /-- Somebody gives his hold back. -/
  | yieldBack (hold : Hold)
  /-- Anything else is done to the table. -/
  | apply (op : JobTable.Op)

/-- What an event makes of the table and the holds; nothing if it cannot happen now. -/
def step (s : Holding) : Event → Option Holding
  | .seize job pids =>
    let (hold, t) := s.table.seize job pids
    some ⟨t, s.holds ++ [hold]⟩
  | .yieldBack hold =>
    if hold ∈ s.holds then some ⟨s.table.yieldBack hold, s.holds.erase hold⟩ else none
  | .apply op =>
    if op.writesPointer then none else (s.table.apply op).map fun r => { s with table := r.2 }

/-- What a list of events makes of the table and the holds. -/
def run (s : Holding) (es : List Event) : Option Holding := replay step s es

variable {s s' : Holding}

/-- What an event does to the pointer and the holds. -/
inductive Changes (s s' : Holding) : Event → Prop where
  /-- The pointer was free. -/
  | takes {job : Option JobId} {pids : List Pid} : s.table.foreground = none →
      s'.table.foreground = some ⟨job, pids⟩ → s'.holds = s.holds ++ [⟨none, pids, true⟩] →
      Changes s s' (.seize job pids)
  /-- The pointer was taken. -/
  | joins {job : Option JobId} {pids : List Pid} {fg : Foreground} {own named : Option JobId} :
      s.table.foreground = some fg → s'.table.foreground = some ⟨named, fg.pids ++ pids⟩ →
      s'.holds = s.holds ++ [⟨own, pids, false⟩] → Changes s s' (.seize job pids)
  /-- The owner leaves. -/
  | clears {hold : Hold} : hold ∈ s.holds → hold.owner = true → s'.table.foreground = none →
      s'.holds = s.holds.erase hold → Changes s s' (.yieldBack hold)
  /-- One who has joined leaves. -/
  | leaves {hold : Hold} : hold ∈ s.holds → hold.owner = false →
      (s.table.foreground = none → s'.table.foreground = none) →
      (∀ fg, s.table.foreground = some fg →
        ∃ named, s'.table.foreground = some ⟨named, fg.pids.filter (· ∉ hold.pids)⟩) →
      s'.holds = s.holds.erase hold → Changes s s' (.yieldBack hold)
  | other {op : JobTable.Op} : s'.table.foreground = s.table.foreground → s'.holds = s.holds →
      Changes s s' (.apply op)

lemma step_changes {e : Event} (h : s.step e = some s') : s.Changes s' e := by
  cases e with
  | seize job pids =>
    have hs' : s' = ⟨(s.table.seize job pids).2, s.holds ++ [(s.table.seize job pids).1]⟩ :=
      (Option.some.inj h).symm
    cases hfg : s.table.foreground with
    | none =>
      rw [JobTable.seize_of_free hfg] at hs'
      subst hs'
      exact .takes hfg rfl rfl
    | some fg =>
      rw [JobTable.seize_of_taken hfg] at hs'
      subst hs'
      exact .joins hfg rfl rfl
  | yieldBack hold =>
    simp only [step] at h
    obtain ⟨hmem, heq⟩ := Option.ite_none_right_eq_some.1 h
    obtain rfl := Option.some.inj heq
    cases howner : hold.owner with
    | true =>
      refine .clears hmem howner ?_ rfl
      rw [JobTable.yieldBack_of_owner _ howner]
    | false =>
      refine .leaves hmem howner ?_ ?_ rfl
      · intro hfg
        rw [JobTable.yieldBack_of_free hfg howner, hfg]
      · intro fg hfg
        exact ⟨_, by rw [JobTable.yieldBack_of_taken hfg howner]⟩
  | apply op =>
    simp only [step] at h
    split at h
    case isTrue => cases h
    case isFalse hop =>
      obtain ⟨⟨r, t⟩, happly, rfl⟩ := Option.map_eq_some_iff.1 h
      exact .other (JobTable.foreground_apply happly (by simpa using hop)) rfl

/-! ## Who owns the pointer -/

/-- The pointer has one owner while it is taken, and none while it is free. -/
def Owned (s : Holding) : Prop :=
  s.holds.countP Hold.owner = if s.table.foreground = none then 0 else 1

lemma Owned.step (h : s.Owned) {e : Event} (hstep : s.step e = some s') : s'.Owned := by
  unfold Owned at *
  cases step_changes hstep with
  | takes hfg hfg' hholds => simp [hholds, hfg', h, hfg]
  | joins hfg hfg' hholds => simp [hholds, hfg', h, hfg]
  | clears hmem howner hfg' hholds =>
    have hcount : s.holds.countP Hold.owner ≤ 1 := by
      rw [h]
      split <;> omega
    rw [hholds, List.countP_erase, if_pos ⟨hmem, howner⟩, if_pos hfg']
    omega
  | leaves hmem howner hnone hsome hholds =>
    have hcount : s'.holds.countP Hold.owner = s.holds.countP Hold.owner := by
      rw [hholds, List.countP_erase, if_neg (by simp [howner]), Nat.sub_zero]
    rw [hcount, h]
    cases hfg : s.table.foreground with
    | none => rw [hnone hfg]
    | some fg =>
      obtain ⟨named, hfg'⟩ := hsome fg hfg
      simp [hfg']
  | other hfg hholds => rw [hholds, hfg, h]

/-- While the pointer is taken, somebody else than those who have joined holds it. -/
lemma Owned.exists_owner (h : s.Owned) (hfg : s.table.foreground ≠ none) :
    ∃ hold ∈ s.holds, hold.owner = true := by
  have hpos : 0 < s.holds.countP Hold.owner := by
    rw [h, if_neg hfg]
    exact Nat.one_pos
  exact List.countP_pos_iff.1 hpos

lemma Owned.free_iff (h : s.Owned) :
    s.table.foreground = none ↔ ∀ hold ∈ s.holds, hold.owner = false := by
  constructor
  · intro hfg hold hmem
    have hzero : s.holds.countP Hold.owner = 0 := by rw [h, if_pos hfg]
    simpa using List.countP_eq_zero.1 hzero hold hmem
  · intro hnone
    by_contra hfg
    obtain ⟨hold, hmem, howner⟩ := h.exists_owner hfg
    rw [hnone hold hmem] at howner
    cases howner

/-! ## What the pointer names -/

/-- The pointer names only processes of holds. -/
def Named (s : Holding) : Prop :=
  ∀ fg, s.table.foreground = some fg → ∀ p ∈ fg.pids, ∃ hold ∈ s.holds, p ∈ hold.pids

lemma Named.step (h : s.Named) {e : Event} (hstep : s.step e = some s') : s'.Named := by
  intro fg₁ hfg₁ p hp
  cases step_changes hstep with
  | takes hfg hfg' hholds =>
    obtain rfl := Option.some.inj (hfg'.symm.trans hfg₁)
    exact ⟨_, hholds ▸ List.mem_append_right _ (List.mem_singleton_self _), hp⟩
  | @joins _ _ fg _ _ hfg hfg' hholds =>
    obtain rfl := Option.some.inj (hfg'.symm.trans hfg₁)
    obtain hp | hp := List.mem_append.1 hp
    · obtain ⟨hold, hmem, hhold⟩ := h fg hfg p hp
      exact ⟨hold, hholds ▸ List.mem_append_left _ hmem, hhold⟩
    · exact ⟨_, hholds ▸ List.mem_append_right _ (List.mem_singleton_self _), hp⟩
  | clears hmem howner hfg' hholds =>
    rw [hfg'] at hfg₁
    cases hfg₁
  | @leaves hold hmem howner hnone hsome hholds =>
    cases hfg : s.table.foreground with
    | none =>
      rw [hnone hfg] at hfg₁
      cases hfg₁
    | some fg =>
      obtain ⟨named, hfg'⟩ := hsome fg hfg
      obtain rfl := Option.some.inj (hfg'.symm.trans hfg₁)
      obtain ⟨hp, hnot⟩ := List.mem_filter.1 hp
      obtain ⟨hold', hmem', hhold'⟩ := h fg hfg p hp
      -- The hold that names the process is not the one that is given back.
      have hother : hold' ≠ hold := by
        rintro rfl
        simp [hhold'] at hnot
      exact ⟨hold', hholds ▸ (List.mem_erase_of_ne hother).2 hmem', hhold'⟩
  | other hfg hholds =>
    rw [hholds]
    exact h fg₁ (hfg ▸ hfg₁) p hp

/-- The pointer is free exactly if nobody holds it, and it names the processes of all holds and no
others. -/
structure Covers (s : Holding) : Prop where
  free : s.table.foreground = none ↔ s.holds = []
  names {fg : Foreground} : s.table.foreground = some fg →
    ∀ p, p ∈ fg.pids ↔ ∃ hold ∈ s.holds, p ∈ hold.pids

/-- The event gives no hold back too early: he who owns the pointer is the last to leave, and he who
has joined takes back only processes that no other hold names. -/
def Clean (s : Holding) : Event → Prop
  | .yieldBack hold =>
    if hold.owner then s.holds.erase hold = []
    else ∀ hold' ∈ s.holds.erase hold, ∀ p ∈ hold'.pids, p ∉ hold.pids
  | _ => True

instance (s : Holding) : (e : Event) → Decidable (s.Clean e)
  | .yieldBack hold => inferInstanceAs (Decidable (if hold.owner then s.holds.erase hold = []
      else ∀ hold' ∈ s.holds.erase hold, ∀ p ∈ hold'.pids, p ∉ hold.pids))
  | .seize .. => isTrue trivial
  | .apply _ => isTrue trivial

lemma covers_initial : initial.Covers := ⟨by simp [initial, JobTable.empty], nofun⟩

/-- Who takes the pointer owns it. -/
lemma Covers.seize_free (h : s.Covers) {job : Option JobId} {pids : List Pid}
    (hfg : s.table.foreground = none) (hfg' : s'.table.foreground = some ⟨job, pids⟩)
    (hholds : s'.holds = s.holds ++ [⟨none, pids, true⟩]) : s'.Covers := by
  have hnil : s.holds = [] := h.free.1 hfg
  refine ⟨by simp [hfg', hholds], fun {fg} hfg'' p => ?_⟩
  obtain rfl := Option.some.inj (hfg'.symm.trans hfg'')
  simp [hholds, hnil]

/-- Who joins adds his processes. -/
lemma Covers.seize_taken (h : s.Covers) {fg : Foreground} {own named : Option JobId}
    {pids : List Pid} (hfg : s.table.foreground = some fg)
    (hfg' : s'.table.foreground = some ⟨named, fg.pids ++ pids⟩)
    (hholds : s'.holds = s.holds ++ [⟨own, pids, false⟩]) : s'.Covers := by
  refine ⟨by simp [hfg', hholds], fun {fg'} hfg'' p => ?_⟩
  obtain rfl := Option.some.inj (hfg'.symm.trans hfg'')
  simp only [hholds, List.mem_append, List.mem_singleton, h.names hfg, or_and_right, exists_or,
    exists_eq_left]

/-- The owner leaves the pointer free, which is right if he is the last to leave. -/
lemma covers_yieldBack_owner {hold : Hold} (hfg' : s'.table.foreground = none)
    (hholds : s'.holds = s.holds.erase hold) : s'.Covers ↔ s.holds.erase hold = [] := by
  constructor
  · intro h
    rw [← hholds]
    exact h.free.1 hfg'
  · intro hnil
    refine ⟨by simp [hfg', hholds, hnil], fun {fg} hfg => ?_⟩
    rw [hfg'] at hfg
    cases hfg

/-- He who has joined takes away what he has added, which is right if no other hold names it. -/
lemma Covers.yieldBack_joined (h : s.Covers) (howned : s.Owned) {hold : Hold}
    (hmem : hold ∈ s.holds) (howner : hold.owner = false)
    (hsome : ∀ fg, s.table.foreground = some fg →
      ∃ named, s'.table.foreground = some ⟨named, fg.pids.filter (· ∉ hold.pids)⟩)
    (hholds : s'.holds = s.holds.erase hold) :
    s'.Covers ↔ ∀ hold' ∈ s.holds.erase hold, ∀ p ∈ hold'.pids, p ∉ hold.pids := by
  have hne : s.table.foreground ≠ none := fun hnone => by
    rw [h.free.1 hnone] at hmem
    cases hmem
  obtain ⟨fg, hfg⟩ := Option.ne_none_iff_exists'.1 hne
  obtain ⟨named, hfg'⟩ := hsome fg hfg
  constructor
  · intro h' hold' hmem' p hp hp'
    have hnamed := (h'.names hfg' p).2 ⟨hold', hholds ▸ hmem', hp⟩
    simp [hp'] at hnamed
  · intro hclean
    refine ⟨?_, fun {fg'} hfg'' p => ?_⟩
    · -- The owner is still there.
      obtain ⟨owner, howner', htrue⟩ := howned.exists_owner hne
      have hother : owner ≠ hold := by
        rintro rfl
        rw [howner] at htrue
        cases htrue
      have hstays : owner ∈ s'.holds := hholds ▸ (List.mem_erase_of_ne hother).2 howner'
      simp [hfg', List.ne_nil_of_mem hstays]
    · obtain rfl := Option.some.inj (hfg'.symm.trans hfg'')
      simp only [List.mem_filter, decide_eq_true_eq, h.names hfg, hholds]
      constructor
      · rintro ⟨⟨hold', hmem', hp⟩, hnot⟩
        have hother : hold' ≠ hold := fun heq => hnot (heq ▸ hp)
        exact ⟨hold', (List.mem_erase_of_ne hother).2 hmem', hp⟩
      · rintro ⟨hold', hmem', hp⟩
        exact ⟨⟨hold', List.mem_of_mem_erase hmem', hp⟩, hclean hold' hmem' p hp⟩

/-- **One event** keeps the pointer right exactly if it gives no hold back too early. -/
lemma step_covers_iff (h : s.Covers) (howned : s.Owned) {e : Event} (hstep : s.step e = some s') :
    s'.Covers ↔ s.Clean e := by
  cases step_changes hstep with
  | takes hfg hfg' hholds => exact iff_of_true (h.seize_free hfg hfg' hholds) trivial
  | joins hfg hfg' hholds => exact iff_of_true (h.seize_taken hfg hfg' hholds) trivial
  | clears hmem howner hfg' hholds =>
    rw [covers_yieldBack_owner hfg' hholds, Clean, if_pos howner]
  | leaves hmem howner hnone hsome hholds =>
    rw [h.yieldBack_joined howned hmem howner hsome hholds, Clean, if_neg (by simp [howner])]
  | other hfg hholds =>
    refine iff_of_true ⟨by rw [hfg, hholds, h.free], fun {fg} hfg' p => ?_⟩ trivial
    rw [hholds]
    exact h.names (hfg ▸ hfg') p

/-- The pointer is right in front of every event and at the end. -/
def CoversAll (s : Holding) (es : List Event) : Prop :=
  ∀ front, front <+: es → ∀ s', s.run front = some s' → s'.Covers

/-- Every event gives no hold back too early. -/
def CleanAll (s : Holding) (es : List Event) : Prop :=
  ∀ front e, front ++ [e] <+: es → ∀ s', s.run front = some s' → s'.Clean e

lemma coversAll_cons {s₁ : Holding} {e : Event} {es : List Event} (hstep : s.step e = some s₁) :
    s.CoversAll (e :: es) ↔ s.Covers ∧ s₁.CoversAll es := by
  constructor
  · intro h
    refine ⟨h [] List.nil_prefix s rfl, fun front hfront s' hrun => ?_⟩
    refine h (e :: front) (List.cons_prefix_cons.2 ⟨rfl, hfront⟩) s' ?_
    rw [run, replay, hstep]
    exact hrun
  · rintro ⟨hs, hrest⟩ front hfront s' hrun
    obtain rfl | ⟨front', rfl, hfront'⟩ := List.prefix_cons_iff.1 hfront
    · exact Option.some.inj hrun ▸ hs
    · rw [run, replay, hstep] at hrun
      exact hrest front' hfront' s' hrun

lemma cleanAll_cons {s₁ : Holding} {e : Event} {es : List Event} (hstep : s.step e = some s₁) :
    s.CleanAll (e :: es) ↔ s.Clean e ∧ s₁.CleanAll es := by
  constructor
  · intro h
    refine ⟨h [] e (by simp) s rfl, fun front e' hfront s' hrun => ?_⟩
    refine h (e :: front) e' (List.cons_prefix_cons.2 ⟨rfl, hfront⟩) s' ?_
    rw [run, replay, hstep]
    exact hrun
  · rintro ⟨hs, hrest⟩ front e' hfront s' hrun
    cases front with
    | nil =>
      obtain ⟨rfl, -⟩ := List.cons_prefix_cons.1 hfront
      exact Option.some.inj hrun ▸ hs
    | cons e'' front' =>
      obtain ⟨rfl, hfront'⟩ := List.cons_prefix_cons.1 hfront
      rw [run, replay, hstep] at hrun
      exact hrest front' e' hfront' s' hrun

/-- From where the pointer is right, it stays so along a run exactly if every event of the run is
clean. -/
lemma coversAll_iff_cleanAll {es : List Event} (h : s.Covers) (howned : s.Owned)
    (hrun : s.run es = some s') : s.CoversAll es ↔ s.CleanAll es := by
  induction es generalizing s with
  | nil =>
    refine iff_of_true (fun front hfront s₁ hs₁ => ?_) (fun front e hfront => ?_)
    · obtain rfl := List.prefix_nil.1 hfront
      exact Option.some.inj hs₁ ▸ h
    · simp at hfront
  | cons e es ih =>
    obtain ⟨s₁, hstep, hrest⟩ := Option.bind_eq_some_iff.1 hrun
    rw [coversAll_cons hstep, cleanAll_cons hstep, ← step_covers_iff h howned hstep]
    constructor
    · rintro ⟨-, hall⟩
      have hs₁ : s₁.Covers := hall [] List.nil_prefix s₁ rfl
      exact ⟨hs₁, (ih hs₁ (howned.step hstep) hrest).1 hall⟩
    · rintro ⟨hs₁, hall⟩
      exact ⟨h, (ih hs₁ (howned.step hstep) hrest).2 hall⟩

end Holding

/-! ## Signals -/

namespace Jobs

lemma handleSignal_eq {s : Signal} (hs : s = .interrupt ∨ s = .terminalStop) :
    handleSignal s = .call (.job .foreground) fun
      | some fg => forward fg s
      | none => .done () := by
  obtain rfl | rfl := hs <;> rfl

end Jobs

namespace Holding

variable {s : Holding}

/-- If the shell gets the signal now, then whatever happens meanwhile it sends the signal to the
processes of all holds. -/
def Reached (s : Holding) (sig : Signal) : Prop :=
  ∀ rest, (Jobs.handleSignal sig).Runs (⟨.job .foreground, s.table.foreground⟩ :: rest) () →
    ∀ hold ∈ s.holds, ∀ p ∈ hold.pids, ∃ pids r, p ∈ pids ∧
      (⟨.kill (.processes pids) sig, r⟩ : Exchange) ∈ rest

lemma Covers.reached (h : s.Covers) {sig : Signal}
    (hsig : sig = .interrupt ∨ sig = .terminalStop) : s.Reached sig := by
  intro rest hruns hold hhold p hp
  have hne : s.table.foreground ≠ none := fun hnone =>
    List.ne_nil_of_mem hhold (h.free.1 hnone)
  obtain ⟨fg, hfg⟩ := Option.ne_none_iff_exists'.1 hne
  have hnamed : p ∈ fg.pids := (h.names hfg p).2 ⟨hold, hhold, hp⟩
  rw [Jobs.handleSignal_eq hsig, hfg, Act.runs_call] at hruns
  obtain ⟨r, rest', heq, hforward⟩ := hruns
  cases heq
  simp only [Jobs.forward_eq, Act.runs_bind] at hforward
  obtain ⟨front, back, -, rfl, -, hback⟩ := hforward
  rw [if_neg (by simpa using List.ne_nil_of_mem hnamed), Act.runs_call] at hback
  obtain ⟨r, rest', rfl, -⟩ := hback
  exact ⟨fg.pids, r, hnamed, List.mem_append_right _ List.mem_cons_self⟩

/-- **When the foreground pointer names all that runs in the foreground.**  For any number of
parties who take holds on the pointer and give them back in any order, with anything else that is
done to the table in between but no other writer of the pointer:

* the pointer is free exactly if nobody who owns it holds it, and names processes of holds only;
* it is free exactly while nobody holds it, and names the processes of all holds and no others, all
  the time, if and only if the party that owns it is the last to leave each time, and those who have
  joined take back no process that another hold names as well;
* while it is so, interrupts and terminal stops are sent to the processes of all holds.

**Proof sketch.** To take a hold keeps the pointer right.  An owner who leaves makes it free, so it
stays right if nobody else is there; one who has joined takes his processes out of it, and as the
owner is still there the pointer must not be free (`step_covers_iff`). -/
theorem covers_iff_clean {es : List Event} {s : Holding} (hrun : initial.run es = some s) :
    (s.table.foreground = none ↔ ∀ hold ∈ s.holds, hold.owner = false) ∧ s.Named ∧
    (initial.CoversAll es ↔ initial.CleanAll es) ∧
    ∀ front, front <+: es → ∀ s', initial.run front = some s' → s'.Covers →
      s'.Reached .interrupt ∧ s'.Reached .terminalStop := by
  have howned : s.Owned := replay_keeps (fun hstep h => h.step hstep) hrun rfl
  have hnamed : s.Named := replay_keeps (fun hstep h => h.step hstep) hrun nofun
  refine ⟨howned.free_iff, hnamed, coversAll_iff_cleanAll covers_initial rfl hrun, ?_⟩
  intro _ _ s' _ hcovers
  exact ⟨hcovers.reached (.inl rfl), hcovers.reached (.inr rfl)⟩

/-- A pipeline takes the pointer; a job joins and leaves before the pipeline does. -/
def nested : List Event :=
  [.seize none [7], .seize (some 1) [8], .yieldBack ⟨some 1, [8], false⟩,
    .yieldBack ⟨none, [7], true⟩]

/-- In `nested` every hold is given back in time, so the pointer is right all the time. -/
theorem covers_iff_clean_nested : ∃ s, initial.run nested = some s ∧ initial.CleanAll nested ∧
    initial.CoversAll nested ∧ ∀ front, front <+: nested → ∀ s', initial.run front = some s' →
      s'.Covers → s'.Reached .interrupt ∧ s'.Reached .terminalStop := by
  obtain ⟨s, hrun⟩ : ∃ s, initial.run nested = some s := ⟨_, rfl⟩
  have hclean : initial.CleanAll nested := by
    refine (cleanAll_cons rfl).2 ⟨trivial, (cleanAll_cons rfl).2 ⟨trivial, ?_⟩⟩
    refine (cleanAll_cons rfl).2 ⟨by decide, (cleanAll_cons rfl).2 ⟨by decide, ?_⟩⟩
    intro front e hfront
    simp at hfront
  obtain ⟨-, -, hiff, hreached⟩ := covers_iff_clean hrun
  exact ⟨s, hrun, hclean, hiff.2 hclean, hreached⟩

/-- A pipeline takes the pointer, another one joins, and the first one leaves. -/
def outlived : List Event := [.seize none [7], .seize none [8], .yieldBack ⟨none, [7], true⟩]

/-- The same with threads: somebody runs `fg` for a job, a pipeline of another thread joins, and the
job ends first. -/
def outlivedThreads : List System.Event :=
  let w := World.obliging (.exited 0)
  [.begin (.addPipeline "make" ⟨7, [], []⟩ false none), .turn 0 w, .turn 0 w,
    .begin (.foreground 1), .turn 2 w, .turn 2 w, .turn 2 w,
    .begin (.runForeground "sleep 9" ⟨8, [], []⟩), .turn 3 w,
    .turn 1 w, .turn 1 w, .turn 2 w, .turn 2 w]

/-- **The pointer is lost if its owner leaves first.**  In `outlived`, process 8 still runs in the
foreground, but the pointer is free and an interrupt is sent to nobody.  So it is in
`outlivedThreads`, where the thread that waits for process 8 has not returned. -/
theorem owner_leaves_first :
    (∃ s, initial.run outlived = some s ∧ s.holds = [⟨none, [8], false⟩] ∧
      s.table.foreground = none ∧ ¬ s.Covers ∧ ¬ s.Reached .interrupt) ∧
    ∃ σ past next, System.initial.run outlivedThreads = some σ ∧ σ.table.foreground = none ∧
      (⟨.runForeground "sleep 9" ⟨8, [], []⟩, past, .call (.waitPause 8) next⟩ : Thread) ∈
        σ.threads := by
  constructor
  · obtain ⟨s, hrun, hholds, hfg⟩ : ∃ s, initial.run outlived = some s ∧
        s.holds = [⟨none, [8], false⟩] ∧ s.table.foreground = none := ⟨_, rfl, rfl, rfl⟩
    refine ⟨s, hrun, hholds, hfg, fun hcovers => ?_, fun hreached => ?_⟩
    · have hnil := hcovers.free.1 hfg
      simp [hholds] at hnil
    · have hruns : (Jobs.handleSignal .interrupt).Runs
          [⟨.job .foreground, s.table.foreground⟩] () := by
        rw [Jobs.handleSignal_eq (.inl rfl), hfg]
        exact Act.runs_call.2 ⟨none, [], rfl, Act.runs_done.2 ⟨rfl, rfl⟩⟩
      obtain ⟨_, _, -, hmem⟩ := hreached [] hruns ⟨none, [8], false⟩ (by simp [hholds]) 8 (by simp)
      cases hmem
  · obtain ⟨σ, past, next, hrun, hfg, hth⟩ : ∃ σ past next,
        System.initial.run outlivedThreads = some σ ∧ σ.table.foreground = none ∧
        σ.threads[3]? =
          some ⟨.runForeground "sleep 9" ⟨8, [], []⟩, past, .call (.waitPause 8) next⟩ :=
      ⟨_, _, _, rfl, rfl, rfl⟩
    exact ⟨σ, past, next, hrun, hfg, List.mem_of_getElem? hth⟩

end Holding

end Conch
