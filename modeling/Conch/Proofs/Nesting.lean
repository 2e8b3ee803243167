import Conch.Proofs.Pointer
import Mathlib.Data.List.Lattice

/-!
# Nested holds on the foreground pointer

What runs in the foreground may run something else in the foreground, and that a third thing.  Each
takes a hold on the foreground pointer when it starts and gives it back when it ends, so the holds
are nested: the one that was taken last is given back first.  What a holder has added to the pointer
is taken out of it by value and not by place, and the job is reset only by the holder that has set
it.  That is enough for the pointer to come back exactly, whoever had it before, as long as no two
holders name the same process.

## Main definitions

* `Foreground.named`, `Foreground.attached` — the job and the processes that the pointer names.
* `Conch.Nesting` — the table and the holders that have not given their holds back.
* `Nesting.step`, `Nesting.run` — holds are taken and given back, the last one first, with anything
  else that is done to the table in between.
* `Nesting.pointer` — what a nest of holders makes of the pointer.
* `Nesting.Apart` — the holders name processes of their own.
* `Nesting.Balanced` — events in which every hold that is taken is given back.
* `Nesting.Builds` — the events that lead to a nest, cut at the places where its holds were taken.
* `Nesting.Restores`, `Nesting.NamesOutermost` — the pointer comes back, and what job it names.

## Main results

* `JobTable.yieldBack_seize_iff` — giving a hold back undoes taking it exactly if its processes are
  its own.
* `Nesting.Sound.step`, `Nesting.sound_run` — the pointer is what the nest makes of it, behind one
  event and behind a run.
* `Nesting.builds_run` — every nest has been built hold by hold.
* `Nesting.restores_pointer` — **nested holds restore the pointer**.
-/

set_option autoImplicit false

namespace Conch

/-! ## One hold -/

namespace Foreground

/-- The job that the pointer names, if it is taken and names one. -/
def named (fg : Option Foreground) : Option JobId := fg.bind job

/-- The processes that the pointer names. -/
def attached (fg : Option Foreground) : List Pid := fg.elim [] pids

/-- The pointer when somebody has joined those who hold it. -/
def joined (fg : Option Foreground) (job : Option JobId) (pids : List Pid) : Foreground :=
  ⟨(named fg).or job, attached fg ++ pids⟩

end Foreground

namespace JobTable

open Foreground

/-- Who takes a hold gives the pointer his job if it has none, and adds his processes. -/
lemma foreground_seize (t : JobTable) (job : Option JobId) (pids : List Pid) :
    (t.seize job pids).2.foreground = some (joined t.foreground job pids) := by
  cases hfg : t.foreground with
  | none => rw [seize_of_free hfg]; rfl
  | some fg =>
    rw [seize_of_taken hfg]
    obtain ⟨named, old⟩ := fg
    cases named <;> cases job <;> rfl

/-- **Giving a hold back undoes taking it** exactly if the pointer named none of its processes
before. -/
lemma yieldBack_seize_iff {t t' : JobTable} {job : Option JobId} {pids : List Pid}
    (h : t'.foreground = some (joined t.foreground job pids)) :
    (t'.yieldBack (t.seize job pids).1).foreground = t.foreground ↔
      (attached t.foreground).Disjoint pids := by
  cases hfg : t.foreground with
  | none =>
    rw [seize_of_free hfg, yieldBack_of_owner _ rfl]
    exact iff_of_true rfl (List.disjoint_nil_left pids)
  | some fg =>
    rw [hfg] at h
    rw [seize_of_taken hfg, yieldBack_of_taken h rfl]
    obtain ⟨named, old⟩ := fg
    -- The job is reset exactly if this hold has set it.
    have hjob : (if (if named.isNone && job.isSome then job else none).isSome &&
          named.or job = (if named.isNone && job.isSome then job else none) then none
        else named.or job) = named := by
      cases named <;> cases job <;> simp
    have hpids : (old ++ pids).filter (· ∉ pids) = old ↔ old.Disjoint pids := by
      have hown : pids.filter (· ∉ pids) = [] := by simp
      rw [List.filter_append, hown, List.append_nil, List.filter_eq_self]
      simp [List.Disjoint]
    rw [Option.some.injEq, Foreground.mk.injEq]
    exact (and_iff_right hjob).trans hpids

end JobTable

/-! ## Nests of holds -/

/-- Somebody who has taken a hold on the foreground pointer and has not given it back. -/
structure Holder where
  job : Option JobId
  pids : List Pid
  hold : Hold

/-- The table with the holders that have not given their holds back. -/
structure Nesting where
  table : JobTable
  /-- Innermost first. -/
  holders : List Holder

namespace Nesting

open Foreground

/-- What can happen. -/
inductive Event where
  /-- Somebody takes a hold. -/
  | seize (job : Option JobId) (pids : List Pid)
  /-- The innermost holder gives his hold back. -/
  | yieldBack
  /-- Anything else is done to the table. -/
  | apply (op : JobTable.Op)

/-- Before the first hold is taken; the pointer need not be free. -/
def start (t : JobTable) : Nesting := ⟨t, []⟩

/-- What an event makes of the table and the holders; nothing if it cannot happen now. -/
def step (s : Nesting) : Event → Option Nesting
  | .seize job pids =>
    let (hold, t) := s.table.seize job pids
    some ⟨t, ⟨job, pids, hold⟩ :: s.holders⟩
  | .yieldBack => match s.holders with
    | [] => none
    | holder :: outer => some ⟨s.table.yieldBack holder.hold, outer⟩
  | .apply op =>
    if op.writesPointer then none else (s.table.apply op).map fun r => { s with table := r.2 }

/-- What a list of events makes of the table and the holders. -/
def run (s : Nesting) (es : List Event) : Option Nesting := replay step s es

variable {t : JobTable} {s s' : Nesting} {es : List Event} {base : Option Foreground}

/-- What one event can do. -/
inductive Changes (s : Nesting) : Event → Nesting → Prop where
  | seize (job : Option JobId) (pids : List Pid) : Changes s (.seize job pids)
      ⟨(s.table.seize job pids).2, ⟨job, pids, (s.table.seize job pids).1⟩ :: s.holders⟩
  | yieldBack {holder : Holder} {outer : List Holder} : s.holders = holder :: outer →
      Changes s .yieldBack ⟨s.table.yieldBack holder.hold, outer⟩
  | apply (op : JobTable.Op) {t : JobTable} : t.foreground = s.table.foreground →
      Changes s (.apply op) ⟨t, s.holders⟩

lemma step_changes {e : Event} (h : s.step e = some s') : s.Changes e s' := by
  cases e with
  | seize job pids =>
    obtain rfl := Option.some.inj h
    exact .seize job pids
  | yieldBack =>
    simp only [step] at h
    split at h
    case h_1 => cases h
    case h_2 holder outer hholders =>
      obtain rfl := Option.some.inj h
      exact .yieldBack hholders
  | apply op =>
    simp only [step] at h
    split at h
    case isTrue => cases h
    case isFalse hop =>
      obtain ⟨⟨r, t⟩, happly, rfl⟩ := Option.map_eq_some_iff.1 h
      exact .apply op (JobTable.foreground_apply happly (by simpa using hop))

/-! ## What a nest makes of the pointer -/

/-- What the holders, innermost first, make of the pointer `base`. -/
def pointer (base : Option Foreground) : List Holder → Option Foreground
  | [] => base
  | holder :: outer => some (joined (pointer base outer) holder.job holder.pids)

/-- The job that was named before goes first, then that of the outermost holder that has one. -/
lemma named_pointer (base : Option Foreground) (holders : List Holder) :
    named (pointer base holders) = (named base).or (holders.reverse.findSome? Holder.job) := by
  induction holders with
  | nil => simp [pointer]
  | cons holder outer ih =>
    have hnamed : named (pointer base (holder :: outer)) =
        (named (pointer base outer)).or holder.job := rfl
    rw [hnamed, ih, List.reverse_cons, List.findSome?_append, Option.or_assoc]
    simp

/-- The pointer names what was named before and the processes of the holders. -/
lemma mem_attached_pointer {holders : List Holder} {p : Pid} :
    p ∈ attached (pointer base holders) ↔
      p ∈ attached base ∨ ∃ holder ∈ holders, p ∈ holder.pids := by
  induction holders with
  | nil => simp [pointer]
  | cons holder outer ih =>
    have hattached : attached (pointer base (holder :: outer)) =
        attached (pointer base outer) ++ holder.pids := rfl
    rw [hattached, List.mem_append, ih, or_assoc, List.exists_mem_cons_iff,
      or_comm (a := p ∈ holder.pids)]

/-- Every hold, given back before those around it, takes the pointer back to what these make of
it. -/
def Undone (base : Option Foreground) : List Holder → Prop
  | [] => True
  | holder :: outer => (∀ t : JobTable, t.foreground = pointer base (holder :: outer) →
      (t.yieldBack holder.hold).foreground = pointer base outer) ∧ Undone base outer

/-- The pointer is what the nest makes of it, and the holds will undo that. -/
structure Sound (base : Option Foreground) (s : Nesting) : Prop where
  foreground : s.table.foreground = pointer base s.holders
  undone : Undone base s.holders

/-- Who takes a hold names no process that the pointer named at the start or that another holder
names. -/
def Fresh (base : Option Foreground) (s : Nesting) : Event → Prop
  | .seize _ pids =>
    (attached base).Disjoint pids ∧ ∀ holder ∈ s.holders, holder.pids.Disjoint pids
  | _ => True

/-- **One event** keeps the pointer what the nest makes of it. -/
lemma Sound.step (h : s.Sound base) {e : Event} (hfresh : s.Fresh base e)
    (hstep : s.step e = some s') : s'.Sound base := by
  cases step_changes hstep with
  | seize job pids =>
    have hdisj : (attached s.table.foreground).Disjoint pids := by
      rw [h.foreground]
      intro p hp hpids
      obtain hbase | ⟨holder, hholder, hp⟩ := mem_attached_pointer.1 hp
      · exact hfresh.1 hbase hpids
      · exact hfresh.2 holder hholder hp hpids
    refine ⟨?_, fun t ht => ?_, h.undone⟩
    · rw [JobTable.foreground_seize, h.foreground]
      rfl
    · rw [← h.foreground]
      exact (JobTable.yieldBack_seize_iff (h.foreground ▸ ht)).2 hdisj
  | @yieldBack holder outer hholders =>
    have hundone := h.undone
    rw [hholders] at hundone
    exact ⟨hundone.1 _ (hholders ▸ h.foreground), hundone.2⟩
  | apply op hfg => exact ⟨hfg.trans h.foreground, h.undone⟩

/-- The holders name processes of their own. -/
def Apart (t : JobTable) (es : List Event) : Prop :=
  ∀ front e, front ++ [e] <+: es → ∀ s, (start t).run front = some s → s.Fresh t.foreground e

/-- **A run of holders with processes of their own** keeps the pointer what the nest makes of it. -/
lemma sound_run {front : List Event} (hapart : Apart t es) (hfront : front <+: es)
    (hrun : (start t).run front = some s) : s.Sound t.foreground := by
  refine replay_induct (P := fun front s => front <+: es → s.Sound t.foreground) ?_ ?_ hrun hfront
  · exact fun _ => ⟨rfl, trivial⟩
  · intro front s₁ e s₂ hs₁ hstep ih hfront
    have hsound := ih ((List.prefix_append front [e]).trans hfront)
    exact hsound.step (hapart front e hfront s₁ hs₁) hstep

/-- The lists of processes for which holds are taken. -/
def pidLists (es : List Event) : List (List Pid) :=
  es.filterMap fun
    | .seize _ pids => some pids
    | _ => none

lemma mem_pidLists (hrun : (start t).run es = some s) :
    ∀ holder ∈ s.holders, holder.pids ∈ pidLists es := by
  refine replay_induct (P := fun es s => ∀ holder ∈ s.holders, holder.pids ∈ pidLists es) ?_ ?_ hrun
  · simp [start]
  · intro front s₁ e s₂ _ hstep ih holder hholder
    rw [pidLists, List.filterMap_append]
    cases step_changes hstep with
    | seize job pids =>
      obtain rfl | hholder := List.mem_cons.1 hholder
      · simp
      · exact List.mem_append_left _ (ih holder hholder)
    | yieldBack hholders =>
      have hold := ih holder (hholders ▸ List.mem_cons_of_mem _ hholder)
      exact List.mem_append_left _ hold
    | apply op _ => exact List.mem_append_left _ (ih holder hholder)

/-- Holders have processes of their own if all lists of processes are disjoint from each other and
from what the pointer named at the start. -/
lemma apart_of_disjoint (hdisj : (attached t.foreground :: pidLists es).Pairwise List.Disjoint) :
    Apart t es := by
  intro front e hfront s hrun
  cases e with
  | seize job pids =>
    have hsub : (pidLists (front ++ [.seize job pids])).Sublist (pidLists es) :=
      hfront.sublist.filterMap _
    have hpair := hdisj.sublist (hsub.cons_cons (attached t.foreground))
    rw [pidLists, List.filterMap_append, ← List.cons_append, List.pairwise_append] at hpair
    have hpids : ∀ old ∈ attached t.foreground :: pidLists front, old.Disjoint pids :=
      fun old hold => hpair.2.2 old hold pids (by simp)
    exact ⟨hpids _ List.mem_cons_self, fun holder hholder =>
      hpids _ (List.mem_cons_of_mem _ (mem_pidLists hrun holder hholder))⟩
  | yieldBack => trivial
  | apply op => trivial

/-! ## Where the holds of a nest were taken -/

/-- The holds that are taken in these events, and no others, are given back in them. -/
inductive Balanced : List Event → Prop where
  | nil : Balanced []
  | apply (op : JobTable.Op) : Balanced [.apply op]
  | nest (job : Option JobId) (pids : List Pid) {inner : List Event} : Balanced inner →
      Balanced (.seize job pids :: inner ++ [.yieldBack])
  | append {front back : List Event} : Balanced front → Balanced back → Balanced (front ++ back)

/-- The events build the nest: they are balanced behind the place where its innermost hold was
taken, and the events in front of that place build the nest around it. -/
inductive Builds (t : JobTable) : List Event → List Holder → Prop where
  | nil {es : List Event} : Balanced es → Builds t es []
  | cons (holder : Holder) {before inner : List Event} {s : Nesting} :
      (start t).run before = some s → Builds t before s.holders → Balanced inner →
      Builds t (before ++ .seize holder.job holder.pids :: inner) (holder :: s.holders)

lemma Builds.append {holders : List Holder} (h : Builds t es holders) {more : List Event}
    (hmore : Balanced more) : Builds t (es ++ more) holders := by
  cases h with
  | nil hes => exact .nil (hes.append hmore)
  | cons holder hrun houter hinner =>
    rw [List.append_assoc]
    exact .cons holder hrun houter (hinner.append hmore)

/-- **Every nest has been built** hold by hold. -/
lemma builds_run (hrun : (start t).run es = some s) : Builds t es s.holders := by
  refine replay_induct (P := fun es s => Builds t es s.holders) (.nil .nil) ?_ hrun
  intro front s₁ e s₂ hs₁ hstep hbuilds
  cases step_changes hstep with
  | seize job pids => exact .cons ⟨job, pids, _⟩ hs₁ hbuilds .nil
  | @yieldBack holder outer hholders =>
    rw [hholders] at hbuilds
    cases hbuilds with
    | cons _ _ houter hinner =>
      -- From taking this hold to giving it back the events are balanced as a whole.
      simpa using houter.append (hinner.nest holder.job holder.pids)
  | apply op _ => exact hbuilds.append (.apply op)

/-! ## The pointer comes back -/

/-- Every hold that is given back leaves the pointer as it was when the hold was taken: the events
between the two are balanced, and the pointer is the same in front of them and behind. -/
def Restores (t : JobTable) (es : List Event) : Prop :=
  ∀ front, front ++ [.yieldBack] <+: es → ∃ before job pids inner s₁ s₂,
    front = before ++ .seize job pids :: inner ∧ Balanced inner ∧
    (start t).run before = some s₁ ∧ (start t).run (front ++ [.yieldBack]) = some s₂ ∧
    s₂.table.foreground = s₁.table.foreground

/-- At every moment the pointer names the job that it named at the start, or else that of the
outermost holder that has one and has not given its hold back. -/
def NamesOutermost (t : JobTable) (es : List Event) : Prop :=
  ∀ front, front <+: es → ∃ s, (start t).run front = some s ∧
    named s.table.foreground = (named t.foreground).or (s.holders.reverse.findSome? Holder.job)

/-- **Nested holds restore the pointer.**  Whatever the pointer was at the start: if the hold that
was taken last is always given back first, and the holders name processes of their own, then every
hold that is given back leaves the pointer exactly as it was when the hold was taken, and the
pointer always names its first job, or else that of the outermost holder that has one.

**Proof sketch.** The pointer is at any time a function of what it was at the start and of the
holders that are there (`sound_run`): the innermost undoes what he has added, as his processes are
his own and the job is reset exactly if he has set it (`yieldBack_seize_iff`).  When a holder has
left, those are there that were there when he came (`builds_run`), so the pointer is as it was. -/
theorem restores_pointer (hrun : (start t).run es = some s)
    (hdisj : (attached t.foreground :: pidLists es).Pairwise List.Disjoint) :
    Restores t es ∧ NamesOutermost t es := by
  have hapart : Apart t es := apart_of_disjoint hdisj
  constructor
  · intro front hfront
    obtain ⟨s₂, hs₂⟩ := exists_replay_of_prefix hrun hfront
    obtain ⟨s', hs', hstep⟩ := exists_replay_of_concat hs₂
    have hbuilds := builds_run hs'
    cases step_changes hstep with
    | @yieldBack holder outer hholders =>
      rw [hholders] at hbuilds
      cases hbuilds with
      | @cons _ before inner s₁ hs₁ _ hinner =>
        refine ⟨before, holder.job, holder.pids, inner, s₁, _, rfl, hinner, hs₁, hs₂, ?_⟩
        have hbefore : before <+: es :=
          (List.prefix_append before _).trans ((List.prefix_append _ _).trans hfront)
        rw [(sound_run hapart hfront hs₂).foreground, (sound_run hapart hbefore hs₁).foreground]
  · intro front hfront
    obtain ⟨s', hs'⟩ := exists_replay_of_prefix hrun hfront
    refine ⟨s', hs', ?_⟩
    rw [(sound_run hapart hfront hs').foreground, named_pointer]

/-- Somebody else has the pointer and has given it no job. -/
def occupied : JobTable := { JobTable.empty with foreground := some ⟨none, [1]⟩ }

/-- A pipeline takes a hold, in it a job and in that the same job again; later another job. -/
def shared : List Event :=
  [.seize none [2], .seize (some 7) [3, 3], .seize (some 7) [4], .apply .list, .yieldBack,
    .yieldBack, .seize (some 9) [], .yieldBack, .yieldBack]

/-- In `shared` the pointer comes back every time. -/
theorem restores_pointer_shared : (∃ s, (start occupied).run shared = some s) ∧
    (attached occupied.foreground :: pidLists shared).Pairwise List.Disjoint ∧
    Restores occupied shared ∧ NamesOutermost occupied shared := by
  obtain ⟨s, hrun⟩ : ∃ s, (start occupied).run shared = some s := ⟨_, rfl⟩
  have hdisj : (attached occupied.foreground :: pidLists shared).Pairwise List.Disjoint := by
    simp [attached, occupied, pidLists, shared]
  exact ⟨⟨s, hrun⟩, hdisj, restores_pointer hrun hdisj⟩

end Nesting

end Conch
