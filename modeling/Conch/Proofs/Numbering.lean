import Conch.Proofs.Threads

/-!
# The numbers of jobs

A thread that lists a job takes the next number first and puts the job into the table afterwards.
In between other threads may take numbers, list their jobs, and take jobs out of the table, so jobs
come into the table in any order.  Here the two halves are steps of their own.  While numbers last,
every number is handed out once, in the order of counting, and comes into the table once.

## Main definitions

* `JobTable.allocate`, `JobTable.insert` — the two halves of `JobTable.register`.
* `Conch.Registry` — the table, the numbers handed out, and those whose jobs are on their way.
* `Registry.step`, `Registry.run` — the halves of any number of registrations, in any order and
  with anything else that is done to the table in between.
* `Registry.Changes` — what one event can do.
* `Registry.Counted` — the numbers have been counted up.
* `Registry.Issued` — a job has been listed under a number.

## Main results

* `Registry.run_counted`, `Registry.Issued.run` — what holds behind every run.
* `Registry.numbers_never_reused` — **numbers of jobs are not used again**.
* `System.Arises.registry` — what threads do to the table is such a run.
-/

set_option autoImplicit false

namespace Conch

/-! ## The two halves of a registration -/

namespace JobTable

/-- Take the next number. -/
def allocate (t : JobTable) : JobId × JobTable :=
  (t.nextId, { t with nextId := (t.nextId + 1) % (Job.maxId + 1) })

/-- List a job under a number that has been taken. -/
def insert (t : JobTable) (id : JobId) (j : Job) : JobTable :=
  { t with jobs := insertJob id j t.jobs }

/-- To register a job is to take a number and to list the job under it. -/
lemma register_eq (t : JobTable) (j : Job) :
    t.register j = (t.allocate.1, t.allocate.2.insert t.allocate.1 j) :=
  rfl

lemma get?_insert (t : JobTable) (id i : JobId) (j : Job) :
    (t.insert id j).get? i = if i = id then some j else t.get? i :=
  lookup_insertJob ..

lemma Ordered.insert {t : JobTable} (h : t.Ordered) (id : JobId) (j : Job) :
    (t.insert id j).Ordered :=
  pairwise_insertJob id j h

end JobTable

/-! ## Registrations in halves -/

/-- The table while jobs are being listed. -/
structure Registry where
  table : JobTable
  /-- The numbers that have been handed out, in the order of time. -/
  handed : List JobId
  /-- The numbers that have been handed out and whose jobs have not been listed. -/
  pending : List JobId

namespace Registry

/-- An empty table. -/
def initial : Registry := ⟨.empty, [], []⟩

/-- What can happen. -/
inductive Event where
  /-- Somebody who is going to list a job takes a number. -/
  | allocate
  /-- Somebody who has taken a number lists his job. -/
  | insert (id : JobId) (j : Job)
  /-- Anything else is done to the table. -/
  | apply (op : JobTable.Op)
  /-- A leader that nobody waits for is looked at. -/
  | look (id : JobId) (seen : Except Errno (Option Transition))

/-- What an event makes of the table; nothing if it cannot happen now. -/
def step (s : Registry) : Event → Option Registry
  | .allocate =>
    let (id, t) := s.table.allocate
    some ⟨t, s.handed ++ [id], s.pending ++ [id]⟩
  | .insert id j =>
    if id ∈ s.pending then some ⟨s.table.insert id j, s.handed, s.pending.erase id⟩ else none
  | .apply op =>
    if op.isRegister then none else (s.table.apply op).map fun r => { s with table := r.2 }
  | .look id seen => some { s with table := s.table.settle id seen }

/-- What a list of events makes of the table. -/
def run (s : Registry) (es : List Event) : Option Registry := replay step s es

variable {s s' : Registry}

/-- What one event can do. -/
inductive Changes (s : Registry) : Event → Registry → Prop where
  | allocate : Changes s .allocate
      ⟨s.table.allocate.2, s.handed ++ [s.table.nextId], s.pending ++ [s.table.nextId]⟩
  | insert {id : JobId} (j : Job) : id ∈ s.pending →
      Changes s (.insert id j) ⟨s.table.insert id j, s.handed, s.pending.erase id⟩
  | apply {op : JobTable.Op} {r : op.Result} {t : JobTable} : op.isRegister = false →
      s.table.apply op = some (r, t) → Changes s (.apply op) { s with table := t }
  | look (id : JobId) (seen : Except Errno (Option Transition)) :
      Changes s (.look id seen) { s with table := s.table.settle id seen }

lemma step_changes {e : Event} (h : s.step e = some s') : s.Changes e s' := by
  cases e with
  | allocate =>
    obtain rfl := Option.some.inj h
    exact .allocate
  | insert id j =>
    simp only [step] at h
    obtain ⟨hid, heq⟩ := Option.ite_none_right_eq_some.1 h
    obtain rfl := Option.some.inj heq
    exact .insert j hid
  | apply op =>
    simp only [step] at h
    split at h
    case isTrue => cases h
    case isFalse hop =>
      obtain ⟨⟨r, t⟩, happly, rfl⟩ := Option.map_eq_some_iff.1 h
      exact .apply (by simpa using hop) happly
  | look id seen =>
    obtain rfl := Option.some.inj h
    exact .look id seen

/-- The count of the numbers handed out does not go down. -/
lemma step_length_le {e : Event} (h : s.step e = some s') :
    s.handed.length ≤ s'.handed.length := by
  cases step_changes h with
  | allocate =>
    rw [List.length_append]
    exact Nat.le_add_right ..
  | insert _ _ => exact Nat.le_refl _
  | apply _ _ => exact Nat.le_refl _
  | look _ _ => exact Nat.le_refl _

lemma run_length_le {es : List Event} (h : s.run es = some s') :
    s.handed.length ≤ s'.handed.length :=
  replay_keeps (fun hstep hle => Nat.le_trans hle (step_length_le hstep)) h (Nat.le_refl _)

/-! ## Counting -/

/-- The numbers have been counted up, and each has come into the table once at most. -/
structure Counted (s : Registry) : Prop where
  handed : s.handed = List.range' 1 s.handed.length
  next : s.table.nextId = (s.handed.length + 1) % (Job.maxId + 1)
  /-- What is on its way is on its way once. -/
  once : s.pending.Nodup
  pending {id : JobId} : id ∈ s.pending → id ∈ s.handed
  listed {id : JobId} {j : Job} : s.table.get? id = some j → id ∈ s.handed ∧ id ∉ s.pending
  ordered : s.table.Ordered

/-- While numbers last, the next one is one more than have been handed out. -/
lemma Counted.nextId_eq (h : s.Counted) (hfew : s.handed.length < Job.maxId) :
    s.table.nextId = s.handed.length + 1 := by
  rw [h.next]
  exact Nat.mod_eq_of_lt (by omega)

lemma Counted.mem_handed (h : s.Counted) {id : JobId} :
    id ∈ s.handed ↔ 1 ≤ id ∧ id ≤ s.handed.length := by
  rw [h.handed, List.mem_range'_1, List.length_range']
  simp only [JobId] at *
  omega

/-- While numbers last, the next one has not been handed out. -/
lemma Counted.nextId_notMem (h : s.Counted) (hfew : s.handed.length < Job.maxId) :
    s.table.nextId ∉ s.handed := by
  rw [h.mem_handed, h.nextId_eq hfew]
  exact fun hle => Nat.not_succ_le_self _ hle.2

/-- What changes jobs but lists none keeps the numbers counted. -/
lemma Counted.of_table (h : s.Counted) {t : JobTable} (hnext : t.nextId = s.table.nextId)
    (hlisted : ∀ id j', t.get? id = some j' → ∃ j, s.table.get? id = some j)
    (hordered : t.Ordered) : Counted { s with table := t } := by
  refine ⟨h.handed, hnext.trans h.next, h.once, h.pending, fun {id j'} hj' => ?_, hordered⟩
  obtain ⟨j, hj⟩ := hlisted id j' hj'
  exact h.listed hj

lemma Counted.allocate (h : s.Counted) (hfew : s.handed.length < Job.maxId) :
    Counted ⟨s.table.allocate.2, s.handed ++ [s.table.nextId], s.pending ++ [s.table.nextId]⟩ := by
  have hnext := h.nextId_eq hfew
  have hnew := h.nextId_notMem hfew
  refine ⟨?_, ?_, ?_, fun {id} hid => ?_, fun {id j} hj => ?_, h.ordered⟩
  · rw [List.length_append, List.length_singleton, List.range'_1_concat, ← h.handed, hnext,
      Nat.add_comm 1]
  · simp only [JobTable.allocate, hnext, List.length_append, List.length_singleton]
  · refine List.nodup_append.2 ⟨h.once, List.pairwise_singleton _ _, fun id hid next hnext' => ?_⟩
    rintro rfl
    exact hnew (List.mem_singleton.1 hnext' ▸ h.pending hid)
  · obtain hid | hid := List.mem_append.1 hid
    · exact List.mem_append_left _ (h.pending hid)
    · exact List.mem_append_right _ hid
  · obtain ⟨hhanded, hpending⟩ := h.listed hj
    refine ⟨List.mem_append_left _ hhanded, fun hid => ?_⟩
    obtain hid | hid := List.mem_append.1 hid
    · exact hpending hid
    · exact hnew (List.mem_singleton.1 hid ▸ hhanded)

lemma Counted.insert (h : s.Counted) {id : JobId} (hid : id ∈ s.pending) (j : Job) :
    Counted ⟨s.table.insert id j, s.handed, s.pending.erase id⟩ := by
  refine ⟨h.handed, h.next, h.once.erase id, fun hi => ?_, fun {i j'} hj' => ?_,
    h.ordered.insert id j⟩
  · exact h.pending (List.mem_of_mem_erase hi)
  · rw [JobTable.get?_insert] at hj'
    split at hj'
    case isTrue hi =>
      subst hi
      exact ⟨h.pending hid, h.once.not_mem_erase⟩
    case isFalse hi =>
      obtain ⟨hhanded, hpending⟩ := h.listed hj'
      exact ⟨hhanded, fun hmem => hpending (List.mem_of_mem_erase hmem)⟩

/-- No job comes into the table but by its registration. -/
lemma listed_of_apply {t t' : JobTable} {op : JobTable.Op} {r : op.Result}
    (h : t.apply op = some (r, t')) (hop : op.isRegister = false) {id : JobId} {j' : Job}
    (hj' : t'.get? id = some j') : ∃ j, t.get? id = some j := by
  obtain ⟨rfl, -⟩ | ⟨j, hj, -⟩ := JobTable.get?_of_apply h hj'
  · cases hop
  · exact ⟨j, hj⟩

lemma Counted.step (h : s.Counted) {e : Event} (hstep : s.step e = some s')
    (hfew : s'.handed.length ≤ Job.maxId) : s'.Counted := by
  cases step_changes hstep with
  | allocate =>
    rw [List.length_append, List.length_singleton] at hfew
    exact h.allocate hfew
  | insert j hid => exact h.insert hid j
  | apply hop happly =>
    refine h.of_table ?_ (fun id j' => listed_of_apply happly hop) (h.ordered.apply happly)
    simpa [hop] using JobTable.nextId_apply happly
  | look id seen =>
    refine h.of_table (JobTable.nextId_settle ..) (fun i j' hj' => ?_) (h.ordered.settle ..)
    obtain ⟨j, hj, -⟩ := JobTable.get?_of_settle hj'
    exact ⟨j, hj⟩

/-- A job has been listed under the number. -/
def Issued (s : Registry) (id : JobId) : Prop := id ∈ s.handed ∧ id ∉ s.pending

/-- A number is on its way once: the next number is a new one. -/
lemma Issued.step {id : JobId} (h : s.Issued id) (hcounted : s.Counted) {e : Event}
    (hstep : s.step e = some s') (hfew : s'.handed.length ≤ Job.maxId) : s'.Issued id := by
  obtain ⟨hhanded, hpending⟩ := h
  cases step_changes hstep with
  | allocate =>
    rw [List.length_append, List.length_singleton] at hfew
    refine ⟨List.mem_append_left _ hhanded, fun hid => ?_⟩
    obtain hid | hid := List.mem_append.1 hid
    · exact hpending hid
    · exact hcounted.nextId_notMem hfew (List.mem_singleton.1 hid ▸ hhanded)
  | insert _ _ => exact ⟨hhanded, fun hid => hpending (List.mem_of_mem_erase hid)⟩
  | apply _ _ => exact ⟨hhanded, hpending⟩
  | look _ _ => exact ⟨hhanded, hpending⟩

/-- Once a job has been listed under a number, no step lists another one under it. -/
lemma Issued.listed_of_step {id : JobId} (h : s.Issued id) {e : Event}
    (hstep : s.step e = some s') {j' : Job} (hj' : s'.table.get? id = some j') :
    ∃ j, s.table.get? id = some j := by
  cases step_changes hstep with
  | allocate => exact ⟨j', hj'⟩
  | @insert i _ hi =>
    have hne : id ≠ i := fun heq => h.2 (heq ▸ hi)
    rw [JobTable.get?_insert, if_neg hne] at hj'
    exact ⟨j', hj'⟩
  | apply hop happly => exact listed_of_apply happly hop hj'
  | look _ _ =>
    obtain ⟨j, hj, -⟩ := JobTable.get?_of_settle hj'
    exact ⟨j, hj⟩

/-- Behind every run a number under which a job has been listed still is one, and the job is in the
table only if it was there before. -/
lemma Issued.run {es : List Event} {id : JobId} (h : s.Issued id) (hcounted : s.Counted)
    (hrun : s.run es = some s') (hfew : s'.handed.length ≤ Job.maxId) :
    s'.Issued id ∧ ∀ j', s'.table.get? id = some j' → ∃ j, s.table.get? id = some j := by
  induction es generalizing s with
  | nil =>
    obtain rfl := Option.some.inj hrun
    exact ⟨h, fun j' hj' => ⟨j', hj'⟩⟩
  | cons e es ih =>
    obtain ⟨s₁, hstep, hrest⟩ := Option.bind_eq_some_iff.1 hrun
    have hless := Nat.le_trans (run_length_le hrest) hfew
    obtain ⟨hissued, hlisted⟩ := ih (h.step hcounted hstep hless) (hcounted.step hstep hless) hrest
    refine ⟨hissued, fun j' hj' => ?_⟩
    obtain ⟨j₁, hj₁⟩ := hlisted j' hj'
    exact h.listed_of_step hstep hj₁

end Registry

/-! ## Threads -/

/-- The number that an exchange hands out. -/
def Exchange.number? : Exchange → Option JobId
  | ⟨.job (.register _), id⟩ => some id
  | _ => none

namespace System

variable {σ σ' : System}

/-- The numbers that have been handed out to threads, in the order of time. -/
def numbers (σ : System) : List JobId := σ.log.filterMap fun m => Exchange.number? m.exchange

/-- The registry has the table of the system and has handed out the same numbers; no job is on its
way. -/
structure Mirrors (σ : System) (s : Registry) : Prop where
  table : s.table = σ.table
  handed : s.handed = σ.numbers
  pending : s.pending = []

lemma Mirrors.advance {s : Registry} (h : σ.Mirrors s) {i : Nat} {th : Thread} {e : Exchange}
    {rest : Act th.service.Result} {t : JobTable} (he : Exchange.number? e = none) :
    (σ.advance i th e rest t).Mirrors { s with table := t } := by
  refine ⟨rfl, ?_, h.pending⟩
  simp [numbers, System.advance, he, h.handed]

lemma Mirrors.advance_register {s : Registry} (h : σ.Mirrors s) {i : Nat} {th : Thread} {j : Job}
    {id : JobId} {rest : Act th.service.Result} {t : JobTable}
    (happly : σ.table.apply (.register j) = some (id, t)) :
    ∃ s', s.run [.allocate, .insert id j] = some s' ∧
      (σ.advance i th ⟨.job (.register j), id⟩ rest t).Mirrors s' := by
  obtain ⟨rfl, rfl⟩ : σ.table.nextId = id ∧ (σ.table.register j).2 = t := by
    simpa [JobTable.apply, JobTable.register] using happly
  refine ⟨⟨(σ.table.register j).2, σ.numbers ++ [σ.table.nextId], []⟩, ?_, rfl, ?_, rfl⟩
  · simp [Registry.run, replay, Registry.step, h.table, h.handed, h.pending, JobTable.register_eq,
      JobTable.allocate]
  · simp [numbers, System.advance, Exchange.number?]

/-- A small step is a step of the registry, or two. -/
lemma Moves.mirrors (h : σ.Moves σ') {s : Registry} (hs : σ.Mirrors s) :
    ∃ es s', s.run es = some s' ∧ σ'.Mirrors s' := by
  cases h with
  | begin _ => exact ⟨[], s, rfl, hs.table, hs.handed, hs.pending⟩
  | become _ _ => exact ⟨[], s, rfl, hs.table, hs.handed, hs.pending⟩
  | @look id p seen _ =>
    refine ⟨[.look id seen], _, rfl, ?_, hs.handed, hs.pending⟩
    rw [hs.table]
    rfl
  | @exchange _ _ _ c _ r t _ _ hanswer =>
    cases hanswer with
    | @job op r _ happly =>
      cases hregister : op.isRegister with
      | true =>
        cases op with
        | register j => exact ⟨_, hs.advance_register happly⟩
        | _ => cases hregister
      | false =>
        have hnumber : Exchange.number? ⟨.job op, r⟩ = none := by
          cases op <;> first | rfl | cases hregister
        refine ⟨[.apply op], { s with table := t }, ?_, hs.advance hnumber⟩
        simp [Registry.run, replay, Registry.step, hregister, hs.table, happly]
    | other _ hother =>
      have hnumber : Exchange.number? ⟨c, r⟩ = none := by
        cases c <;> first | rfl | exact absurd rfl (hother _)
      refine ⟨[], { s with table := σ.table }, ?_, hs.advance hnumber⟩
      rw [← hs.table]
      rfl

/-- **What threads do to the table is a run of the registry**, in which each registration happens at
once. -/
theorem Arises.registry (h : σ.Arises) :
    ∃ es s, Registry.initial.run es = some s ∧ σ.Mirrors s := by
  induction h with
  | refl => exact ⟨[], _, rfl, rfl, rfl, rfl⟩
  | move _ hmove ih =>
    obtain ⟨es, s, hrun, hs⟩ := ih
    obtain ⟨es', s', hrun', hs'⟩ := hmove.mirrors hs
    refine ⟨es ++ es', s', ?_, hs'⟩
    rw [Registry.run, replay_append, ← Registry.run, hrun]
    exact hrun'

end System

end Conch
