import Conch.Proofs.Exits

/-!
# Chains as trees

The pipelines of a block stand in a flat list, with a connector in front of each but the first, and
a loop goes through the list: it skips a pipeline that is not wanted and leaves at a request to
exit.  The meaning of a chain is a tree in which every connector has a left and a right side, and
connectors associate to the left with equal precedence.  Here the loop is shown to evaluate that
tree: both are the same tree of requests, so they run the same pipelines in the same order and come
to the same status and session, however the system answers.

What a pipeline finds in `$?` is read off a run with a record (`Command.record`).

## Main definitions

* `Conch.Chain` — pipelines joined by connectors, as a tree; `Chain.eval` — its evaluation.
* `Block.chain` — the tree of a block, nested to the left.
* `Mark.SeesLast` — each pipeline finds in `$?` how the last one has ended.

## Main results

* `Link.eval_chained` — the loop goes on where the tree on its left has ended.
* `Command.record_tracks` — on a session, `$?` follows the pipelines that run on it.
* `Block.run_eq_eval_chain` — **a block evaluates its left-nested tree**.
-/

set_option autoImplicit false

namespace Conch

/-! ## Trees of pipelines -/

/-- The right side runs behind a left side with this status: for `&&` if that has succeeded, for
`||` if it has failed. -/
def Connector.Continues : Connector → Int → Prop
  | .and, status => status = 0
  | .or, status => status ≠ 0

instance (connector : Connector) (status : Int) : Decidable (connector.Continues status) :=
  match connector with
  | .and => inferInstanceAs (Decidable (status = 0))
  | .or => inferInstanceAs (Decidable (status ≠ 0))

lemma Connector.wants_iff {connector : Connector} {status : Int} :
    connector.wants status = true ↔ connector.Continues status := by
  cases connector <;> exact decide_eq_true_iff

/-- Pipelines joined by connectors. -/
inductive Chain where
  | pipeline (p : Pipeline)
  | join (left : Chain) (connector : Connector) (right : Chain)

namespace Chain

/-- Evaluate a chain.  The left side comes first, and the right side runs only if its connector goes
on behind the status of the left side.  A left side that asks to exit ends the evaluation. -/
def eval : Chain → Streams → Session → Act (Int × Session)
  | .pipeline p, streams, s => do
    let (status, s) ← p.run streams s
    return (status, { s with status })
  | .join left connector right, streams, s => do
    let (status, s) ← left.eval streams s
    if s.exitRequested.isSome then return (status, s)
    else if connector.Continues status then right.eval streams s
    else return (status, s)

/-- Evaluate a chain with a record of the pipelines that run. -/
def record : Chain → Streams → Session → Act Recorded
  | .pipeline p, streams, s => do
    let ((status, s), marks) ← p.record streams s
    return ((status, { s with status }), marks)
  | .join left connector right, streams, s => do
    let ((status, s), marks) ← left.record streams s
    if s.exitRequested.isSome then return ((status, s), marks)
    else if connector.Continues status then
      let (r, more) ← right.record streams s
      return (r, marks ++ more)
    else return ((status, s), marks)

/-- The record makes no difference to an evaluation. -/
lemma fst_record (streams : Streams) (c : Chain) (s : Session) :
    Prod.fst <$> c.record streams s = c.eval streams s := by
  induction c generalizing s with
  | pipeline p =>
    rw [record, eval, ← Pipeline.fst_record streams p s, map_bind, bind_map_left]
    rfl
  | join left connector right ihl ihr =>
    rw [record, eval, ← ihl, map_bind, bind_map_left]
    refine bind_congr fun r => ?_
    obtain ⟨⟨status, s'⟩, marks⟩ := r
    dsimp only
    split
    · rfl
    · split
      · rw [← ihr, map_bind, map_eq_pure_bind]
        rfl
      · rfl

end Chain

/-- A chain with one more pipeline on its right. -/
def Link.onto (left : Chain) (link : Link) : Chain :=
  .join left link.connector (.pipeline link.pipeline)

/-- The tree of a block: its connectors associate to the left, whatever they are. -/
def Block.chain : Block → Chain
  | ⟨first, rest⟩ => rest.foldl Link.onto (.pipeline first)

/-! ## The loop and the tree -/

namespace Link

lemma onto_mk (left : Chain) (connector : Connector) (pipeline : Pipeline) :
    onto left ⟨connector, pipeline⟩ = .join left connector (.pipeline pipeline) := rfl

/-- On a session that asks to exit, no chained pipeline runs. -/
lemma runAll_of_exits {s : Session} (hs : s.exitRequested.isSome = true) (links : List Link)
    (streams : Streams) (status : Int) : runAll links streams status s = pure (status, s) := by
  match links with
  | [] => rfl
  | ⟨_, _⟩ :: _ => rw [runAll, if_pos hs]

/-- **The loop goes on where the tree on its left has ended.**  The tree that grows on the left is
arbitrary, so that each pipeline of the loop becomes the right side of all in front of it. -/
lemma eval_chained (streams : Streams) (links : List Link) (left : Chain) (s : Session) :
    (links.foldl onto left).eval streams s =
      left.eval streams s >>= fun r => runAll links streams r.1 r.2 := by
  induction links generalizing left with
  | nil => exact (bind_pure _).symm
  | cons link rest ih =>
    obtain ⟨connector, pipeline⟩ := link
    rw [List.foldl_cons, ih, onto_mk, Chain.eval, bind_assoc]
    refine bind_congr fun r => ?_
    obtain ⟨status, s'⟩ := r
    rw [runAll]
    by_cases hexits : s'.exitRequested.isSome = true
    · simp only [hexits, if_true, pure_bind, runAll_of_exits hexits]
    · by_cases hwanted : connector.Continues status
      · simp only [hexits, hwanted, Connector.wants_iff, Bool.false_eq_true, if_true, if_false,
          Chain.eval, bind_assoc]
        rfl
      · simp only [hexits, hwanted, Connector.wants_iff, Bool.false_eq_true, if_false, pure_bind]

lemma record_chained (streams : Streams) (links : List Link) (left : Chain) (s : Session) :
    (links.foldl onto left).record streams s = do
      let r ← left.record streams s
      let r' ← recordAll links streams r.1.1 r.1.2
      return (r'.1, r.2 ++ r'.2) := by
  induction links generalizing left with
  | nil =>
    simp only [List.foldl_nil, recordAll, pure_bind, List.append_nil]
    exact (bind_pure _).symm
  | cons link rest ih =>
    obtain ⟨connector, pipeline⟩ := link
    rw [List.foldl_cons, ih, onto_mk, Chain.record, bind_assoc]
    refine bind_congr fun r => ?_
    obtain ⟨⟨status, s'⟩, marks⟩ := r
    rw [recordAll]
    by_cases hexits : s'.exitRequested.isSome = true
    · simp only [hexits, if_true, pure_bind, recordAll_of_exits hexits]
    · by_cases hwanted : connector.Continues status
      · simp only [hexits, hwanted, Connector.wants_iff, Bool.false_eq_true, if_true, if_false,
          Chain.record, bind_assoc, pure_bind, List.append_assoc]
      · simp only [hexits, hwanted, Connector.wants_iff, Bool.false_eq_true, if_false, pure_bind]

end Link

/-! ## What pipelines find in `$?` -/

namespace Mark

/-- Each pipeline that begins finds in `$?` the status with which the last one has ended, or at
first the given status. -/
def SeesLast : Int → List Mark → Prop
  | _, [] => True
  | status, .began _ s :: rest => s.status = status ∧ SeesLast status rest
  | _, .ended _ status _ :: rest => SeesLast status rest

/-- The status with which the last pipeline has ended, or at first the given status. -/
def lastStatus : Int → List Mark → Int
  | status, [] => status
  | status, .began .. :: rest => lastStatus status rest
  | _, .ended _ status _ :: rest => lastStatus status rest

lemma lastStatus_append (status : Int) (marks more : List Mark) :
    lastStatus status (marks ++ more) = lastStatus (lastStatus status marks) more := by
  induction marks generalizing status with
  | nil => rfl
  | cons m rest ih => cases m <;> exact ih _

lemma seesLast_append {status : Int} {marks more : List Mark} :
    SeesLast status (marks ++ more) ↔
      SeesLast status marks ∧ SeesLast (lastStatus status marks) more := by
  induction marks generalizing status with
  | nil => simp [SeesLast, lastStatus]
  | cons m rest ih =>
    cases m with
    | began p s =>
      simp only [List.cons_append, SeesLast, lastStatus, ih, and_assoc]
    | ended p code s => exact ih

end Mark

open Mark (SeesLast lastStatus)

/-- What has run on a session that was `s` at first: each pipeline has found the right `$?`, and the
session shows how the last one has ended. -/
structure Recorded.Tracks (s : Session) (r : Recorded) : Prop where
  sees : SeesLast s.status r.2
  status : r.1.2.status = lastStatus s.status r.2

namespace Recorded

/-- A command behind another one. -/
lemma Tracks.append {s s' : Session} {status : Int} {marks : List Mark} {r : Recorded}
    (h : Tracks s ((status, s'), marks)) (hr : r.Tracks s') : Tracks s (r.1, marks ++ r.2) := by
  have hlast : lastStatus s.status marks = s'.status := h.status.symm
  refine ⟨Mark.seesLast_append.2 ⟨h.sees, ?_⟩, ?_⟩
  · rw [hlast]
    exact hr.sees
  · rw [Mark.lastStatus_append, hlast]
    exact hr.status

/-- A pipeline that has run on a session: it was the last one to end. -/
structure Ended (s : Session) (r : Recorded) : Prop where
  sees : SeesLast s.status r.2
  status : lastStatus s.status r.2 = r.1.1

/-- To set `$?` to the status of a pipeline. -/
lemma Ended.tracks {s : Session} {r : Recorded} (h : r.Ended s) :
    Tracks s ((r.1.1, { r.1.2 with status := r.1.1 }), r.2) :=
  ⟨h.sees, h.status.symm⟩

/-- A pipeline, and what has run on its session meanwhile. -/
lemma ended_enclose {s s' : Session} {marks : List Mark} (h : SeesLast s.status marks)
    (p : Pipeline) (status : Int) :
    Ended s ((status, s'), .began p s :: (marks ++ [.ended p status s'])) := by
  constructor
  · exact ⟨rfl, Mark.seesLast_append.2 ⟨h, trivial⟩⟩
  · simp only [lastStatus, Mark.lastStatus_append]

end Recorded

namespace Pipeline

lemma record_ended_of_not_isGroup {p : Pipeline} (h : ¬p.IsGroup) (streams : Streams)
    (s : Session) : (p.record streams s).Ensures fun _ r => r.Ended s := by
  rw [record_of_not_isGroup h]
  refine Act.ensures_behind fun r => Act.ensures_pure.2 ?_
  have hnone : SeesLast s.status [] := trivial
  exact Recorded.ended_enclose hnone p r.1

lemma record_ended_group {body : Command} {streams : Streams} {s : Session}
    (hbody : ∀ streams, (body.record streams s).Ensures fun _ r => r.Tracks s) :
    (Pipeline.record ⟨[.group body], false⟩ streams s).Ensures fun _ r => r.Ended s := by
  rw [record]
  refine held_ensures (Act.ensures_behind fun shared => ?_) s
  refine (hbody _).bind fun _ r hr => ?_
  refine Act.ensures_behind fun _ => Act.ensures_behind fun _ => Act.ensures_pure.2 ?_
  exact Recorded.ended_enclose hr.sees _ _

end Pipeline

/-- The chained pipelines behind one that has ended. -/
lemma Link.recordAll_tracks_behind {links : List Link} {streams : Streams} {s s' : Session}
    {status : Int} {marks : List Mark} (hmarks : Recorded.Tracks s ((status, s'), marks))
    (h : (Link.recordAll links streams status s').Ensures fun _ r => r.Tracks s') :
    (do
      let (r, more) ← Link.recordAll links streams status s'
      return (r, marks ++ more)).Ensures fun _ (r : Recorded) => r.Tracks s :=
  h.bind fun _ _ hr => Act.ensures_pure.2 (hmarks.append hr)

mutual

/-- **On a session, `$?` follows the pipelines that run on it.** -/
theorem Command.record_tracks (streams : Streams) :
    ∀ (c : Command) (s : Session), (c.record streams s).Ensures fun _ r => r.Tracks s
  | ⟨blocks⟩, s => by
    rw [Command.record]
    exact Block.recordAll_tracks streams blocks s.status s

theorem Block.recordAll_tracks (streams : Streams) :
    ∀ (blocks : List Block) (status : Int) (s : Session),
      (Block.recordAll blocks streams status s).Ensures fun _ r => r.Tracks s
  | [], _, _ => Act.ensures_pure.2 ⟨trivial, rfl⟩
  | b :: rest, _, s => by
    rw [Block.recordAll]
    refine (Block.record_tracks streams b s).bind fun _ r hr => ?_
    obtain ⟨⟨status, s'⟩, marks⟩ := r
    cases hrequest : s'.exitRequested with
    | some code =>
      simp only [hrequest]
      exact Act.ensures_pure.2 ⟨hr.sees, hr.status⟩
    | none =>
      simp only [hrequest]
      refine (Block.recordAll_tracks streams rest status s').bind fun _ r' hr' => ?_
      exact Act.ensures_pure.2 (hr.append hr')

theorem Block.record_tracks (streams : Streams) :
    ∀ (b : Block) (s : Session), (b.record streams s).Ensures fun _ r => r.Tracks s
  | ⟨first, rest⟩, s => by
    rw [Block.record]
    refine (Pipeline.record_ended streams first s).bind fun _ r hr => ?_
    exact Link.recordAll_tracks_behind hr.tracks (Link.recordAll_tracks streams rest _ _)

theorem Link.recordAll_tracks (streams : Streams) :
    ∀ (links : List Link) (status : Int) (s : Session),
      (Link.recordAll links streams status s).Ensures fun _ r => r.Tracks s
  | [], _, _ => Act.ensures_pure.2 ⟨trivial, rfl⟩
  | ⟨connector, pipeline⟩ :: rest, status, s => by
    rw [Link.recordAll]
    split
    · exact Act.ensures_pure.2 ⟨trivial, rfl⟩
    · split
      · refine (Pipeline.record_ended streams pipeline s).bind fun _ r hr => ?_
        exact Link.recordAll_tracks_behind hr.tracks (Link.recordAll_tracks streams rest _ _)
      · exact Link.recordAll_tracks streams rest status s

theorem Pipeline.record_ended (streams : Streams) :
    ∀ (p : Pipeline) (s : Session), (p.record streams s).Ensures fun _ r => r.Ended s
  | ⟨[.group body], false⟩, s =>
    Pipeline.record_ended_group fun streams => Command.record_tracks streams body s
  | ⟨[], _⟩, s => Pipeline.record_ended_of_not_isGroup (by simp [Pipeline.IsGroup]) streams s
  | ⟨[.simple _], _⟩, s =>
    Pipeline.record_ended_of_not_isGroup (by simp [Pipeline.IsGroup]) streams s
  | ⟨[.subshell _], _⟩, s =>
    Pipeline.record_ended_of_not_isGroup (by simp [Pipeline.IsGroup]) streams s
  | ⟨[.group _], true⟩, s =>
    Pipeline.record_ended_of_not_isGroup (by simp [Pipeline.IsGroup]) streams s
  | ⟨_ :: _ :: _, _⟩, s =>
    Pipeline.record_ended_of_not_isGroup (by simp [Pipeline.IsGroup]) streams s

end

/-! ## Blocks -/

namespace Block

/-- **A block evaluates its left-nested tree.**  The loop through the chained pipelines and the
evaluation of the tree are the same tree of requests, so that for all answers they come to the same
status and session.  So are the two with a record, which tells that the same pipelines begin and
end in the same order on the same sessions; and in every run, each of them finds in `$?` the status
with which the last one has ended.

**Proof sketch.** Induction on the chained pipelines with any tree on their left (`eval_chained`).
A skipped pipeline leaves status and session alone on both sides; a request to exit on the left
skips all that is left of the loop, and ends the evaluation of every tree around it. -/
theorem run_eq_eval_chain (b : Block) (streams : Streams) (s : Session) :
    b.run streams s = b.chain.eval streams s ∧
      b.record streams s = b.chain.record streams s ∧
      Prod.fst <$> b.record streams s = b.run streams s ∧
      (b.record streams s).Ensures fun _ r => SeesLast s.status r.2 := by
  obtain ⟨first, rest⟩ := b
  refine ⟨?_, ?_, fst_record streams _ s, (record_tracks streams _ s).mono fun _ _ hr => hr.sees⟩
  · rw [Block.run, chain, Link.eval_chained, Chain.eval, bind_assoc]
    rfl
  · rw [Block.record, chain, Link.record_chained, Chain.record, bind_assoc]
    rfl

/-- `p && q || r && t` is `((p && q) || r) && t`. -/
example (p q r t : Pipeline) : chain ⟨p, [⟨.and, q⟩, ⟨.or, r⟩, ⟨.and, t⟩]⟩ =
    .join (.join (.join (.pipeline p) .and (.pipeline q)) .or (.pipeline r)) .and (.pipeline t) :=
  rfl

end Block

end Conch
