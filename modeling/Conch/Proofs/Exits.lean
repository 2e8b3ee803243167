import Conch.Proofs.Transparency

/-!
# A request to exit ends everything on its session

A line ends with a status, `$?` shows a status behind it, and a request to exit names one; all three
are the same.  And once a pipeline has left a request in the session it runs on, no other pipeline
begins on that session, however deep in groups, chains and blocks it stands.

To speak of the pipelines that run on a session, a command is run with a record of where each of
them begins and ends.  Without the record the tree of requests is the same, so a run with a record
is a run of the command.  What runs on a copy of the session, such as the body of a subshell, is a
command that runs on a session of its own, with a record of its own.

## Main definitions

* `Conch.Mark` — a pipeline begins on a session, or has ended and left it.
* `Command.record` — run a command with a record of the pipelines that run on its session.
* `Mark.Orderly` — nothing begins behind a request to exit.

## Main results

* `Command.fst_record` — the record makes no difference.
* `Command.record_halts` — what is recorded is orderly.
* `Pipeline.run_exitRequested` — a pipeline that works on copies asks for nothing.
* `Session.runLine_coherent` — **status and exit of a line are coherent**.
-/

set_option autoImplicit false

namespace Conch

open Act (ask)

/-! ## Running with a record -/

/-- Something that happens on a session while a command runs on it. -/
inductive Mark where
  /-- A pipeline begins on the session. -/
  | began (p : Pipeline) (s : Session)
  /-- A pipeline has ended with a status and left the session so. -/
  | ended (p : Pipeline) (status : Int) (s : Session)

namespace Mark

/-- A pipeline begins. -/
def begins : Mark → Bool
  | began .. => true
  | ended .. => false

/-- A pipeline leaves a request to exit. -/
def exits : Mark → Bool
  | began .. => false
  | ended _ _ s => s.exitRequested.isSome

/-- Pipelines begin only on a session that goes on, and none begins behind one that has left a
request to exit. -/
structure Orderly (marks : List Mark) : Prop where
  goesOn : ∀ p s, began p s ∈ marks → s.exitRequested = none
  last : marks.Pairwise fun m m' => m.exits = true → m'.begins = false

/-- Orderly marks on a session that is `s` now: it holds the request that one of the pipelines has
left. -/
structure Halts (marks : List Mark) (s : Session) : Prop extends Orderly marks where
  holds : ∀ m ∈ marks, m.exits = true → s.exitRequested.isSome = true

end Mark

/-- The status and the session behind a command, with what has happened on the session. -/
abbrev Recorded := (Int × Session) × List Mark

mutual

/-- Run a command with a record of the pipelines that run on the session. -/
def Command.record : Command → Streams → Session → Act Recorded
  | ⟨blocks⟩, streams, s => Block.recordAll blocks streams s.status s

/-- Run blocks with a record. -/
def Block.recordAll : List Block → Streams → Int → Session → Act Recorded
  | [], _, status, s => pure ((status, s), [])
  | b :: rest, streams, _, s => do
    let ((status, s), marks) ← b.record streams s
    match s.exitRequested with
    | some code => return ((code, s), marks)
    | none =>
      let (r, more) ← Block.recordAll rest streams status s
      return (r, marks ++ more)

/-- Run a block with a record. -/
def Block.record : Block → Streams → Session → Act Recorded
  | ⟨first, rest⟩, streams, s => do
    let ((status, s), marks) ← first.record streams s
    let (r, more) ← Link.recordAll rest streams status { s with status }
    return (r, marks ++ more)

/-- Run chained pipelines with a record. -/
def Link.recordAll : List Link → Streams → Int → Session → Act Recorded
  | [], _, status, s => pure ((status, s), [])
  | ⟨connector, pipeline⟩ :: rest, streams, status, s =>
    if s.exitRequested.isSome then pure ((status, s), [])
    else if connector.wants status then do
      let ((status, s), marks) ← pipeline.record streams s
      let (r, more) ← Link.recordAll rest streams status { s with status }
      return (r, marks ++ more)
    else Link.recordAll rest streams status s

/-- Run a pipeline with a record.  Only the body of a single group runs on the same session. -/
def Pipeline.record : Pipeline → Streams → Session → Act Recorded
  | ⟨[.group body], false⟩, streams, s => Pipeline.held s do
    let p : Pipeline := ⟨[.group body], false⟩
    let (stdin, ends, helpers) ← Stage.share streams.stdin
    let (r, marks) ← body.record { streams with stdin } s
    closeAll ends
    Jobs.joinAll helpers
    return (r, .began p s :: (marks ++ [.ended p r.1 r.2]))
  | p, streams, s => do
    let r ← p.run streams s
    return (r, [.began p s, .ended p r.1 r.2])

end

/-! ## The record makes no difference -/

namespace Pipeline

/-- A pipeline that is nothing but a group runs its body with the foreground pointer. -/
lemma run_group (body : Command) (streams : Streams) (s : Session) :
    Pipeline.run ⟨[.group body], false⟩ streams s =
      held s (Stage.runInside (.nested body false) false body.run streams s) := by
  have hbody : Element.runLast [.group body] = body.run := rfl
  calc Pipeline.run ⟨[.group body], false⟩ streams s
      = held s (runStages _ (Element.runLast [.group body]) [⟨.nested body false, .none⟩]
          streams s) := by
        rw [run_eq]
        rfl
    _ = _ := by
        rw [runStages_single _ _ _ _ rfl, hbody]
        rfl

/-- What is done to the value of a tree can be done while the pointer is held. -/
lemma map_held {α β : Type} (f : α → β) (s : Session) (x : Act α) :
    f <$> held s x = held s (f <$> x) := by
  unfold held
  split
  · rfl
  · simp only [map_bind, map_pure, bind_map_left]

/-- The pipeline is nothing but a group, so that its body runs on the same session. -/
def IsGroup (p : Pipeline) : Prop := ∃ body, p = ⟨[.group body], false⟩

lemma record_of_not_isGroup {p : Pipeline} (h : ¬p.IsGroup) (streams : Streams) (s : Session) :
    p.record streams s = do
      let r ← p.run streams s
      return (r, [.began p s, .ended p r.1 r.2]) := by
  rw [record.eq_def]
  split
  · exact absurd ⟨_, rfl⟩ h
  · rfl

lemma fst_record_of_not_isGroup {p : Pipeline} (h : ¬p.IsGroup) (streams : Streams)
    (s : Session) : Prod.fst <$> p.record streams s = p.run streams s := by
  rw [record_of_not_isGroup h, map_bind]
  exact bind_pure _

lemma fst_record_group {body : Command} {streams : Streams} {s : Session}
    (hbody : ∀ streams, Prod.fst <$> body.record streams s = body.run streams s) :
    Prod.fst <$> Pipeline.record ⟨[.group body], false⟩ streams s =
      Pipeline.run ⟨[.group body], false⟩ streams s := by
  rw [record, run_group, map_held]
  refine congrArg (held s) ?_
  simp only [Stage.runInside, map_bind, map_pure]
  refine bind_congr fun shared => ?_
  rw [← hbody, bind_map_left]
  rfl

end Pipeline

mutual

/-- **The record makes no difference**: without it a run with a record is the run. -/
theorem Command.fst_record (streams : Streams) :
    ∀ (c : Command) (s : Session), Prod.fst <$> c.record streams s = c.run streams s
  | ⟨blocks⟩, s => by
    rw [Command.record, Command.run]
    exact Block.fst_recordAll streams blocks s.status s

theorem Block.fst_recordAll (streams : Streams) :
    ∀ (blocks : List Block) (status : Int) (s : Session),
      Prod.fst <$> Block.recordAll blocks streams status s = Block.runAll blocks streams status s
  | [], _, _ => rfl
  | b :: rest, _, s => by
    rw [Block.recordAll, Block.runAll, ← Block.fst_record streams b s, map_bind, bind_map_left]
    refine bind_congr fun r => ?_
    obtain ⟨⟨status, s'⟩, marks⟩ := r
    cases hrequest : s'.exitRequested with
    | some code => simp only [hrequest, map_pure]
    | none =>
      simp only [hrequest, map_bind, map_pure]
      rw [← Block.fst_recordAll streams rest status s', map_eq_pure_bind]

theorem Block.fst_record (streams : Streams) :
    ∀ (b : Block) (s : Session), Prod.fst <$> b.record streams s = b.run streams s
  | ⟨first, rest⟩, s => by
    rw [Block.record, Block.run, ← Pipeline.fst_record streams first s, map_bind, bind_map_left]
    refine bind_congr fun r => ?_
    simp only [map_bind, map_pure]
    rw [← Link.fst_recordAll streams rest r.1.1 { r.1.2 with status := r.1.1 }, map_eq_pure_bind]

theorem Link.fst_recordAll (streams : Streams) :
    ∀ (links : List Link) (status : Int) (s : Session),
      Prod.fst <$> Link.recordAll links streams status s = Link.runAll links streams status s
  | [], _, _ => rfl
  | ⟨connector, pipeline⟩ :: rest, status, s => by
    rw [Link.recordAll, Link.runAll]
    split
    · rfl
    · split
      · rw [← Pipeline.fst_record streams pipeline s, map_bind, bind_map_left]
        refine bind_congr fun r => ?_
        simp only [map_bind, map_pure]
        rw [← Link.fst_recordAll streams rest r.1.1 { r.1.2 with status := r.1.1 },
          map_eq_pure_bind]
      · exact Link.fst_recordAll streams rest status s

theorem Pipeline.fst_record (streams : Streams) :
    ∀ (p : Pipeline) (s : Session), Prod.fst <$> p.record streams s = p.run streams s
  | ⟨[.group body], false⟩, s =>
    Pipeline.fst_record_group fun streams => Command.fst_record streams body s
  | ⟨[], _⟩, s => Pipeline.fst_record_of_not_isGroup (by simp [Pipeline.IsGroup]) streams s
  | ⟨[.simple _], _⟩, s => Pipeline.fst_record_of_not_isGroup (by simp [Pipeline.IsGroup]) streams s
  | ⟨[.subshell _], _⟩, s =>
    Pipeline.fst_record_of_not_isGroup (by simp [Pipeline.IsGroup]) streams s
  | ⟨[.group _], true⟩, s =>
    Pipeline.fst_record_of_not_isGroup (by simp [Pipeline.IsGroup]) streams s
  | ⟨_ :: _ :: _, _⟩, s =>
    Pipeline.fst_record_of_not_isGroup (by simp [Pipeline.IsGroup]) streams s

end

/-! ## Nothing begins behind a request -/

namespace Mark

lemma halts_nil (s : Session) : Halts [] s where
  goesOn := by simp
  last := .nil
  holds := by simp

/-- What follows on a session that goes on. -/
lemma Halts.append {marks more : List Mark} {s s' : Session} (h : Halts marks s)
    (hs : s.exitRequested = none) (hmore : Halts more s') : Halts (marks ++ more) s' := by
  have hnone : ∀ m ∈ marks, m.exits = false := by
    intro m hm
    by_contra hexits
    have hheld := h.holds m hm (by simpa using hexits)
    simp [hs] at hheld
  refine ⟨⟨?_, ?_⟩, ?_⟩
  · intro p t hmem
    rcases List.mem_append.1 hmem with hmem | hmem
    · exact h.goesOn p t hmem
    · exact hmore.goesOn p t hmem
  · refine List.pairwise_append.2 ⟨h.last, hmore.last, fun m hm m' _ hexits => ?_⟩
    simp [hnone m hm] at hexits
  · intro m hm hexits
    rcases List.mem_append.1 hm with hm | hm
    · simp [hnone m hm] at hexits
    · exact hmore.holds m hm hexits

/-- To set `$?` leaves the request alone. -/
lemma Halts.congr {marks : List Mark} {s s' : Session} (h : Halts marks s)
    (hs : s'.exitRequested = s.exitRequested) : Halts marks s' :=
  ⟨h.toOrderly, fun m hm hexits => hs ▸ h.holds m hm hexits⟩

/-- A pipeline, and what has happened on its session meanwhile. -/
lemma Halts.enclose {marks : List Mark} {s s' : Session} (h : Halts marks s')
    (hs : s.exitRequested = none) (p : Pipeline) (status : Int) :
    Halts (.began p s :: (marks ++ [.ended p status s'])) s' := by
  refine ⟨⟨?_, ?_⟩, ?_⟩
  · intro q t hmem
    rcases List.mem_cons.1 hmem with heq | hmem
    · cases heq
      exact hs
    · exact h.goesOn q t (by simpa using hmem)
  · refine List.pairwise_cons.2 ⟨fun m _ hexits => by simp [exits] at hexits, ?_⟩
    exact List.pairwise_append.2 ⟨h.last, List.pairwise_singleton _ _, by simp [begins]⟩
  · intro m hm hexits
    rcases List.mem_cons.1 hm with rfl | hm
    · simp [exits] at hexits
    · rcases List.mem_append.1 hm with hm | hm
      · exact h.holds m hm hexits
      · obtain rfl := List.mem_singleton.1 hm
        exact hexits

end Mark

open Mark (Halts)

/-- What is recorded of every run is orderly. -/
def Recorded.Sound (r : Recorded) : Prop := Halts r.2 r.1.2

namespace Pipeline

lemma record_halts_of_not_isGroup {p : Pipeline} (h : ¬p.IsGroup) (streams : Streams)
    {s : Session} (hs : s.exitRequested = none) :
    (p.record streams s).Ensures fun _ r => r.Sound := by
  rw [record_of_not_isGroup h]
  refine Act.ensures_behind fun r => Act.ensures_pure.2 ?_
  exact (Mark.halts_nil r.2).enclose hs p r.1

lemma record_halts_group {body : Command} {streams : Streams} {s : Session}
    (hs : s.exitRequested = none)
    (hbody : ∀ streams, (body.record streams s).Ensures fun _ r => r.Sound) :
    (Pipeline.record ⟨[.group body], false⟩ streams s).Ensures fun _ r => r.Sound := by
  rw [record]
  refine held_ensures (Act.ensures_behind fun shared => ?_) s
  refine (hbody _).bind fun _ r hr => ?_
  refine Act.ensures_behind fun _ => Act.ensures_behind fun _ => Act.ensures_pure.2 ?_
  exact Halts.enclose hr hs _ _

end Pipeline

/-- On a session that asks to exit, no chained pipeline runs. -/
lemma Link.recordAll_of_exits {s : Session} (hs : s.exitRequested.isSome = true)
    (links : List Link) (streams : Streams) (status : Int) :
    Link.recordAll links streams status s = pure ((status, s), []) := by
  match links with
  | [] => rfl
  | ⟨_, _⟩ :: _ => rw [Link.recordAll, if_pos hs]

/-- The chained pipelines behind one that has left the session `s`. -/
lemma Link.recordAll_behind {links : List Link} {streams : Streams} {status : Int} {s : Session}
    {marks : List Mark} (hmarks : Halts marks s)
    (h : (Link.recordAll links streams status s).Ensures fun _ r => r.Sound) :
    (do
      let (r, more) ← Link.recordAll links streams status s
      return (r, marks ++ more)).Ensures fun _ (r : Recorded) => r.Sound := by
  cases hrequest : s.exitRequested with
  | some code =>
    rw [Link.recordAll_of_exits (by simp [hrequest])]
    exact Act.ensures_pure.2 (by simpa [Recorded.Sound] using hmarks)
  | none => exact h.bind fun _ r hr => Act.ensures_pure.2 (hmarks.append hrequest hr)

mutual

/-- **Nothing begins behind a request to exit**, on a session that goes on at first. -/
theorem Command.record_halts (streams : Streams) :
    ∀ (c : Command) (s : Session), s.exitRequested = none →
      (c.record streams s).Ensures fun _ r => r.Sound
  | ⟨blocks⟩, s, hs => by
    rw [Command.record]
    exact Block.recordAll_halts streams blocks s.status s hs

theorem Block.recordAll_halts (streams : Streams) :
    ∀ (blocks : List Block) (status : Int) (s : Session), s.exitRequested = none →
      (Block.recordAll blocks streams status s).Ensures fun _ r => r.Sound
  | [], _, s, _ => Act.ensures_pure.2 (Mark.halts_nil s)
  | b :: rest, _, s, hs => by
    rw [Block.recordAll]
    refine (Block.record_halts streams b s hs).bind fun _ r hr => ?_
    obtain ⟨⟨status, s'⟩, marks⟩ := r
    cases hrequest : s'.exitRequested with
    | some code =>
      simp only [hrequest]
      exact Act.ensures_pure.2 hr
    | none =>
      simp only [hrequest]
      refine (Block.recordAll_halts streams rest status s' hrequest).bind fun _ r' hr' => ?_
      exact Act.ensures_pure.2 (Halts.append hr hrequest hr')

theorem Block.record_halts (streams : Streams) :
    ∀ (b : Block) (s : Session), s.exitRequested = none →
      (b.record streams s).Ensures fun _ r => r.Sound
  | ⟨first, rest⟩, s, hs => by
    rw [Block.record]
    refine (Pipeline.record_halts streams first s hs).bind fun _ r hr => ?_
    exact Link.recordAll_behind (Halts.congr hr rfl) (Link.recordAll_halts streams rest _ _)

theorem Link.recordAll_halts (streams : Streams) :
    ∀ (links : List Link) (status : Int) (s : Session),
      (Link.recordAll links streams status s).Ensures fun _ r => r.Sound
  | [], _, s => Act.ensures_pure.2 (Mark.halts_nil s)
  | ⟨connector, pipeline⟩ :: rest, status, s => by
    rw [Link.recordAll]
    cases hrequest : s.exitRequested with
    | some code => exact Act.ensures_pure.2 (Mark.halts_nil s)
    | none =>
      simp only [Option.isSome_none, Bool.false_eq_true, if_false]
      split
      · refine (Pipeline.record_halts streams pipeline s hrequest).bind fun _ r hr => ?_
        exact Link.recordAll_behind (Halts.congr hr rfl) (Link.recordAll_halts streams rest _ _)
      · exact Link.recordAll_halts streams rest status s

theorem Pipeline.record_halts (streams : Streams) :
    ∀ (p : Pipeline) (s : Session), s.exitRequested = none →
      (p.record streams s).Ensures fun _ r => r.Sound
  | ⟨[.group body], false⟩, s, hs =>
    Pipeline.record_halts_group hs fun streams => Command.record_halts streams body s hs
  | ⟨[], _⟩, _, hs => Pipeline.record_halts_of_not_isGroup (by simp [Pipeline.IsGroup]) streams hs
  | ⟨[.simple _], _⟩, _, hs =>
    Pipeline.record_halts_of_not_isGroup (by simp [Pipeline.IsGroup]) streams hs
  | ⟨[.subshell _], _⟩, _, hs =>
    Pipeline.record_halts_of_not_isGroup (by simp [Pipeline.IsGroup]) streams hs
  | ⟨[.group _], true⟩, _, hs =>
    Pipeline.record_halts_of_not_isGroup (by simp [Pipeline.IsGroup]) streams hs
  | ⟨_ :: _ :: _, _⟩, _, hs =>
    Pipeline.record_halts_of_not_isGroup (by simp [Pipeline.IsGroup]) streams hs

end

/-! ## Pipelines on copies -/

/-- **A pipeline that works on copies asks for nothing**: what its stages ask for is asked of the
copies. -/
lemma Pipeline.run_exitRequested {p : Pipeline} (h : p.Isolated) (streams : Streams)
    (s : Session) : (p.run streams s).Ensures fun _ r => r.2.exitRequested = s.exitRequested := by
  intro tr r hrun
  rw [run_eq] at hrun
  obtain ⟨front, rest, plan, rfl, hplan, hrest⟩ := Act.runs_bind.1 hrun
  cases plan with
  | error e => exact congrArg Session.exitRequested (proceed_error_session _ streams s e _ _ hrest)
  | ok stages =>
    cases hbackground : p.background with
    | true =>
      rw [proceed_background_session _ streams s hbackground _ _ hrest]
      split <;> rfl
    | false =>
      have hp : p.Isolated ∨ p.External s (front ++ rest) := .inl h
      have hcopies := onCopies_of_isolated hplan hbackground hp
      rw [proceed_foreground_session _ streams s hbackground hcopies _ _ hrest]

namespace Session

/-- A line leaves the session with the status that it ends with. -/
lemma runLine_agrees (line : String) (streams : Streams) {s : Session}
    (hs : s.exitRequested = none) :
    (s.runLine line streams).Ensures fun _ r => r.2.Agrees r.1 := by
  unfold runLine
  split
  case h_1 c _ => exact Command.run_agrees streams c s hs
  case h_2 => exact Act.ensures_pure.2 ⟨rfl, .inl hs⟩
  case h_3 => exact Act.ensures_behind fun _ => Act.ensures_pure.2 ⟨rfl, .inl hs⟩

/-- **Status and exit of a line are coherent.**  On a session that goes on at first, a line ends
with the status that `$?` shows then, and with the status that the session asks to exit with, if it
does; an empty line and one that is no command are no exception.  Whatever command runs on the
session, no pipeline begins on it behind one that has left a request to exit; and pipelines of
several elements, subshells and pipelines in the background never leave one. -/
theorem runLine_coherent (streams : Streams) {s : Session} (hs : s.exitRequested = none) :
    (∀ line, (s.runLine line streams).Ensures fun _ r =>
      r.2.status = r.1 ∧ ∀ code, r.2.exitRequested = some code → code = r.1) ∧
    (∀ c : Command, Prod.fst <$> c.record streams s = c.run streams s ∧
      (c.record streams s).Ensures fun _ r => Mark.Orderly r.2) ∧
    ∀ p : Pipeline, p.Isolated → (p.run streams s).Ensures fun _ r => r.2.exitRequested = none := by
  refine ⟨fun line => ?_, fun c => ⟨Command.fst_record streams c s, ?_⟩, fun p hp => ?_⟩
  · refine (runLine_agrees line streams hs).mono fun _ r hr => ⟨hr.status, fun code hcode => ?_⟩
    rcases hr.exits with hnone | hsome
    · simp [hnone] at hcode
    · exact Option.some.inj (hcode.symm.trans hsome)
  · exact (Command.record_halts streams c s hs).mono fun _ _ hr => hr.toOrderly
  · exact (Pipeline.run_exitRequested hp streams s).mono fun _ _ hr => hr.trans hs

/-- The commands `{ X=1; false; exit; }; help`. -/
def exitInGroup : Command :=
  ⟨[⟨⟨[.group Command.assignFailExit], false⟩, []⟩, ⟨⟨[.simple ⟨["help"], [], false⟩], false⟩, []⟩]⟩

/-- Coherence at `{ X=1; false; exit; }; help`: the group and what stands in it begin, and `help`
does not. -/
theorem runLine_coherent_exit_in_group :
    (default : Session).exitRequested = none ∧
      ∃ tr s marks, (exitInGroup.record .inherit default).Runs tr ((1, s), marks) ∧
        s.exitRequested = some 1 ∧ (marks.filter Mark.begins).length = 4 ∧ Mark.Orderly marks := by
  have hs : (default : Session).exitRequested = none := rfl
  have hplay : (exitInGroup.record .inherit default).play (Command.lookAround true) [] =
    (_, some ((1, _), _)) := rfl
  obtain ⟨tr, -, hrun⟩ := Act.runs_of_play hplay
  exact ⟨hs, tr, _, _, hrun, rfl, rfl, ((runLine_coherent .inherit hs).2.1 exitInGroup).2 _ _ hrun⟩

end Session

end Conch
