import Conch.Proofs.Completing
import Conch.Proofs.Zipper

/-!
# What keys can do to a line

Whatever keys are pressed, with whatever is recalled from the history and found by completion, the
cursor stays in the line, so that no key is refused for a character that is not there.  The only
key that can fail is the one that completes a word, and only where a wide blank leaves the word
without a start.

## Main definitions

* `Editor.Reachable` — the states that keys lead to.

## Main results

* `Editor.inside_of_press` — a key keeps the cursor in the line.
* `Editor.press_eq_failed_iff` — which keys fail.
* `Editor.currentWord_of_reachable` — **the word that is found in front of the cursor**, and when
  there is none.
-/

set_option autoImplicit false

namespace Conch

open Text

namespace LineBuffer

/-- The cursor stands in the line or at its end. -/
def Inside (b : LineBuffer) : Prop := b.cursor ≤ b.chars.length

/-- A line with its cursor inside is given by what stands on the two sides of the cursor. -/
lemma inside_iff {b : LineBuffer} : b.Inside ↔ ∃ z : Zipper, z.line = b := by
  constructor
  · intro h
    refine ⟨⟨b.chars.take b.cursor, b.chars.drop b.cursor⟩, ?_⟩
    rw [Zipper.line, List.take_append_drop, List.length_take_of_le h]
  · rintro ⟨z, rfl⟩
    exact z.cursor_line_le

/-- An operation in reach is not refused. -/
lemma Inside.exists_perform {b : LineBuffer} (h : b.Inside) (op : Op) (hop : op.InReach b.cursor) :
    ∃ r, b.perform? op = some r ∧ r.1.Inside := by
  obtain ⟨z, rfl⟩ := inside_iff.mp h
  exact ⟨_, z.perform_line hop, inside_iff.mpr ⟨_, rfl⟩⟩

/-- An operation in reach leaves the cursor inside. -/
lemma Inside.perform {b b' : LineBuffer} {told : Option Bool} (h : b.Inside) (op : Op)
    (hop : op.InReach b.cursor) (hb' : b.perform? op = some (b', told)) : b'.Inside := by
  obtain ⟨r, hr, hinside⟩ := h.exists_perform op hop
  obtain rfl : r = (b', told) := Option.some.inj (hr.symm.trans hb')
  exact hinside

/-- Putting a text in the place of a word leaves the cursor inside. -/
lemma HasWord.inside {b : LineBuffer} {start : Nat} {word : String} (h : b.HasWord start word)
    (r : List Char) :
    Inside ⟨b.chars.take start ++ r ++ b.chars.drop b.cursor, start + r.length⟩ := by
  have hstart := List.length_take_of_le h.start_le
  simp only [Inside, List.length_append, hstart]
  omega

end LineBuffer

namespace Editor

open LineBuffer

/-- The states that keys lead to.  The directories that completion looks up may change from key to
key. -/
inductive Reachable (prompt : String) : State → Prop
  | start (history : History) : Reachable prompt ⟨.empty, history.reset, prompt⟩
  | press {src : Completion.Sources} {s s' : State} {k : Key} (h : Reachable prompt s)
      (hpress : press prompt src s k = .next s') : Reachable prompt s'

/-! ## Keys -/

/-- The step does not fail, and if the line goes on, its cursor is inside. -/
def Step.Sound : Step → Prop
  | .next s => s.buffer.Inside
  | .done _ _ => True
  | .failed => False

section Keys

variable (prompt : String) (src : Completion.Sources) {s : State}

/-- An edit with its cursor inside. -/
lemma edited_sound {r : LineBuffer × Bool} (h : r.1.Inside) : (edited prompt s r).Sound := by
  rw [edited]
  split_ifs
  · exact h
  · exact h

/-- An edit that is not refused. -/
lemma edited?_sound {r : Option (LineBuffer × Bool)}
    (h : ∃ r', r.map (Prod.map id some) = some r' ∧ r'.1.Inside) :
    (edited? prompt s r).Sound := by
  obtain ⟨_, hr, hinside⟩ := h
  obtain ⟨⟨b, told⟩, rfl, rfl⟩ := Option.map_eq_some_iff.mp hr
  exact edited_sound prompt hinside

/-- **No control key fails**, and each leaves the cursor inside. -/
lemma pressControl_sound (h : s.buffer.Inside) (c : Char) : (pressControl prompt s c).Sound := by
  unfold pressControl
  split
  case h_1 => trivial
  case h_2 =>
    split_ifs
    · trivial
    · exact edited_sound prompt (h.perform .delete trivial rfl)
  case h_3 => exact h.perform .home trivial rfl
  case h_4 => exact h.perform .goEnd trivial rfl
  case h_5 => exact h.perform .killToEnd trivial rfl
  case h_6 => exact h.perform .killToStart trivial rfl
  case h_7 => exact edited?_sound prompt (h.exists_perform .deleteWord trivial)
  case h_8 => exact edited_sound prompt (h.perform .transpose trivial rfl)
  case h_9 => exact h
  case h_10 => exact h

/-- **No other key fails** than the one for completion, and each leaves the cursor inside. -/
lemma press_sound (h : s.buffer.Inside) {k : Key} (hk : k.code = .tab → k.released = true) :
    (press prompt src s k).Sound := by
  obtain ⟨code, ctrl, alt, released⟩ := k
  cases released with
  | true => exact h
  | false =>
    cases code with
    | enter => trivial
    | char c =>
      cases ctrl with
      | true => exact pressControl_sound prompt h c
      | false =>
        cases alt with
        | true => exact h
        | false => exact h.perform (.insert c) trivial rfl
    | backspace => exact edited?_sound prompt (h.exists_perform .backspace trivial)
    | delete => exact edited_sound prompt (h.perform .delete trivial rfl)
    | left => exact edited_sound prompt (h.perform .left trivial rfl)
    | right => exact edited_sound prompt (h.perform .right trivial rfl)
    | home => exact h.perform .home trivial rfl
    | «end» => exact h.perform .goEnd trivial rfl
    | up =>
      rw [press, if_neg Bool.false_ne_true]
      dsimp only
      split
      · exact h.perform (.set _) trivial rfl
      · exact h
    | down =>
      rw [press, if_neg Bool.false_ne_true]
      dsimp only
      split
      · exact h.perform (.set _) trivial rfl
      · exact h.perform .clear trivial rfl
    | tab => cases hk rfl
    | other => exact h

/-- Completing a word leaves the cursor inside. -/
lemma press_tab_sound (h : s.buffer.Inside) {k : Key} (htab : k.code = .tab)
    (hdown : k.released = false) {start : Nat} {word : String}
    (hword : s.buffer.currentWord? = some (start, word)) : (press prompt src s k).Sound := by
  have hhas := s.buffer.hasWord_of_currentWord? hword
  rw [press, hdown, if_neg Bool.false_ne_true, htab]
  dsimp only
  obtain hnothing | ⟨b, listed, again, hedit, hb⟩ := complete_cases hword
  · rw [hnothing]
    exact h
  · rw [hedit]
    have hinside : b.Inside := by
      obtain rfl | ⟨r, rfl⟩ := hb
      · exact h
      · exact hhas.inside r.toList
    dsimp only
    split_ifs
    · exact hinside
    · exact hinside

/-- Where there is no word, completion fails. -/
lemma press_tab_failed {k : Key} (htab : k.code = .tab) (hdown : k.released = false)
    (hword : s.buffer.currentWord? = none) : press prompt src s k = .failed := by
  have hcomplete : complete prompt src s.buffer = .failed := by rw [complete, hword]
  rw [press, hdown, if_neg Bool.false_ne_true, htab]
  dsimp only
  rw [hcomplete]

/-- A key leaves the cursor inside, or it asks for the completion of a word that is not there. -/
lemma press_cases (h : s.buffer.Inside) (k : Key) :
    (press prompt src s k).Sound ∨
      k.code = .tab ∧ k.released = false ∧ s.buffer.currentWord? = none := by
  by_cases hk : k.code = .tab → k.released = true
  · exact .inl (press_sound prompt src h hk)
  · obtain ⟨htab, hdown⟩ := Classical.not_imp.mp hk
    rw [Bool.not_eq_true] at hdown
    cases hword : s.buffer.currentWord? with
    | none => exact .inr ⟨htab, hdown, rfl⟩
    | some found => exact .inl (press_tab_sound prompt src h htab hdown hword)

/-- **The keys that fail**: only the one for completion, and only without a word. -/
lemma press_eq_failed_iff (h : s.buffer.Inside) (k : Key) :
    press prompt src s k = .failed ↔
      k.code = .tab ∧ k.released = false ∧ s.buffer.currentWord? = none := by
  constructor
  · intro hfailed
    have hcases := press_cases prompt src h k
    rw [hfailed] at hcases
    exact hcases.resolve_left id
  · rintro ⟨htab, hdown, hword⟩
    exact press_tab_failed prompt src htab hdown hword

/-- **One key** leaves the cursor inside. -/
lemma inside_of_press (h : s.buffer.Inside) {k : Key} {s' : State}
    (hpress : press prompt src s k = .next s') : s'.buffer.Inside := by
  obtain hsound | ⟨htab, hdown, hword⟩ := press_cases prompt src h k
  · rwa [hpress] at hsound
  · cases hpress.symm.trans (press_tab_failed prompt src htab hdown hword)

end Keys

/-- **Any keys** leave the cursor inside. -/
lemma Reachable.inside {prompt : String} {s : State} (h : Reachable prompt s) :
    s.buffer.Inside := by
  induction h with
  | start history => exact Nat.le_refl 0
  | press _ hpress ih => exact inside_of_press _ _ ih hpress

/-- **The word that is found in front of the cursor.**  Whatever keys have been pressed,

* the cursor is not behind the end of the line;
* a word that is found is the word in front of the cursor: what is in front of its start, followed
  by the word, is what is in front of the cursor, it has no blanks, and it starts at the start of
  the line or behind a blank;
* no word is found exactly if the last blank in front of the cursor takes more than one byte;
* a key fails exactly if it asks for completion and no word is found.

**Proof sketch.** Each key is one operation on the line, and an operation in reach keeps the cursor
inside (`Zipper.perform_line`); completion puts a text in the place of a word that starts in front
of the cursor.  The start of the word is looked up one byte behind the place of the last blank,
which is a place of the text if and only if the blank takes one byte (`cut?_append_add`). -/
theorem currentWord_of_reachable {prompt : String} {s : State} (h : Reachable prompt s) :
    s.buffer.cursor ≤ s.buffer.chars.length ∧
      (∀ start word, s.buffer.currentWord? = some (start, word) → s.buffer.HasWord start word) ∧
      (s.buffer.currentWord? = none ↔
        ∃ front blank word, s.buffer.chars.take s.buffer.cursor = front ++ blank :: word ∧
          isBlank blank = true ∧ (∀ c ∈ word, isBlank c = false) ∧ 1 < blank.utf8Size) ∧
      ∀ src k, press prompt src s k = .failed ↔
        k.code = .tab ∧ k.released = false ∧ s.buffer.currentWord? = none :=
  ⟨h.inside, fun _ _ => hasWord_of_currentWord?, currentWord?_eq_none_iff,
    fun src k => press_eq_failed_iff prompt src h.inside k⟩

/-- Nothing to complete with. -/
def noSources : Completion.Sources := ⟨.empty, [], "/", none, "/"⟩

/-- A line into which some characters have been typed. -/
lemma exists_typed (prompt : String) (cs : List Char) :
    ∃ s, Reachable prompt s ∧ s.buffer = ⟨cs, cs.length⟩ := by
  induction cs using List.reverseRecOn with
  | nil => exact ⟨_, .start (.new 0), rfl⟩
  | append_singleton cs c ih =>
    obtain ⟨s, h, hs⟩ := ih
    have hpress : press prompt noSources s (Key.plain (.char c)) =
        .next (redrawn prompt s (s.buffer.insert c)) := rfl
    refine ⟨_, h.press hpress, ?_⟩
    simp [redrawn, hs, LineBuffer.insert]

/-- A word behind a character of two bytes and a blank. -/
theorem currentWord_of_reachable_typed :
    ∃ s, Reachable "> " s ∧ s.buffer = ⟨['é', ' ', 'b'], 3⟩ ∧
      s.buffer.currentWord? = some (2, "b") ∧ s.buffer.HasWord 2 "b" := by
  obtain ⟨s, h, hs⟩ := exists_typed "> " ['é', ' ', 'b']
  have hword : s.buffer.currentWord? = some (2, "b") := by rw [hs]; decide
  exact ⟨s, h, hs, hword, (currentWord_of_reachable h).2.1 2 "b" hword⟩

/-- Behind an ideographic space, which takes three bytes, no word is found, and completion fails. -/
theorem word_behind_wide_blank :
    ∃ s, Reachable "> " s ∧ s.buffer = ⟨['a', '\u3000', 'b'], 3⟩ ∧
      s.buffer.currentWord? = none ∧ press "> " noSources s (Key.plain .tab) = .failed := by
  obtain ⟨s, h, hs⟩ := exists_typed "> " ['a', '\u3000', 'b']
  have hword : s.buffer.currentWord? = none := by rw [hs]; decide
  exact ⟨s, h, hs, hword, press_tab_failed "> " noSources rfl rfl hword⟩

end Editor

end Conch
