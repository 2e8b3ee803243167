import Mathlib.Data.List.DropRight
import Conch.LineBuffer

/-!
# The line as two lists

A line with a cursor is two lists of characters: what stands in front of the cursor and what
stands behind it.  Every edit is an edit of these lists at their common end, and none of them needs
to know how many bytes a character takes.  The line itself counts its cursor in characters and cuts
its text at byte offsets; this module proves that it behaves as the two lists do, whatever is asked
of it, and that none of its cuts falls into a character or behind the end.

## Main definitions

* `LineBuffer.Op`, `LineBuffer.performAll?` — what is asked of a line, one after the other.
* `LineBuffer.Zipper` — the two lists, and `Zipper.perform` — the edits on them.
* `LineBuffer.InReach` — no word is replaced that starts behind the cursor.

## Main results

* `LineBuffer.Zipper.perform_line` — one operation on the line is that operation on the lists.
* `LineBuffer.performAll_empty` — **a line behaves as its two lists do.**
-/

set_option autoImplicit false

namespace Conch

open Text

namespace LineBuffer

/-! ## Operations -/

/-- What is asked of a line. -/
inductive Op where
  | insert (c : Char)
  | set (text : String)
  | clear
  | backspace
  | delete
  | left
  | right
  | home
  | goEnd
  | killToEnd
  | killToStart
  | deleteWord
  | transpose
  /-- Replace what stands between `start` and the cursor. -/
  | replaceWord (start : Nat) (replacement : String)
  deriving DecidableEq, Repr

/-- The line after an operation and what the operation tells, if it tells anything; nothing if the
operation is refused. -/
def perform? (b : LineBuffer) : Op → Option (LineBuffer × Option Bool)
  | .insert c => some (b.insert c, none)
  | .set text => some (set text, none)
  | .clear => some (empty, none)
  | .backspace => b.backspace?.map (Prod.map id some)
  | .delete => some (b.delete.map id some)
  | .left => some (b.left.map id some)
  | .right => some (b.right.map id some)
  | .home => some (b.home, none)
  | .goEnd => some (b.goEnd, none)
  | .killToEnd => some (b.killToEnd, none)
  | .killToStart => some (b.killToStart, none)
  | .deleteWord => b.deleteWord?.map (Prod.map id some)
  | .transpose => some (b.transpose.map id some)
  | .replaceWord start replacement => (b.replaceWord? start replacement).map (·, none)

/-- The lines behind some operations and what these tell, unless one of them is refused. -/
def performAll? (b : LineBuffer) : List Op → Option (List (LineBuffer × Option Bool))
  | [] => some []
  | op :: ops => do
    let r ← b.perform? op
    let rs ← r.1.performAll? ops
    return r :: rs

/-- A word that is replaced starts in front of the cursor. -/
def Op.InReach (cursor : Nat) : Op → Prop
  | .replaceWord start _ => start ≤ cursor
  | _ => True

/-- Every word that some operations replace starts in front of the cursor of that moment. -/
def InReach (b : LineBuffer) : List Op → Prop
  | [] => True
  | op :: ops => op.InReach b.cursor ∧ ∀ r ∈ b.perform? op, r.1.InReach ops

instance (cursor : Nat) (op : Op) : Decidable (op.InReach cursor) := by
  cases op <;> unfold Op.InReach <;> infer_instance

instance decidableInReach (b : LineBuffer) : (ops : List Op) → Decidable (b.InReach ops)
  | [] => isTrue trivial
  | op :: ops =>
    have := fun r : LineBuffer × Option Bool => decidableInReach r.1 ops
    inferInstanceAs (Decidable (op.InReach b.cursor ∧ ∀ r ∈ b.perform? op, r.1.InReach ops))

/-! ## Two lists -/

/-- What stands in front of the cursor and what stands behind it. -/
structure Zipper where
  before : List Char
  after : List Char
  deriving DecidableEq, Repr

namespace Zipper

/-- Nothing on either side. -/
def empty : Zipper := ⟨[], []⟩

/-- The line with these two sides. -/
def line (z : Zipper) : LineBuffer := ⟨z.before ++ z.after, z.before.length⟩

/-- What an operation does to the two sides, and what it tells. -/
def perform (z : Zipper) : Op → Zipper × Option Bool
  | .insert c => (⟨z.before ++ [c], z.after⟩, none)
  | .set text => (⟨text.toList, []⟩, none)
  | .clear => (empty, none)
  | .backspace => (⟨z.before.dropLast, z.after⟩, some (z.before ≠ []))
  | .delete => (⟨z.before, z.after.tail⟩, some (z.after ≠ []))
  | .left => match z.before.getLast? with
    | some c => (⟨z.before.dropLast, c :: z.after⟩, some true)
    | none => (z, some false)
  | .right => match z.after with
    | c :: rest => (⟨z.before ++ [c], rest⟩, some true)
    | [] => (z, some false)
  | .home => (⟨[], z.before ++ z.after⟩, none)
  | .goEnd => (⟨z.before ++ z.after, []⟩, none)
  | .killToEnd => (⟨z.before, []⟩, none)
  | .killToStart => (⟨[], z.after⟩, none)
  | .deleteWord =>
    let kept := (z.before.rdropWhile isBlank).rdropWhile (!isBlank ·)
    (⟨kept, z.after⟩, some (kept ≠ z.before))
  | .transpose => match z.before.getLast?, z.after with
    | some x, y :: rest => (⟨z.before.dropLast ++ [y, x], rest⟩, some true)
    | _, _ => (z, some false)
  | .replaceWord start replacement =>
    (⟨z.before.take start ++ replacement.toList, z.after⟩, none)

/-- The two sides behind some operations, and what these tell. -/
def performAll (z : Zipper) : List Op → List (Zipper × Option Bool)
  | [] => []
  | op :: ops => z.perform op :: (z.perform op).1.performAll ops

/-! ## Positions -/

section Positions

variable (z : Zipper)

@[simp] lemma cursor_line : z.line.cursor = z.before.length := rfl

/-- The cursor is at the byte offset at which the first list ends. -/
lemma byteAt_line : z.line.byteAt z.line.cursor = byteSize z.before := by
  simp [byteAt, line]

/-- Positions in front of the cursor do not depend on what is behind it. -/
lemma byteAt_line_of_le {start : Nat} (h : start ≤ z.before.length) :
    z.line.byteAt start = byteSize (z.before.take start) := by
  rw [byteAt, line, List.take_append_of_le_length h]

/-- The cursor is not behind the end. -/
lemma cursor_line_le : z.line.cursor ≤ z.line.chars.length := by
  rw [line, List.length_append]
  exact Nat.le_add_right ..

end Positions

/-! ## Runs of a class -/

/-- Going back over a run of characters ends where the run starts. -/
lemma runStart?_append (p : Char → Bool) (front back : List Char) :
    runStart? p (front ++ back) front.length = some (front.rdropWhile p).length := by
  induction front using List.reverseRecOn generalizing back with
  | nil => rfl
  | append_singleton cs c ih =>
    have hget : (cs ++ [c] ++ back)[cs.length]? = some c := by simp
    rw [List.length_append, List.length_singleton, runStart?, hget, List.rdropWhile_concat]
    by_cases hc : p c
    · simpa [hc] using ih (c :: back)
    · simp [hc]

/-- What stays of the text in front of the cursor when the last word goes. -/
lemma wordStart?_line (z : Zipper) :
    z.line.wordStart? =
      some ((z.before.rdropWhile isBlank).rdropWhile (!isBlank ·)).length := by
  obtain ⟨tail, htail⟩ := z.before.rdropWhile_prefix isBlank
  have hline : z.line.chars = z.before.rdropWhile isBlank ++ (tail ++ z.after) := by
    rw [← List.append_assoc, htail]
    rfl
  have hblanks : runStart? isBlank z.line.chars z.line.cursor =
      some (z.before.rdropWhile isBlank).length := runStart?_append isBlank z.before z.after
  rw [wordStart?, hblanks, Option.bind_eq_bind, Option.bind_some, hline, runStart?_append]

/-! ## Steps -/

section Steps

variable (z : Zipper)

/-- Removing the character in front of the cursor. -/
lemma backspace?_line :
    z.line.backspace? = some ((z.perform .backspace).1.line, decide (z.before ≠ [])) := by
  obtain ⟨before, after⟩ := z
  cases before using List.reverseRecOn with
  | nil => rfl
  | append_singleton cs c =>
    have hremove : remove? (cs ++ c :: after) (byteSize cs) = some (cs ++ after) :=
      remove?_append ..
    simp [backspace?, perform, line, byteAt, hremove]

/-- Removing the character behind the cursor. -/
lemma delete_line :
    z.line.delete = ((z.perform .delete).1.line, decide (z.after ≠ [])) := by
  obtain ⟨before, after⟩ := z
  cases after <;> simp [delete, perform, line]

/-- Moving over the character in front of the cursor. -/
lemma left_line :
    some (z.line.left.map id some) = some ((z.perform .left).1.line, (z.perform .left).2) := by
  obtain ⟨before, after⟩ := z
  cases before using List.reverseRecOn with
  | nil => rfl
  | append_singleton cs c => simp [left, perform, line]

/-- Moving over the character behind the cursor. -/
lemma right_line :
    some (z.line.right.map id some) = some ((z.perform .right).1.line, (z.perform .right).2) := by
  obtain ⟨before, after⟩ := z
  cases after <;> simp [right, perform, line]

/-- Removing the last word in front of the cursor. -/
lemma deleteWord?_line :
    z.line.deleteWord?.map (Prod.map id some) =
      some ((z.perform .deleteWord).1.line, (z.perform .deleteWord).2) := by
  have hstart := z.wordStart?_line
  -- what is kept is the front of what stood in front of the cursor
  have hfront : (z.before.rdropWhile isBlank).rdropWhile (!isBlank ·) <+: z.before :=
    (List.rdropWhile_prefix _ _).trans (List.rdropWhile_prefix _ _)
  simp only [perform]
  generalize (z.before.rdropWhile isBlank).rdropWhile (!isBlank ·) = kept at hstart hfront ⊢
  obtain ⟨word, hword⟩ := hfront
  rw [deleteWord?, hstart, Option.bind_eq_bind, Option.bind_some]
  by_cases hnone : word = []
  · have hkept : kept = z.before := by rw [← hword, hnone, List.append_nil]
    rw [if_pos (by rw [hkept]; rfl), hkept]
    simp
  · have hlength : kept.length ≠ z.line.cursor := by
      have hpos := List.length_pos_iff.mpr hnone
      rw [cursor_line, ← hword, List.length_append]
      omega
    have hne : kept ≠ z.before := fun h => hlength (by rw [h]; rfl)
    have hbyte : z.line.byteAt kept.length = byteSize kept := by
      rw [byteAt_line_of_le z (by rw [← hword, List.length_append]; omega), ← hword,
        List.take_left]
    have hreplace : replaceRange? z.line.chars (z.line.byteAt kept.length)
        (z.line.byteAt z.line.cursor) [] = some (kept ++ z.after) := by
      rw [hbyte, byteAt_line, line, ← hword, replaceRange?_append, List.append_nil]
    rw [if_neg hlength, hreplace]
    simp [hne, line]

/-- Swapping the characters around the cursor. -/
lemma transpose_line :
    some (z.line.transpose.map id some) =
      some ((z.perform .transpose).1.line, (z.perform .transpose).2) := by
  obtain ⟨before, after⟩ := z
  cases before using List.reverseRecOn with
  | nil => simp [transpose, perform, line]
  | append_singleton cs x => cases after <;> simp [transpose, perform, line]

/-- Replacing the end of what stands in front of the cursor. -/
lemma replaceWord?_line {start : Nat} (h : start ≤ z.before.length) (replacement : String) :
    z.line.replaceWord? start replacement =
      some (z.perform (.replaceWord start replacement)).1.line := by
  have hreplace : replaceRange? z.line.chars (z.line.byteAt start) (z.line.byteAt z.line.cursor)
      replacement.toList = some (z.before.take start ++ replacement.toList ++ z.after) := by
    have hrange := replaceRange?_append (z.before.take start) (z.before.drop start) z.after
      replacement.toList
    rw [List.take_append_drop] at hrange
    rw [byteAt_line_of_le z h, byteAt_line, line, hrange]
  rw [replaceWord?, hreplace]
  simp [perform, line, h]

/-- **One operation** on the line is that operation on the two lists. -/
lemma perform_line {op : Op} (h : op.InReach z.line.cursor) :
    z.line.perform? op = some ((z.perform op).1.line, (z.perform op).2) := by
  cases op with
  | insert c => simp [perform?, perform, insert, line]
  | set text => simp [perform?, perform, set, line]
  | clear => rfl
  | backspace => rw [perform?, backspace?_line]; rfl
  | delete => rw [perform?, delete_line]; rfl
  | left => exact z.left_line
  | right => exact z.right_line
  | home => simp [perform?, perform, home, line]
  | goEnd => simp [perform?, perform, goEnd, line]
  | killToEnd => simp [perform?, perform, killToEnd, line]
  | killToStart => simp [perform?, perform, killToStart, line]
  | deleteWord => exact z.deleteWord?_line
  | transpose => exact z.transpose_line
  | replaceWord start replacement => rw [perform?, replaceWord?_line z h]; rfl

/-- **A run** of operations on the line is that run on the two lists. -/
lemma performAll_line {ops : List Op} (h : z.line.InReach ops) :
    z.line.performAll? ops = some ((z.performAll ops).map (Prod.map line id)) := by
  induction ops generalizing z with
  | nil => rfl
  | cons op ops ih =>
    have hstep := z.perform_line h.1
    have hrest : (z.perform op).1.line.InReach ops := h.2 _ hstep
    rw [performAll?, hstep, Option.bind_eq_bind, Option.bind_some, ih _ hrest]
    rfl

end Steps

end Zipper

/-- **A line behaves as its two lists do.**  Whatever is asked of a line that starts empty, as long
as no word is replaced that starts behind the cursor,

* nothing is refused: no cut falls into a character or behind the end;
* behind every operation the line is what stands in front of the cursor followed by what stands
  behind it, the cursor counts the characters in front of it, and the operation tells what the edit
  of the two lists tells;
* so the cursor is never behind the end.

**Proof sketch.** A position that is no further than the end of a part is the byte size of that
part (`byteAt_line_of_le`), and the byte size of a first part is a place of the text
(`cut?_append`).  So each operation cuts the line where the two lists end, and a run follows by
induction, since an operation leaves a line that is again given by two lists. -/
theorem performAll_empty {ops : List Op} (h : empty.InReach ops) :
    empty.performAll? ops = some ((Zipper.empty.performAll ops).map (Prod.map Zipper.line id)) ∧
      ∀ rs, empty.performAll? ops = some rs →
        ∀ r ∈ rs, r.1.cursor ≤ r.1.chars.length := by
  have hrun := Zipper.empty.performAll_line h
  refine ⟨hrun, fun rs hrs r hr => ?_⟩
  obtain rfl : (Zipper.empty.performAll ops).map (Prod.map Zipper.line id) = rs :=
    Option.some.inj (hrun.symm.trans hrs)
  obtain ⟨⟨z, flag⟩, -, rfl⟩ := List.mem_map.mp hr
  exact z.cursor_line_le

/-- Characters of one, two, three and four bytes, and a word replaced in front of the cursor. -/
theorem performAll_empty_wide :
    empty.InReach [.set "é 日本　", .deleteWord, .insert '😀', .left, .transpose, .backspace,
        .replaceWord 1 "x/"] ∧
      empty.performAll? [.set "é 日本　", .deleteWord, .insert '😀', .left, .transpose, .backspace,
          .replaceWord 1 "x/"] =
        some [(⟨['é', ' ', '日', '本', '　'], 5⟩, none), (⟨['é', ' '], 2⟩, some true),
          (⟨['é', ' ', '😀'], 3⟩, none), (⟨['é', ' ', '😀'], 2⟩, some true),
          (⟨['é', '😀', ' '], 3⟩, some true), (⟨['é', '😀'], 2⟩, some true),
          (⟨['é', 'x', '/'], 3⟩, none)] := by
  have hreach : empty.InReach [.set "é 日本　", .deleteWord, .insert '😀', .left, .transpose,
      .backspace, .replaceWord 1 "x/"] := by decide
  exact ⟨hreach, (performAll_empty hreach).1.trans (by decide)⟩

end LineBuffer

end Conch
