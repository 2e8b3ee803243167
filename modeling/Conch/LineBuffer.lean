import Conch.Text.Blank
import Conch.Text.Offset

/-!
# The line being edited

A text with a cursor that counts characters.  Every operation is an edit at the cursor; those
that may have nothing to do say whether they did something.  The text itself is cut at byte
offsets: an operation turns positions into offsets, and is refused where an offset turns out to be
no place of the text.  Replacing a word may leave the cursor behind the end of the line; there it
still types and moves, but the operations that need the character in front of it are refused.

## Main definitions

* `Conch.LineBuffer` — the characters and the cursor.
* `LineBuffer.byteAt` — the byte offset of a position.
* `LineBuffer.currentWord?` — the word that ends at the cursor.
-/

set_option autoImplicit false

namespace Conch

open Text

/-- A line and a position in it. -/
structure LineBuffer where
  chars : List Char
  /-- The number of characters in front of the cursor. -/
  cursor : Nat
  deriving DecidableEq, Repr, Inhabited

namespace LineBuffer

/-- An empty line. -/
def empty : LineBuffer := ⟨[], 0⟩

/-- The line as a text. -/
def text (b : LineBuffer) : String := String.ofList b.chars

/-- The line has no character. -/
def isEmpty (b : LineBuffer) : Bool := b.chars.isEmpty

/-! ## Positions and offsets -/

/-- The byte offset of a position; a position behind the end stands for the end. -/
def byteAt (b : LineBuffer) (position : Nat) : Nat := byteSize (b.chars.take position)

/-- A position is never inside a character. -/
theorem cut?_byteAt (b : LineBuffer) (position : Nat) :
    cut? b.chars (b.byteAt position) = some (b.chars.take position, b.chars.drop position) := by
  have h := cut?_append (b.chars.take position) (b.chars.drop position)
  rwa [List.take_append_drop] at h

/-- A position of a character stands in front of it. -/
theorem remove?_byteAt (b : LineBuffer) {position : Nat} (h : position < b.chars.length) :
    remove? b.chars (b.byteAt position) =
      some (b.chars.take position ++ b.chars.drop (position + 1)) := by
  rw [remove?, cut?_byteAt, List.drop_eq_getElem_cons h]

/-- The text in front of a position and the text behind it. -/
def cutAt (b : LineBuffer) (position : Nat) : List Char × List Char :=
  (cut? b.chars (b.byteAt position)).get (by rw [cut?_byteAt]; rfl)

/-- The text without the character at a position. -/
def without (b : LineBuffer) (position : Nat) (h : position < b.chars.length) : List Char :=
  (remove? b.chars (b.byteAt position)).get (by rw [remove?_byteAt b h]; rfl)

@[simp] theorem cutAt_eq (b : LineBuffer) (position : Nat) :
    b.cutAt position = (b.chars.take position, b.chars.drop position) := by
  simp only [cutAt, cut?_byteAt, Option.get_some]

@[simp] theorem without_eq (b : LineBuffer) (position : Nat) (h : position < b.chars.length) :
    b.without position h = b.chars.take position ++ b.chars.drop (position + 1) := by
  simp only [without, remove?_byteAt b h, Option.get_some]

/-! ## Editing -/

/-- Replace the whole line; the cursor goes to its end. -/
def set (text : String) : LineBuffer := ⟨text.toList, text.toList.length⟩

/-- Type a character at the cursor. -/
def insert (b : LineBuffer) (c : Char) : LineBuffer :=
  let (front, back) := b.cutAt b.cursor
  ⟨front ++ c :: back, b.cursor + 1⟩

/-- Remove the character in front of the cursor; refused if the cursor is behind the end. -/
def backspace? (b : LineBuffer) : Option (LineBuffer × Bool) :=
  if b.cursor = 0 then some (b, false)
  else (remove? b.chars (b.byteAt (b.cursor - 1))).map fun chars => (⟨chars, b.cursor - 1⟩, true)

/-- Remove the character at the cursor. -/
def delete (b : LineBuffer) : LineBuffer × Bool :=
  if h : b.cursor < b.chars.length then (⟨b.without b.cursor h, b.cursor⟩, true) else (b, false)

/-- Move one character to the left. -/
def left (b : LineBuffer) : LineBuffer × Bool :=
  (⟨b.chars, b.cursor - 1⟩, decide (0 < b.cursor))

/-- Move one character to the right. -/
def right (b : LineBuffer) : LineBuffer × Bool :=
  if b.cursor < b.chars.length then (⟨b.chars, b.cursor + 1⟩, true) else (b, false)

/-- Move to the start of the line. -/
def home (b : LineBuffer) : LineBuffer := ⟨b.chars, 0⟩

/-- Move to the end of the line. -/
def goEnd (b : LineBuffer) : LineBuffer := ⟨b.chars, b.chars.length⟩

/-- Remove everything behind the cursor. -/
def killToEnd (b : LineBuffer) : LineBuffer := ⟨(b.cutAt b.cursor).1, b.cursor⟩

/-- Remove everything in front of the cursor. -/
def killToStart (b : LineBuffer) : LineBuffer := ⟨(b.cutAt b.cursor).2, 0⟩

/-- The smallest position from which all characters up to position `n` are in the class; refused
if it comes upon a position that has no character in front of it. -/
def runStart? (p : Char → Bool) (chars : List Char) : Nat → Option Nat
  | 0 => some 0
  | n + 1 => match chars[n]? with
    | none => none
    | some c => if p c then runStart? p chars n else some (n + 1)

/-- Where the word in front of the cursor starts, blanks behind it included. -/
def wordStart? (b : LineBuffer) : Option Nat := do
  let blanks ← runStart? isBlank b.chars b.cursor
  runStart? (!isBlank ·) b.chars blanks

/-- Remove the word in front of the cursor and the blanks behind it; refused if the cursor is
behind the end. -/
def deleteWord? (b : LineBuffer) : Option (LineBuffer × Bool) := do
  let start ← b.wordStart?
  if start = b.cursor then some (b, false)
  else
    let chars ← replaceRange? b.chars (b.byteAt start) (b.byteAt b.cursor) []
    some (⟨chars, start⟩, true)

/-- Swap the characters around the cursor and move behind both. -/
def transpose (b : LineBuffer) : LineBuffer × Bool :=
  match b.cursor, b.chars[b.cursor - 1]?, b.chars[b.cursor]? with
  | n + 1, some x, some y => (⟨(b.chars.set n y).set (n + 1) x, n + 2⟩, true)
  | _, _, _ => (b, false)

/-! ## The word in front of the cursor -/

/-- The byte offset of the last blank of a text. -/
def lastBlank? : List Char → Option Nat
  | [] => none
  | c :: cs => match lastBlank? cs with
    | some n => some (c.utf8Size + n)
    | none => if isBlank c then some 0 else none

/-- The word that ends at the cursor, or at the end of the line if the cursor is behind it, and
its position: it starts behind the last blank.  The offset behind a blank is taken to be one byte
further, which is no place of the text if the blank is wider. -/
def currentWord? (b : LineBuffer) : Option (Nat × String) := do
  let (line, _) ← cut? b.chars (b.byteAt b.cursor)
  let start := match lastBlank? line with
    | some n => n + 1
    | none => 0
  let (front, word) ← cut? line start
  some (front.length, String.ofList word)

/-- Replace the text between `start` and the cursor.  Both stand for the end of the line if they
are behind it; a start behind the cursor is refused.  The cursor goes as far behind `start` as
the replacement is long. -/
def replaceWord? (b : LineBuffer) (start : Nat) (replacement : String) : Option LineBuffer :=
  (replaceRange? b.chars (b.byteAt start) (b.byteAt b.cursor) replacement.toList).map fun chars =>
    ⟨chars, start + replacement.toList.length⟩

end LineBuffer

end Conch
