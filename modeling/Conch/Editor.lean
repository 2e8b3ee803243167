import Conch.Completion
import Conch.Editor.Key
import Conch.History
import Conch.LineBuffer

/-!
# The line editor

Reads one line from a terminal in raw mode, key by key.  Everything it shows is a text with
control sequences: after an edit it goes to the first column, clears the line, writes prompt and
line again, and goes back to the cursor.

## Main definitions

* `Conch.Editor.State` — the line, the history and what has been shown.
* `Conch.Editor.press` — the effect of one key.
* `Conch.Editor.readLine` — from a list of keys to the line they enter.
-/

set_option autoImplicit false

namespace Conch.Editor

open Text

/-- How reading a line ended. -/
inductive Outcome where
  | line (text : String)
  /-- Ctrl-C: the line was discarded. -/
  | interrupted
  /-- Ctrl-D on an empty line. -/
  | eof
  deriving DecidableEq, Repr, Inhabited

/-- The editor's state. -/
structure State where
  buffer : LineBuffer
  history : History
  /-- What has been shown since the line was started. -/
  screen : String
  deriving Repr, Inhabited

/-- What one key leads to. -/
inductive Step where
  /-- The line goes on. -/
  | next (s : State)
  /-- The line is over. -/
  | done (o : Outcome) (s : State)
  /-- The word in front of the cursor has no start, or the edit was refused. -/
  | failed
  deriving Repr, Inhabited

/-! ## What is shown -/

/-- A text without the sequences that start with an escape and end with `m`. -/
def visible : Bool → List Char → List Char
  | _, [] => []
  | true, c :: cs => visible (c != 'm') cs
  | false, c :: cs => if c = '\x1b' then visible true cs else c :: visible false cs

/-- How many columns a text takes, colour sequences aside. -/
def width (text : String) : Nat := (visible false text.toList).length

/-- How many columns a terminal can tell apart. -/
def columns : Nat := 65536

/-- Go to a column, counted from zero; the sequence counts from one.  What is further right
counts as the last column, whose number is zero again. -/
def toColumn (n : Nat) : String :=
  "\x1b[" ++ toString ((min n (columns - 1) + 1) % columns) ++ "G"

/-- Clear up to the end of the line. -/
def clearLine : String := "\x1b[K"

/-- Clear the whole screen and go to its corner. -/
def clearScreen : String := "\x1b[2J\x1b[1;1H"

/-- Write prompt and line again. -/
def redraw (prompt : String) (b : LineBuffer) : String :=
  toColumn 0 ++ clearLine ++ prompt ++ b.text ++ toColumn (width prompt + b.cursor)

/-- The candidates below the line, and the prompt again. -/
def listing (prompt : String) (candidates : List String) : String :=
  "\r\n" ++ "    ".intercalate candidates ++ "\r\n" ++ prompt

/-! ## Completion -/

/-- What completing the word in front of the cursor does. -/
inductive Completed where
  /-- Nothing to complete. -/
  | nothing
  /-- The new line, what was listed below it, and whether the line has to be drawn again. -/
  | edit (b : LineBuffer) (listed : String) (redraw : Bool)
  /-- The word has no start. -/
  | failed

/-- Complete the word in front of the cursor.  A single candidate is followed by a blank unless
it is a directory; several are listed, and the word grows to what they have in common. -/
def complete (prompt : String) (src : Completion.Sources) (b : LineBuffer) : Completed :=
  match b.currentWord? with
  | none => .failed
  | some (start, word) =>
    let first := (b.chars.take start).all isBlank
    if word.isEmpty && first then .nothing
    else
      let finish (replacement listed : String) (several : Bool) : Completed :=
        if replacement.length < word.length then .edit b listed several
        else match b.replaceWord? start replacement with
          | some b => .edit b listed true
          | none => .failed
      match Completion.candidates src word first with
      | [] => .nothing
      | [only] => finish (if only.endsWith "/" then only else only ++ " ") "" false
      | many => finish (Completion.commonPrefix many) (listing prompt many) true

/-! ## Keys -/

/-- The state with a new line, drawn again. -/
def redrawn (prompt : String) (s : State) (b : LineBuffer) : State :=
  { s with buffer := b, screen := s.screen ++ redraw prompt b }

/-- An edit that draws the line again only if it did something. -/
def edited (prompt : String) (s : State) (r : LineBuffer × Bool) : Step :=
  .next (if r.2 then redrawn prompt s r.1 else { s with buffer := r.1 })

/-- An edit that may be refused. -/
def edited? (prompt : String) (s : State) : Option (LineBuffer × Bool) → Step
  | some r => edited prompt s r
  | none => .failed

/-- The effect of a control key. -/
def pressControl (prompt : String) (s : State) (c : Char) : Step :=
  match c with
  | 'c' => .done .interrupted { s with screen := s.screen ++ "^C\r\n" }
  | 'd' =>
    if s.buffer.isEmpty then .done .eof { s with screen := s.screen ++ "\r\n" }
    else edited prompt s s.buffer.delete
  | 'a' => .next (redrawn prompt s s.buffer.home)
  | 'e' => .next (redrawn prompt s s.buffer.goEnd)
  | 'k' => .next (redrawn prompt s s.buffer.killToEnd)
  | 'u' => .next (redrawn prompt s s.buffer.killToStart)
  | 'w' => edited? prompt s s.buffer.deleteWord?
  | 't' => edited prompt s s.buffer.transpose
  | 'l' => .next (redrawn prompt { s with screen := s.screen ++ clearScreen } s.buffer)
  | _ => .next s

/-- The effect of one key. -/
def press (prompt : String) (src : Completion.Sources) (s : State) (k : Key) : Step :=
  if k.released then .next s
  else match k.code with
    | .enter => .done (.line s.buffer.text) { s with screen := s.screen ++ "\r\n" }
    | .char c =>
      if k.ctrl then pressControl prompt s c
      else if k.alt then .next s
      else .next (redrawn prompt s (s.buffer.insert c))
    | .backspace => edited? prompt s s.buffer.backspace?
    | .delete => edited prompt s s.buffer.delete
    | .left => edited prompt s s.buffer.left
    | .right => edited prompt s s.buffer.right
    | .home => .next (redrawn prompt s s.buffer.home)
    | .end => .next (redrawn prompt s s.buffer.goEnd)
    | .up => match s.history.previous with
      | (h, some entry) => .next (redrawn prompt { s with history := h } (.set entry))
      | (h, none) => .next { s with history := h }
    | .down => match s.history.next with
      | (h, some entry) => .next (redrawn prompt { s with history := h } (.set entry))
      | (h, none) => .next (redrawn prompt { s with history := h } .empty)
    | .tab => match complete prompt src s.buffer with
      | .nothing => .next s
      | .edit b listed again =>
        let s := { s with buffer := b, screen := s.screen ++ listed }
        .next (if again then redrawn prompt s b else s)
      | .failed => .failed
    | .other => .next s

/-- What reading a line from a list of keys gives. -/
inductive Reading where
  /-- How it ended, what was shown, the history with its cursor, and the keys left. -/
  | read (o : Outcome) (screen : String) (history : History) (rest : List Key)
  /-- The keys ran out. -/
  | waiting
  /-- The word in front of the cursor had no start. -/
  | failed

/-- Press keys until the line is over. -/
def pressAll (prompt : String) (src : Completion.Sources) : State → List Key → Reading
  | _, [] => .waiting
  | s, k :: rest => match press prompt src s k with
    | .next s => pressAll prompt src s rest
    | .done o s => .read o s.screen s.history rest
    | .failed => .failed

/-- Read one line. -/
def readLine (prompt : String) (src : Completion.Sources) (history : History)
    (keys : List Key) : Reading :=
  pressAll prompt src ⟨.empty, history.reset, prompt⟩ keys

/-- Read lines until the keys run out; with `remember` each line is added to the history.
`none` if a word had no start.  `count` bounds the number of lines. -/
def readLines (prompt : String) (src : Completion.Sources) (remember : Bool) :
    Nat → History → List Key → Option (List (Outcome × String))
  | 0, _, _ => some []
  | count + 1, history, keys =>
    if keys.isEmpty then some []
    else match readLine prompt src history keys with
      | .waiting => some []
      | .failed => none
      | .read o screen history rest =>
        let history := match o with
          | .line text => if remember then (history.add text).1 else history
          | _ => history
        (readLines prompt src remember count history rest).map ((o, screen) :: ·)

end Conch.Editor
