import Conch.FileTree.Edit
import Conch.Text.Blank

/-!
# Command history

The commands entered so far, oldest first, with a cursor that the arrow keys move.  Adding an
entry tells what has to happen to the history file: it grows by a line, or it is replaced when
old entries fall out.

## Main definitions

* `Conch.History` — entries, their bound and the cursor.
* `History.add` — remember a command; `History.FileEdit` — what to do to the file.
* `History.previous`, `History.next` — move the cursor.
* `History.ofFile` — the history that a file holds.
-/

set_option autoImplicit false

namespace Conch

open Text

/-- Entries, oldest first, and a position between them. -/
structure History where
  entries : List String
  /-- How many entries are kept. -/
  bound : Nat
  /-- The entry that was recalled last; the number of entries when none was. -/
  position : Nat
  deriving DecidableEq, Repr, Inhabited

namespace History

/-- What adding an entry does to the history file. -/
inductive FileEdit where
  | unchanged
  /-- Add a line at the end. -/
  | append (line : String)
  /-- Write the whole file. -/
  | replace (text : String)
  deriving DecidableEq, Repr, Inhabited

/-- A history without entries. -/
def new (bound : Nat) : History := ⟨[], bound, 0⟩

/-- The lines of some bytes: each ends at a newline, and a carriage return in front of that newline
belongs to the line end. -/
def lines : List Char → List Char → List (List Char)
  | [], [] => []
  | line, [] => [line.reverse]
  | '\r' :: line, '\n' :: cs => line.reverse :: lines [] cs
  | line, '\n' :: cs => line.reverse :: lines [] cs
  | line, c :: cs => lines (c :: line) cs

/-- The last `bound` entries. -/
def keepLast (bound : Nat) (entries : List String) : List String :=
  entries.drop (entries.length - bound)

/-- The lines in front of the first one that encodes no text. -/
def decodeLines : List (List Char) → List String
  | [] => []
  | line :: rest => match Octets.toText? (String.ofList line) with
    | some text => text :: decodeLines rest
    | none => []

/-- The history that a file holds; a missing file holds none. -/
def ofFile (bound : Nat) (file : Option Octets) : History :=
  let entries := keepLast bound (decodeLines (lines [] (file.getD "").toList))
  ⟨entries, bound, entries.length⟩

/-- The text of a history file with these entries. -/
def fileText (entries : List String) : String :=
  "\n".intercalate entries ++ "\n"

/-- Remember a command without the blanks at its end.  A blank command is not remembered, nor is
one that equals the last entry. -/
def add (h : History) (command : String) : History × FileEdit :=
  let command := String.ofList (trimEnd command.toList)
  if command.isEmpty || h.bound = 0 then (h, .unchanged)
  else if h.entries.getLast? = some command then
    ({ h with position := h.entries.length }, .unchanged)
  else
    let grown := h.entries ++ [command]
    let entries := keepLast h.bound grown
    let edit := if h.bound < grown.length then .replace (fileText entries)
      else .append (command ++ "\n")
    ({ h with entries, position := entries.length }, edit)

/-- The entry in front of the cursor, which moves to it. -/
def previous (h : History) : History × Option String :=
  match h.position with
  | 0 => (h, none)
  | n + 1 => ({ h with position := n }, h.entries[n]?)

/-- The entry behind the cursor, which moves to it; behind the last one there is none. -/
def next (h : History) : History × Option String :=
  if h.position + 1 < h.entries.length then
    ({ h with position := h.position + 1 }, h.entries[h.position + 1]?)
  else ({ h with position := h.entries.length }, none)

/-- Put the cursor behind the last entry. -/
def reset (h : History) : History := { h with position := h.entries.length }

/-- What adding an entry does to the history file at a path. -/
def FileEdit.at? (path : String) : FileEdit → Option Edit
  | .unchanged => none
  | .append line => some (.append path (Octets.ofText line))
  | .replace text => some (.replace path (Octets.ofText text))

/-- The file tree after an entry has been added; a file that cannot be written stays as it is. -/
def FileEdit.save (edit : FileEdit) (path : String) (t : FileTree) : FileTree :=
  match edit.at? path with
  | none => t
  | some e => (t.apply e).2

end History

end Conch
