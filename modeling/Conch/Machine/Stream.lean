import Conch.Machine

/-!
# Reading and writing on the machine

A pipe holds the bytes that have been written and not read.  Its reader waits while it is empty
and somebody could still write; its writer waits while it is full, and fails when nobody can
read any more.  What does not fit is written in parts.

## Main definitions

* `Machine.openInput`, `Machine.openOutput` — open files.
* `Machine.readBy` — take a part of what is there.
* `Machine.write` — write to a sink; `Machine.part?` — the part that fits.
-/

set_option autoImplicit false

namespace Conch.Machine

open Text (Octets)

/-! ## Files -/

/-- Remember an opened file. -/
def register (m : Machine) (o : Opened) : FileId × Machine :=
  let (f, m) := m.newId
  (f, { m with files := (f, o) :: m.files })

/-- The path has a NUL in it. -/
def hasNul (path : String) : Bool := path.toList.any (· = Char.ofNat 0)

/-- Open a file for reading. -/
def openInput (m : Machine) (path : String) : Except IoError FileId × Machine :=
  if hasNul path then (.error .nulInPath, m)
  else match m.tree.find path true with
    | .error e => (.error (.os e), m)
    | .ok node =>
      let (f, m) := m.register ⟨node, 0, false⟩
      (.ok f, m)

/-- Make the directories above a path, if they are missing: what has gone wrong, if anything, and
the tree behind it. -/
def withParents (t : FileTree) (path : String) : Option IoError × FileTree :=
  match Path.parent? path with
  | none => (none, t)
  | some above =>
    if hasNul above then (some .nulInPath, t)
    else if t.pathExists above then (none, t)
    else
      let (refusal, t) := t.mkdirAll above
      (refusal.map .os, t)

/-- Open a file for writing.  It is made if it is missing, with the directories above it, and
emptied unless it is opened for appending. -/
def openOutput (m : Machine) (path : String) (append : Bool) :
    Except IoError FileId × Machine :=
  match withParents m.tree path with
  | (some e, tree) => (.error e, { m with tree })
  | (none, tree) =>
    if hasNul path then (.error .nulInPath, { m with tree })
    else match tree.create path with
      | .error e => (.error (.os e), { m with tree })
      | .ok (tree, node) =>
        let tree := if append then tree else tree.setContents node ""
        let (f, m) := { m with tree }.register ⟨node, 0, append⟩
        (.ok f, m)

/-- Write to an opened file at its position. -/
def writeFile (m : Machine) (f : FileId) (data : Octets) : Except Errno Unit × Machine :=
  match m.files.lookup f with
  | none => (.ok (), m)
  | some o => match m.tree.nodes[o.node]? with
    | some .full => (.error .noSpace, m)
    | _ =>
      let offset := if o.append then (m.tree.contents o.node).length else o.offset
      (.ok (), { m with
        tree := m.tree.writeAt o.node offset data
        files := assign m.files f { o with offset := offset + data.length } })

/-! ## Reading -/

/-- A way to take a part of some bytes, given whether more can come; nothing while it has to
wait. -/
abbrev Taker := Octets → Bool → Option (Octets × Octets)

/-- Take at most `limit` bytes. -/
def takeUpTo (limit : Nat) : Taker := fun data more =>
  if data.isEmpty then if more then none else some ("", "")
  else if data.length ≤ limit then some (data, "")
  else
    let bytes := data.toList
    some (String.ofList (bytes.take limit), String.ofList (bytes.drop limit))

/-- Take up to the end of the first line. -/
def takeLine : Taker := fun data more =>
  let bytes := data.toList
  let line := bytes.takeWhile (· ≠ '\n')
  match bytes.drop line.length with
  | [] => if more then none else some (data, "")
  | newline :: rest => some (String.ofList (line ++ [newline]), String.ofList rest)

/-- Take a part of what a source holds; nothing while the reader has to wait. -/
def readBy (m : Machine) (src : Source) (take : Taker) :
    Option (Except Errno Octets × Machine) :=
  match src with
  | .null | .text _ => some (.ok "", m)
  | .inherit => (take m.input false).map fun (part, rest) => (.ok part, { m with input := rest })
  | .pipe p =>
    let content := (m.pipes.lookup p).getD ""
    (take content (m.isHeld (.writer p))).map fun (part, rest) =>
      (.ok part, { m with pipes := assign m.pipes p rest })
  | .file f => match m.files.lookup f with
    | none => some (.ok "", m)
    | some o =>
      if m.tree.isDirectory o.node then some (.error .isDirectory, m)
      else
        let data := m.tree.contents o.node
        let left := if o.offset = 0 then data else String.ofList (data.toList.drop o.offset)
        (take left false).map fun (part, _) =>
          let moved := { o with offset := o.offset + part.length }
          (.ok part, { m with files := assign m.files f moved })

/-! ## Writing -/

/-- How many bytes a pipe can hold. -/
def pipeCapacity : Nat := 65536

/-- How many bytes go into a pipe together or not at all. -/
def atomicSize : Nat := 4096

/-- How many of `size` bytes a pipe takes now. -/
def intake (m : Machine) (p : PipeId) (size : Nat) : Nat :=
  let room := pipeCapacity - ((m.pipes.lookup p).getD "").length
  if size ≤ room then size else if size ≤ atomicSize then 0 else room

/-- Write into what is captured. -/
def writeBuffer (m : Machine) (b : BufferId) (data : Octets) : Machine :=
  { m with buffers := assign m.buffers b ((m.buffers.lookup b).getD "" ++ data) }

/-- Put bytes into a pipe. -/
def pour (m : Machine) (p : PipeId) (data : Octets) : Machine :=
  { m with pipes := assign m.pipes p ((m.pipes.lookup p).getD "" ++ data) }

/-- What becomes of the machine when a part of the bytes goes into a pipe, and the bytes that are
left; nothing if that is not what happens now. -/
def part? (m : Machine) (dst : Sink) (data : Octets) : Option (Octets × Machine) :=
  match dst with
  | .pipe p =>
    let n := m.intake p data.length
    if !m.isHeld (.reader p) || n = 0 || data.length ≤ n then none
    else
      let bytes := data.toList
      some (String.ofList (bytes.drop n), m.pour p (String.ofList (bytes.take n)))
  | _ => none

/-- Write to a sink; nothing while the writer has to wait.  A process that writes into a pipe
that nobody can read gets a signal. -/
def write (m : Machine) (pid : Option Pid) (dst : Sink) (data : Octets) :
    Option (Except Errno Unit × Machine) :=
  match dst with
  | .out => some (.ok (), { m with out := m.out ++ data })
  | .err => some (.ok (), { m with err := m.err ++ data })
  | .file f => some (m.writeFile f data)
  | .capture b => some (.ok (), m.writeBuffer b data)
  | .channel b _ => some (.ok (), m.writeBuffer b data)
  | .pipe p =>
    if !m.isHeld (.reader p) then
      some (.error .brokenPipe, match pid with
        | some pid => deliver .pipe m pid
        | none => m)
    else if m.intake p data.length < data.length then none
    else some (.ok (), m.pour p data)

end Conch.Machine
