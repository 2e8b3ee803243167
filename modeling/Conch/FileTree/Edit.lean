import Conch.FileTree

/-!
# Changes of a file tree

## Main definitions

* `Conch.Edit` — a change as data; `FileTree.apply` — its effect.
* `FileTree.install` — put a node at a path, with the directories above it.
-/

set_option autoImplicit false

namespace Conch

open Text (Octets)

/-- A change of a file tree. -/
inductive Edit where
  | mkdir (path : String)
  | mkdirAll (path : String)
  | rmdir (path : String)
  | unlink (path : String)
  /-- Make an empty file, if there is none. -/
  | create (path : String)
  /-- Write behind the contents of a file, which is made if it is missing. -/
  | append (path : String) (data : Octets)
  /-- Replace the contents of a file, which is made if it is missing. -/
  | replace (path : String) (data : Octets)
  deriving DecidableEq, Repr, Inhabited

/-- The path at which a change happens. -/
def Edit.path : Edit → String
  | mkdir path | mkdirAll path | rmdir path | unlink path | create path | append path _
  | replace path _ => path

namespace FileTree

/-- What a change that is made or refused as a whole leads to. -/
def settled (t : FileTree) : Except Errno FileTree → Except Errno Unit × FileTree
  | .ok t => (.ok (), t)
  | .error e => (.error e, t)

/-- The effect of a change at a path that can be named, and the tree behind it.  Only directories
above a directory that cannot be made stay behind when a change is refused. -/
def change (t : FileTree) : Edit → Except Errno Unit × FileTree
  | .mkdir path => t.settled (t.mkdir path)
  | .mkdirAll path => match t.mkdirAll path with
    | (none, t) => (.ok (), t)
    | (some e, t) => (.error e, t)
  | .rmdir path => t.settled (t.rmdir path)
  | .unlink path => t.settled (t.unlink path)
  | .create path => t.settled do return (← t.create path).1
  | .append path data => t.settled do
    let (t, i) ← t.create path
    return t.setContents i (t.contents i ++ data)
  | .replace path data => t.settled do
    let (t, i) ← t.create path
    return t.setContents i data

/-- The effect of a change, and the tree behind it.  No path has a NUL in it. -/
def apply (t : FileTree) (e : Edit) : Except Errno Unit × FileTree :=
  if e.path.any (· = Char.ofNat 0) then (.error .invalid, t) else t.change e

/-- Put a node at a path, in place of what is there, and make the directories above it. -/
def install (t : FileTree) (path : String) (n : Node) : FileTree :=
  match n with
  | .directory .. => (t.apply (.mkdirAll path)).2
  | _ =>
    let t := match Path.parent? path with
      | some above => (t.apply (.mkdirAll above)).2
      | none => t
    match t.place path with
    | .ok p => (t.add p.dir p.name n).1
    | .error _ => t

end FileTree

end Conch
