import Conch.Errno
import Conch.Path
import Conch.Text.Octets

/-!
# A tree of files

Directories, regular files, symbolic links, installed programs and devices, addressed by absolute
paths.  The contents of a file are bytes.  Nodes are numbered, so that a file that has been opened
stays the same file when its name goes away.

## Main definitions

* `Conch.FileTree` — the nodes; node `0` is the root directory.
* `FileTree.find` — the node at a path, through links.
* `FileTree.place` — the directory entry that a path names, which need not exist.
* `FileTree.create`, `FileTree.mkdir`, `FileTree.unlink`, `FileTree.rmdir` — edits.
* `FileTree.canonical` — the path of a directory without links.
-/

set_option autoImplicit false

namespace Conch

open Text (Octets)

/-- The number of a node. -/
abbrev NodeId := Nat

/-- What a path can lead to. -/
inductive Node where
  | file (contents : Octets) (executable : Bool)
  | directory (parent : NodeId) (entries : List (String × NodeId))
  | link (target : String)
  /-- An installed program. -/
  | program (name : String)
  /-- The null device: it reads as empty and swallows what is written to it. -/
  | null
  /-- The full device: it reads as empty, and nothing can be written to it. -/
  | full
  deriving DecidableEq, Repr, Inhabited

/-- The nodes of a file system. -/
structure FileTree where
  nodes : Array Node
  deriving DecidableEq, Repr, Inhabited

namespace FileTree

/-- Only the root directory. -/
def empty : FileTree := ⟨#[.directory 0 []]⟩

/-- The number of the root directory. -/
def root : NodeId := 0

/-- The entries of a directory, by name. -/
def entries? (t : FileTree) (i : NodeId) : Option (List (String × NodeId)) :=
  match t.nodes[i]? with
  | some (.directory _ entries) => some entries
  | _ => none

/-- The node is a directory. -/
def isDirectory (t : FileTree) (i : NodeId) : Bool := (t.entries? i).isSome

/-! ## Looking up paths -/

/-- How many links one path may lead through. -/
def maxLinks : Nat := 40

/-- How many bytes one name may have. -/
def maxName : Nat := 255

/-- How many bytes a path may have. -/
def maxPath : Nat := 4095

/-- The components of a path, with `.` for a slash at its end. -/
def steps (path : String) : List String :=
  ((Path.splitSlash path.toList).map String.ofList).filter (· ≠ "") ++
    (if path.endsWith "/" then ["."] else [])

/-- One step from a node: only directories can be stepped into. -/
def enter (t : FileTree) (dir : NodeId) (name : String) : Except Errno NodeId :=
  match t.nodes[dir]? with
  | some (.directory parent entries) =>
    if name = "." then .ok dir
    else if name = ".." then .ok parent
    else if maxName < name.utf8ByteSize then .error .nameTooLong
    else match entries.lookup name with
      | some i => .ok i
      | none => .error .noEntry
  | _ => .error .notDirectory

/-- Follow the steps from `dir`.  `through` continues behind a link; the last step follows one
only if `last` says so. -/
def walkWith (t : FileTree) (last : Bool)
    (through : NodeId → List String → Except Errno NodeId) :
    NodeId → List String → Except Errno NodeId
  | dir, [] => .ok dir
  | dir, name :: rest => do
    let i ← t.enter dir name
    match t.nodes[i]? with
    | some (.link target) =>
      if rest.isEmpty && !last then .ok i
      else through (if Path.isAbsolute target then root else dir) (steps target ++ rest)
    | _ => walkWith t last through i rest

/-- Follow the steps from `dir` through at most `links` links. -/
def walk (t : FileTree) (last : Bool) : Nat → NodeId → List String → Except Errno NodeId
  | 0 => t.walkWith last fun _ _ => .error .loop
  | links + 1 => t.walkWith last (t.walk last links)

/-- The node at an absolute path.  A link at its end is followed if `follow` says so. -/
def find (t : FileTree) (path : String) (follow : Bool) : Except Errno NodeId :=
  if path.isEmpty then .error .noEntry
  else if maxPath < path.utf8ByteSize then .error .nameTooLong
  else t.walk follow maxLinks root (steps path)

/-- The node at a path, through links. -/
def node? (t : FileTree) (path : String) : Option Node :=
  match t.find path true with
  | .ok i => t.nodes[i]?
  | .error _ => none

/-- The path leads to something. -/
def pathExists (t : FileTree) (path : String) : Bool := (t.node? path).isSome

/-- The path leads to a directory. -/
def pathIsDirectory (t : FileTree) (path : String) : Bool :=
  match t.node? path with
  | some (.directory ..) => true
  | _ => false

/-- The path leads to something that can be run. -/
def isExecutable (t : FileTree) (path : String) : Bool :=
  match t.node? path with
  | some (.file _ executable) => executable
  | some (.program _) => true
  | _ => false

/-- The contents of the regular file at a path. -/
def read? (t : FileTree) (path : String) : Option Octets :=
  match t.node? path with
  | some (.file contents _) => some contents
  | some .null | some .full => some ""
  | _ => none

/-- The names in the directory at a path, in order. -/
def list? (t : FileTree) (path : String) : Option (List String) :=
  match t.node? path with
  | some (.directory _ entries) => some (entries.map Prod.fst)
  | _ => none

/-- A directory entry that a path names. -/
structure Place where
  dir : NodeId
  name : String
  /-- What is there now. -/
  node : Option NodeId
  /-- The path ends in a slash. -/
  slash : Bool
  deriving DecidableEq, Repr

/-- The directory that holds what a path names, seen from `dir`, and the last name of the path. -/
def lastStep (t : FileTree) (dir : NodeId) (path : String) : Except Errno (NodeId × String) := do
  let names := ((Path.splitSlash path.toList).map String.ofList).filter (· ≠ "")
  match names.getLast? with
  | none => .error .fileExists
  | some name =>
    let dir ← t.walk true maxLinks dir names.dropLast
    if t.isDirectory dir then .ok (dir, name) else .error .notDirectory

/-- The entry that the last name of a path stands for, seen from `dir`. -/
def placeFrom (t : FileTree) (dir : NodeId) (path : String) : Except Errno Place := do
  let (dir, name) ← t.lastStep dir path
  match t.enter dir name with
  | .ok i => .ok ⟨dir, name, some i, path.endsWith "/"⟩
  | .error .noEntry => .ok ⟨dir, name, none, path.endsWith "/"⟩
  | .error e => .error e

/-- The entry that an absolute path names, not following a link at its end. -/
def place (t : FileTree) (path : String) : Except Errno Place :=
  if path.isEmpty then .error .noEntry
  else if maxPath < path.utf8ByteSize then .error .nameTooLong
  else t.placeFrom root path

/-! ## Edits -/

/-- Entries stay sorted by name. -/
def insertEntry (name : String) (i : NodeId) :
    List (String × NodeId) → List (String × NodeId)
  | [] => [(name, i)]
  | (n, j) :: rest =>
    if name < n then (name, i) :: (n, j) :: rest
    else if name = n then (name, i) :: rest
    else (n, j) :: insertEntry name i rest

/-- Change the entries of a directory. -/
def updateEntries (t : FileTree) (dir : NodeId)
    (f : List (String × NodeId) → List (String × NodeId)) : FileTree :=
  match t.nodes[dir]? with
  | some (.directory parent entries) => ⟨t.nodes.setIfInBounds dir (.directory parent (f entries))⟩
  | _ => t

/-- Put a new node into a directory. -/
def add (t : FileTree) (dir : NodeId) (name : String) (n : Node) : FileTree × NodeId :=
  let i := t.nodes.size
  (updateEntries ⟨t.nodes.push n⟩ dir (insertEntry name i), i)

/-- Take a name out of a directory. -/
def remove (t : FileTree) (dir : NodeId) (name : String) : FileTree :=
  t.updateEntries dir (·.filter fun (n, _) => n ≠ name)

/-- Make a directory. -/
def mkdir (t : FileTree) (path : String) : Except Errno FileTree := do
  let p ← t.place path
  match p.node with
  | some _ => .error .fileExists
  | none => .ok (t.add p.dir p.name (.directory p.dir [])).1

/-- Make a symbolic link. -/
def symlink (t : FileTree) (path target : String) : Except Errno FileTree := do
  let p ← t.place path
  match p.node with
  | some _ => .error .fileExists
  | none => .ok (t.add p.dir p.name (.link target)).1

/-- Remove a name that is no directory. -/
def unlink (t : FileTree) (path : String) : Except Errno FileTree := do
  let p ← t.place path
  match p.node with
  | none => .error .noEntry
  | some i =>
    if t.isDirectory i then .error .isDirectory
    else if p.slash then .error .notDirectory
    else .ok (t.remove p.dir p.name)

/-- Remove an empty directory. -/
def rmdir (t : FileTree) (path : String) : Except Errno FileTree := do
  let p ← t.place path
  match p.node with
  | none => .error .noEntry
  | some i => match t.entries? i with
    | none => .error .notDirectory
    | some entries =>
      if p.name = "." then .error .invalid
      else if !entries.isEmpty || p.name = ".." then .error .notEmpty
      else .ok (t.remove p.dir p.name)

/-- The file that the path names from `dir`, made if it is missing.  A slash at the end of the path
asks for a directory, which is no file.  `through` continues behind a link at the end. -/
def createWith (t : FileTree) (through : NodeId → String → Except Errno (FileTree × NodeId))
    (dir : NodeId) (path : String) : Except Errno (FileTree × NodeId) := do
  let start := if Path.isAbsolute path then root else dir
  let (dir, name) ← t.lastStep start path
  if path.endsWith "/" then .error .isDirectory
  else match t.enter dir name with
    | .error .noEntry => .ok (t.add dir name (.file "" false))
    | .error e => .error e
    | .ok i => match t.nodes[i]? with
      | none => .error .noEntry
      | some (.directory ..) => .error .isDirectory
      | some (.link target) => through dir target
      | some _ => .ok (t, i)

/-- The file that the path names from `dir`, made if it is missing.  A link at the end is followed,
at most `links` times. -/
def createFrom (t : FileTree) : Nat → NodeId → String → Except Errno (FileTree × NodeId)
  | 0 => t.createWith fun _ _ => .error .loop
  | links + 1 => t.createWith (t.createFrom links)

/-- The file at an absolute path, made if it is missing. -/
def create (t : FileTree) (path : String) : Except Errno (FileTree × NodeId) :=
  if path.isEmpty then .error .noEntry
  else if maxPath < path.utf8ByteSize then .error .nameTooLong
  else if (Path.names path).isEmpty then .error .isDirectory
  else t.createFrom maxLinks root path

/-- The contents of a regular file. -/
def contents (t : FileTree) (i : NodeId) : Octets :=
  match t.nodes[i]? with
  | some (.file contents _) => contents
  | _ => ""

/-- Replace the contents of a regular file. -/
def setContents (t : FileTree) (i : NodeId) (contents : Octets) : FileTree :=
  match t.nodes[i]? with
  | some (.file _ executable) => ⟨t.nodes.setIfInBounds i (.file contents executable)⟩
  | _ => t

/-- Write at a position of a regular file, which grows as needed; a gap is filled with zeros. -/
def writeAt (t : FileTree) (i : NodeId) (offset : Nat) (data : Octets) : FileTree :=
  let old := t.contents i
  if offset = old.length then t.setContents i (old ++ data)
  else
    let bytes := old.toList
    let gap := List.replicate (offset - bytes.length) (Char.ofNat 0)
    t.setContents i (String.ofList
      (bytes.take offset ++ gap ++ data.toList ++ bytes.drop (offset + data.length)))

/-- Make a directory and those above it that are missing: what has gone wrong, if anything, and the
tree behind it, which keeps the directories that have been made before.  `levels` bounds how far
up. -/
def mkdirAllWith (t : FileTree) : Nat → String → Option Errno × FileTree
  | 0, _ => (some .noEntry, t)
  | levels + 1, path => match t.mkdir path with
    | .ok t => (none, t)
    | .error .noEntry => match Path.parent? path with
      | none => (some .noEntry, t)
      | some above => match t.mkdirAllWith levels above with
        | (some e, t) => (some e, t)
        | (none, t) => match t.mkdir path with
          | .ok t => (none, t)
          | .error e => (if t.pathIsDirectory path then none else some e, t)
    | .error e => (if t.pathIsDirectory path then none else some e, t)

/-- Make a directory and those above it that are missing. -/
def mkdirAll (t : FileTree) (path : String) : Option Errno × FileTree :=
  t.mkdirAllWith ((Path.components path).length + 1) path

/-! ## Paths of directories -/

/-- The name under which a directory holds a node. -/
def nameIn (t : FileTree) (dir i : NodeId) : Option String :=
  ((t.entries? dir).getD []).find? (fun (_, j) => j = i) |>.map Prod.fst

/-- The names from the root down to a directory, at most `depth` of them. -/
def namesTo (t : FileTree) : Nat → NodeId → List String → Option (List String)
  | 0, _, _ => none
  | depth + 1, i, below =>
    if i = root then some below
    else match t.nodes[i]? with
      | some (.directory parent _) => match t.nameIn parent i with
        | some name => t.namesTo depth parent (name :: below)
        | none => none
      | _ => none

/-- The path of the directory at `path`, without links and dots.  The path is followed step by
step, so that its length does not matter. -/
def canonical (t : FileTree) (path : String) : Except IoError String :=
  if path.any (· = Char.ofNat 0) then .error .nulInPath
  else match if path.isEmpty then .error .noEntry else t.walk true maxLinks root (steps path) with
    | .error e => .error (.os e)
    | .ok i =>
      if t.isDirectory i then match t.namesTo (t.nodes.size + 1) i [] with
        | some names => .ok ("/" ++ "/".intercalate names)
        | none => .error (.os .noEntry)
      else .error .notADirectory

/-! ## Listing everything -/

/-- Every entry below a directory, depth first, as its path and the node. -/
def below (t : FileTree) : Nat → String → NodeId → List (String × Node)
  | 0, _, _ => []
  | depth + 1, path, i => ((t.entries? i).getD []).flatMap fun (name, j) =>
    let path := path ++ name
    match t.nodes[j]? with
    | some (.directory p es) => (path, .directory p es) :: t.below depth (path ++ "/") j
    | some n => [(path, n)]
    | none => []

end FileTree

end Conch
