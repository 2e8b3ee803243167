import Conch.Text.Octets

/-!
# Paths as text

Joining, splitting and comparing paths without looking at a file tree.  A path is a text whose
components are separated by `/`; empty components and `.` behind the first component do not
count.

## Main definitions

* `Conch.Path.join` — a path taken relative to another.
* `Conch.Path.components` — the components that count.
* `Conch.Path.stripPrefix?` — what is left of a path behind its leading components.
* `Conch.Path.parent?` — the path without its last component.
-/

set_option autoImplicit false

namespace Conch.Path

/-- A path is absolute when it starts with `/`. -/
def isAbsolute (path : String) : Bool := path.startsWith "/"

/-- `path` seen from `base`: an absolute path stands for itself. -/
def join (base path : String) : String :=
  if isAbsolute path then path
  else if base.isEmpty || base.endsWith "/" then base ++ path
  else base ++ "/" ++ path

/-- The path that some bytes name, seen from `base`; no bytes name nothing. -/
def ofOctets (base : String) (name : Text.Octets) : String :=
  if name.isEmpty then "" else join base (Text.Octets.toText name)

/-- The parts between slashes, empty ones included. -/
def splitSlash : List Char → List (List Char)
  | [] => [[]]
  | '/' :: cs => [] :: splitSlash cs
  | c :: cs => match splitSlash cs with
    | [] => [[c]]
    | part :: parts => (c :: part) :: parts

/-- The parts between slashes that are neither empty nor `.`. -/
def names (path : String) : List String :=
  (splitSlash path.toList).map String.ofList |>.filter fun part => part ≠ "" ∧ part ≠ "."

/-- The components that count: `/` for an absolute path, a leading `.` of a relative one, and
every other part that is neither empty nor `.`. -/
def components (path : String) : List String :=
  if isAbsolute path then "/" :: names path
  else if path = "." || path.startsWith "./" then "." :: names path
  else names path

/-- Drop slashes and `.` components from the front. -/
def skipFront : List Char → List Char
  | '/' :: cs => skipFront cs
  | ['.'] => []
  | '.' :: '/' :: cs => skipFront cs
  | cs => cs

/-- Drop slashes and `.` components from the reversed end. -/
def skipBack : List Char → List Char
  | '/' :: cs => skipBack cs
  | '.' :: '/' :: cs => skipBack cs
  | cs => cs

/-- What is left of `cs`, whose front has been skipped, behind the components `names`. -/
def afterNames : List String → List Char → Option (List Char)
  | [], cs => some cs
  | name :: names, cs =>
    let cs := skipFront cs
    let (part, rest) := cs.span (· ≠ '/')
    if String.ofList part = name then afterNames names rest else none

/-- What is left of `path` behind the components of `base`, if it starts with them. -/
def stripPrefix? (base path : String) : Option String :=
  let start := if isAbsolute base then isAbsolute path else !isAbsolute path
  if !start || !(components base).isPrefixOf (components path) then none
  else (afterNames (names base) path.toList).map fun rest =>
    String.ofList (skipBack (skipFront rest).reverse).reverse

/-- Components as a path. -/
def ofComponents : List String → String
  | "/" :: rest => "/" ++ "/".intercalate rest
  | parts => "/".intercalate parts

/-- The path without its last component; the root and the empty path have none. -/
def parent? (path : String) : Option String :=
  match (components path).reverse with
  | [] => none
  | ["/"] => none
  | _ :: rest => some (ofComponents rest.reverse)

/-- The last component, unless it is the root, `.` or `..`. -/
def fileName? (path : String) : Option String :=
  match (components path).getLast? with
  | some "/" | some "." | some ".." | none => none
  | some name => some name

end Conch.Path
