import Conch.FileTree
import Conch.Pattern

/-!
# Paths that match a pattern

The paths of a file tree that match a pattern, depth first and in order of their names.  Names
that start with a dot are found only by components without wildcards; a component that starts
with a literal dot is also tried against `.` and `..`.

## Main definitions

* `Conch.Glob.expand?` — the matches of an absolute pattern, or nothing if it is malformed.
-/

set_option autoImplicit false

namespace Conch.Glob

open Pattern

/-- A path that has been reached. -/
structure Spot where
  path : String
  isDirectory : Bool
  deriving DecidableEq, Repr, Inhabited

/-- What is at a path, through links. -/
def Spot.at (t : FileTree) (path : String) : Spot := ⟨path, t.pathIsDirectory path⟩

/-- The entries of a directory that wildcards may match, with their names.  Only a link has to be
followed to tell whether it leads to a directory. -/
def children (t : FileTree) (s : Spot) : List (String × Spot) :=
  match t.find s.path true with
  | .error _ => []
  | .ok dir => ((t.entries? dir).getD []).filterMap fun (name, i) =>
    let path := Path.join s.path name
    if name.startsWith "." then none
    else match t.nodes[i]? with
      | some (.directory ..) => some (name, ⟨path, true⟩)
      | some (.link _) => some (name, .at t path)
      | _ => some (name, ⟨path, false⟩)

/-- Something is at the path, possibly a link that leads nowhere. -/
def present (t : FileTree) (path : String) : Bool :=
  (t.find path false).isOk || (t.find path true).isOk

/-- The paths from a spot that match the components.  `depth` bounds how far down `**` goes. -/
def below (t : FileTree) : Nat → List Component → Spot → List Spot
  | _, [], s => [s]
  | 0, _ :: _, _ => []
  | depth + 1, p :: rest, s =>
    match p.literal? with
    | some name =>
      let next := Path.join s.path name
      if (if name = "." || name = ".." then s.isDirectory else present t next) then
        below t depth rest (.at t next)
      else []
    | none =>
      if !s.isDirectory then []
      else
        let dots := if p.startsWithDot then
            (["..", "."].filter p.matches).flatMap fun dot =>
              below t depth rest (.at t (Path.join s.path dot))
          else []
        dots ++ (children t s).flatMap fun (name, next) =>
          match p with
          | .items _ => if p.matches name then below t depth rest next else []
          | .recursive =>
            let deeper := if next.isDirectory then below t depth (p :: rest) next else []
            match rest with
            | [] => if next.isDirectory then next :: deeper else []
            | q :: after =>
              (if q.matches name then below t depth after next else []) ++ deeper

/-- Neighbouring `**` count once. -/
def collapse : List Component → List Component
  | .recursive :: .recursive :: rest => collapse (.recursive :: rest)
  | p :: rest => p :: collapse rest
  | [] => []

/-- The paths that match an absolute pattern, or nothing if the pattern is malformed.  A slash at
the end of the pattern asks for directories.  Every directory that `**` enters makes the path
longer, and a path that is too long cannot be entered. -/
def expand? (t : FileTree) (pattern : String) : Option (List String) := do
  let components ← compile? (pattern.toList.drop 1)
  let spots := below t (components.length + FileTree.maxPath) (collapse components) (.at t "/")
  let asked := if pattern.endsWith "/" then spots.filter Spot.isDirectory else spots
  return asked.map Spot.path

end Conch.Glob
