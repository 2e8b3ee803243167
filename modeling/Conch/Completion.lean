import Conch.FileTree

/-!
# Completing words

The words that the word in front of the cursor could become: names of builtins and of programs
for the first word of a line, names of files for the others.

## Main definitions

* `Conch.Completion.Sources` — where candidates come from.
* `Conch.Completion.candidates` — the candidates of a word, sorted, each once.
* `Conch.Completion.commonPrefix` — the longest text that all candidates start with.
-/

set_option autoImplicit false

namespace Conch.Completion

/-- Where candidates come from. -/
structure Sources where
  tree : FileTree
  /-- Names of builtins. -/
  builtins : List String
  /-- The working directory. -/
  cwd : String
  /-- The value of `PATH`. -/
  path : Option String
  /-- The directory from which relative directories of `PATH` count. -/
  start : String

/-- The directory and the name in front of the cursor, if the word has a slash. -/
def splitDirectory (word : String) : Option (String × String) :=
  let (name, front) := word.toList.reverse.span (· ≠ '/')
  match front with
  | [] => none
  | ['/'] => some ("/", String.ofList name.reverse)
  | _ :: dir => some (String.ofList dir.reverse, String.ofList name.reverse)

/-- The entries of a directory that start with `stem`; directories get a slash, and names with
a leading dot show only if `stem` has one. -/
def entriesWith (t : FileTree) (dir stem : String) : List String :=
  let names := (t.list? dir).getD []
  let shown := names.filter fun name =>
    name.startsWith stem && (!name.startsWith "." || stem.startsWith ".")
  shown.map fun name => if t.pathIsDirectory (Path.join dir name) then name ++ "/" else name

/-- The programs in the directories of `PATH` that start with `stem`. -/
def programsWith (src : Sources) (stem : String) : List String :=
  let dirs := ((src.path.map (·.splitOn ":")).getD []).filter (· ≠ "")
  dirs.flatMap fun dir =>
    let dir := Path.join src.start dir
    ((src.tree.list? dir).getD []).filter fun name =>
      name.startsWith stem && src.tree.isExecutable (Path.join dir name)

/-- Insert into a sorted list, unless the word is there. -/
def insertWord (word : String) : List String → List String
  | [] => [word]
  | w :: rest =>
    if word < w then word :: w :: rest
    else if word = w then w :: rest
    else w :: insertWord word rest

/-- Sorted, each word once. -/
def sortWords (words : List String) : List String := words.foldr insertWord []

/-- What `word` could become; `first` tells that it is the first word of its line. -/
def candidates (src : Sources) (word : String) (first : Bool) : List String :=
  sortWords <| match splitDirectory word with
    | some (dir, stem) =>
      let joiner := if dir.endsWith "/" then "" else "/"
      (entriesWith src.tree (Path.join src.cwd dir) stem).map fun name => dir ++ joiner ++ name
    | none =>
      if first then src.builtins.filter (·.startsWith word) ++ programsWith src word
      else entriesWith src.tree src.cwd word

/-- The longest common prefix of two lists. -/
def common : List Char → List Char → List Char
  | a :: as, b :: bs => if a = b then a :: common as bs else []
  | _, _ => []

/-- The longest text that all words start with. -/
def commonPrefix : List String → String
  | [] => ""
  | word :: rest => String.ofList (rest.foldl (fun acc w => common acc w.toList) word.toList)

end Conch.Completion
