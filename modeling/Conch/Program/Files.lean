import Conch.Act
import Conch.Program.Quotation
import Conch.Program.Text

/-!
# Programs that change or list files

## Main definitions

* `Conch.Program.makeAll`, `Conch.Program.touchAll`, `Conch.Program.removeAll`,
  `Conch.Program.removeDirs` — changes, operand by operand.
* `Conch.Program.listing` — what `ls` writes.
-/

set_option autoImplicit false

namespace Conch.Program

open Act (ask)
open Text (Octets)

/-- Options in front of the operands: the letters of all arguments that start with a dash, up to
`--`, and the operands. -/
def options : List Octets → List Char × List Octets
  | [] => ([], [])
  | arg :: rest => match arg.toList with
    | ['-', '-'] => ([], rest)
    | '-' :: c :: cs =>
      let (letters, operands) := options rest
      (c :: cs ++ letters, operands)
    | _ =>
      let (letters, operands) := options rest
      (letters, arg :: operands)

/-- Write a message. -/
def warn (c : Context) (message : Octets) : Act Unit := do
  if !message.isEmpty then
    let _ ← ask (.write c.streams.stderr message)

/-- Write to the standard output.  If that cannot be done, a message names `what` has failed, and
the program ends with a status. -/
def put (c : Context) (what : Octets) (status : Int) (data : Octets) : Act (Option Int) := do
  if data.isEmpty then return none
  match ← ask (.write c.streams.stdout data) with
  | .ok () => return none
  | .error e =>
    warn c (c.called ++ ": " ++ what ++ ": " ++ e.describe ++ "\n")
    return some status

/-- What most programs call a failure to write. -/
def writeError : Octets := "write error"

/-- Write what a program writes; its status, which is another one if that cannot be done. -/
def emitOr (c : Context) (status : Int) (o : Output) : Act Int := do
  let failed ← put c writeError status o.out
  warn c o.err
  return failed.getD o.code

/-- Write what a program writes; its status. -/
def emit (c : Context) (o : Output) : Act Int := emitOr c 1 o

/-- Write what a program writes, its messages first. -/
def emitLast (c : Context) (status : Int) (o : Output) : Act Int := do
  warn c o.err
  emitOr c status { o with err := "" }

/-- Where a program sends those who call it wrongly. -/
def tryHelp (name : Octets) : Octets := "Try '" ++ name ++ " --help' for more information."

/-- The message about a missing operand, which `what` describes. -/
def missingOperand (name what : Octets) : Output :=
  .failure (name ++ ": missing " ++ what ++ "\n" ++ tryHelp name) 1

/-- Ask for a change per operand, and tell about those that are refused. -/
def editAll (c : Context) (edit : Octets → Edit) (message : FileTree → Octets → Errno → Octets)
    (status : Int) : List Octets → Act Int
  | [] => pure status
  | arg :: rest => do
    let v ← ask .view
    match ← ask (.edit (edit arg)) with
    | .ok () => editAll c edit message status rest
    | .error e =>
      warn c (message v.tree arg e ++ "\n")
      editAll c edit message 1 rest

/-- `touch`: make files that are missing.  A slash at the end of an operand asks for a directory,
which is not made. -/
def touchAll (c : Context) (status : Int) : List Octets → Act Int
  | [] => pure status
  | arg :: rest => do
    let v ← ask .view
    let refused ← match arg.endsWith "/", v.tree.find (c.path arg) true with
      | true, .error e => pure (some (": setting times of ", e))
      | _, .ok _ => pure none
      | false, .error _ => do
        match ← ask (.edit (.create (c.path arg))) with
        | .ok () => pure none
        | .error e => pure (some (": cannot touch ", e))
    match refused with
    | none => touchAll c status rest
    | some (what, e) =>
      warn c (c.called ++ what ++ Quotation.always arg ++ ": " ++ e.describe ++ "\n")
      touchAll c 1 rest

/-- The shortest front of an operand, up to a slash, that names something else than a directory. -/
def obstacle (t : FileTree) (c : Context) (arg : Octets) : Octets :=
  let fronts := (List.range arg.length).filterMap fun n => match arg.toList.drop n with
    | '/' :: _ => some (String.ofList (arg.toList.take n))
    | _ => none
  (fronts.find? fun front =>
    t.pathExists (c.path front) && !t.pathIsDirectory (c.path front)).getD arg

/-- `mkdir`: make directories, with `parents` also those above them. -/
def makeAll (c : Context) (parents : Bool) (args : List Octets) : Act Int :=
  editAll c
    (fun arg => if parents then .mkdirAll (c.path arg) else .mkdir (c.path arg))
    (fun t arg e => c.called ++ ": cannot create directory " ++
      Quotation.plain (if parents then obstacle t c arg else arg) ++ ": " ++ e.describe) 0 args

/-- `rmdir`: remove empty directories. -/
def removeDirs (c : Context) (args : List Octets) : Act Int :=
  editAll c (fun arg => .rmdir (c.path arg))
    (fun _ arg e =>
      c.called ++ ": failed to remove " ++ Quotation.always arg ++ ": " ++ e.describe) 0 args

/-- The changes that remove what is at a path and everything below it, the deepest first. -/
def removals (t : FileTree) (path : String) : List Edit :=
  match t.find path false with
  | .error _ => [.unlink path]
  | .ok i =>
    if t.isDirectory i then
      let inside := t.below (t.nodes.size + 1) (path ++ "/") i
      (inside.reverse.map fun (p, n) => match n with
        | .directory .. => .rmdir p
        | _ => .unlink p) ++ [.rmdir path]
    else [.unlink path]

/-- Ask for changes in turn; the first refusal. -/
def editEach : List Edit → Act (Option Errno)
  | [] => pure none
  | e :: rest => do
    match ← ask (.edit e) with
    | .ok () => editEach rest
    | .error e => return some e

/-- The path ends in a name for the directory itself or the one above. -/
def isDotted (path : Octets) : Bool :=
  let trimmed := (path.toList.reverse.dropWhile (· = '/')).takeWhile (· ≠ '/')
  trimmed = ['.'] || trimmed = ['.', '.']

/-- `rm`: remove files, with `deep` also directories; with `force` missing files do not count. -/
def removeAll (c : Context) (deep force : Bool) (status : Int) : List Octets → Act Int
  | [] => pure status
  | arg :: rest => do
    let v ← ask .view
    let path := c.path arg
    if deep && isDotted arg then
      warn c (c.called ++ ": refusing to remove '.' or '..' directory: skipping " ++
        Quotation.always arg ++ "\n")
      removeAll c deep force 1 rest
    else match ← editEach (if deep then removals v.tree path else [.unlink path]) with
      | none => removeAll c deep force status rest
      | some e =>
        if force && (e = .noEntry || e = .notDirectory) then removeAll c deep force status rest
        else
          warn c (c.called ++ ": cannot remove " ++ Quotation.always arg ++ ": " ++ e.describe ++
            "\n")
          removeAll c deep force 1 rest

/-! ## Listing -/

/-- The names of a directory that are shown: hidden ones only with `hidden`, and `.` and `..`
only with `dots`. -/
def shownNames (hidden dots : Bool) (names : List String) : List String :=
  (if dots then [".", ".."] else []) ++
    names.filter fun n => hidden || dots || !n.startsWith "."

/-- What `ls` writes. -/
def listing (t : FileTree) (c : Context) (letters : List Char) (operands : List Octets) :
    Output :=
  let operands := (if operands.isEmpty then ["."] else operands).mergeSort
    fun a b => !decide (b < a)
  let missing := operands.filterMap fun arg => match t.find (c.path arg) false with
    | .ok _ => none
    | .error e => some (arg, e)
  let present := operands.filter fun arg => (t.find (c.path arg) false).toOption.isSome
  let isDir (arg : Octets) : Bool := !letters.contains 'd' && t.pathIsDirectory (c.path arg)
  let files := present.filter fun arg => !isDir arg
  let dirs := present.filter isDir
  let content (arg : Octets) := unlines <| (shownNames (letters.contains 'A')
    (letters.contains 'a') ((t.list? (c.path arg)).getD [])).map Octets.ofText
  let headed (arg : Octets) :=
    if operands.length = 1 then content arg else arg ++ ":\n" ++ content arg
  let parts := (if files.isEmpty then [] else [unlines files]) ++ dirs.map headed
  ⟨"\n".intercalate parts,
    unlines (missing.map fun (arg, e) =>
      c.called ++ ": cannot access " ++ Quotation.always arg ++ ": " ++ e.describe),
    if missing.isEmpty then 0 else 2⟩

end Conch.Program
