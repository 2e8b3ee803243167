import Conch.FileTree.Edit
import Conch.Session

/-!
# Finding and loading programs

## Main definitions

* `Conch.Program.names` — the installed programs; `Conch.Program.installed` — where they are.
* `Conch.Program.Image` — a program and what it is called with.
* `Conch.Program.resolve` — what the words of a command start.
-/

set_option autoImplicit false

namespace Conch.Program

open Text (Octets)

/-- The installed programs. -/
def names : List String :=
  ["[", "basename", "cat", "dirname", "echo", "env", "expr", "false", "head", "kill", "ls",
    "mkdir", "printf", "pwd", "rm", "rmdir", "sh", "sleep", "sort", "tail", "test", "touch", "tr",
    "true", "wc", "yes"]

/-- The directories that every system has, beside those of programs and devices. -/
def directories : List String :=
  ["/etc", "/home", "/opt", "/proc", "/root", "/run", "/srv", "/sys", "/tmp", "/usr/lib",
    "/usr/local", "/usr/sbin", "/usr/share", "/var", "/var/tmp"]

/-- A file tree that holds nothing but the installed programs, two devices and the usual
directories. -/
def installed : FileTree :=
  let t := names.foldl (fun t name => t.install ("/usr/bin/" ++ name) (.program name))
    (FileTree.empty.install "/bin" (.link "usr/bin"))
  let t := (t.install "/dev/null" .null).install "/dev/full" .full
  directories.foldl (fun t path => t.install path (.directory 0 [])) t

/-- A program and what it is called with. -/
structure Image where
  name : String
  argv : List Octets
  deriving DecidableEq, Repr, Inhabited

/-! ## What a program is given -/

/-- The value of a variable: that of the first entry with its name. -/
def entryValue? (env : List Octets) (name : Octets) : Option Octets :=
  let front := (name ++ "=").toList
  (env.find? fun entry => front.isPrefixOf entry.toList).map fun entry =>
    String.ofList (entry.toList.drop front.length)

/-- How many bytes one argument or entry may have, with the zero at its end. -/
def maxArgument : Nat := 131072

/-- How many bytes the path of a program and all arguments and entries may have, each with the
zero at its end, with the pointers to arguments and entries. -/
def maxArguments : Nat := 2097152

/-- The program at a path can be given these arguments and entries. -/
def fits (path : Octets) (strings : List Octets) : Bool :=
  strings.all (fun s => s.length < maxArgument) &&
    decide (strings.foldl (fun n s => n + s.length + 9) (path.length + 1) ≤ maxArguments)

/-! ## Scripts -/

/-- How much of a script the system looks at. -/
def headSize : Nat := 256

/-- A blank in the first line of a script. -/
def isGap (c : Char) : Bool := c = ' ' || c = '\t'

/-- The interpreter that the first line of a script names, and its argument.  A name that may go
on behind what the system looks at does not count. -/
def interpreter? (contents : Octets) : Option (Octets × List Octets) :=
  match contents.toList.take headSize with
  | '#' :: '!' :: head =>
    let zero := Char.ofNat 0
    let line := head.takeWhile fun c => c ≠ '\n' && c ≠ zero
    let complete := (head.drop line.length).head? = some '\n'
    let line := if complete then (line.reverse.dropWhile isGap).reverse else line
    let line := line.dropWhile isGap
    let path := line.takeWhile (!isGap ·)
    let arg := (line.drop path.length).dropWhile isGap
    let cut := !complete && path.length = line.length && headSize ≤ contents.length &&
      (head.drop line.length).isEmpty
    if path.isEmpty || cut then none
    else some (String.ofList path, if arg.isEmpty then [] else [String.ofList arg])
  | _ => none

/-! ## Finding programs -/

/-- Load what is at a path.  A script is run by the interpreter that it names; `depth` bounds how
many interpreters stand behind each other. -/
def load (t : FileTree) (cwd : String) (env : List Octets) :
    (depth : Nat) → Octets → List Octets → Except Errno Image
  | 0, _, _ => .error .loop
  | depth + 1, path, argv => do
    let i ← t.find (Path.ofOctets cwd path) true
    match t.nodes[i]? with
    | some (.program name) =>
      if fits path (argv ++ env) then return ⟨name, argv⟩ else .error .tooManyArguments
    | some (.file contents true) =>
      if !fits path (argv ++ env) then .error .tooManyArguments
      else match interpreter? contents with
        | some (interp, arg) => load t cwd env depth interp (interp :: arg ++ path :: argv.tail)
        | none => .error .execFormat
    | _ => .error .access

/-- How many interpreters may stand behind each other. -/
def maxInterpreters : Nat := 5

/-- Where to look for programs when no `PATH` is set. -/
def defaultPath : Octets := "/bin:/usr/bin"

/-- The installed shell with a script. -/
def scriptImage (path : Octets) (argv : List Octets) : Image :=
  ⟨"sh", "/bin/sh" :: path :: argv.tail⟩

/-- Load what is at a path; a file that is no program is taken for a script. -/
def loadOrScript (t : FileTree) (cwd : String) (env : List Octets) (path : Octets)
    (argv : List Octets) : Except Errno Image :=
  match load t cwd env maxInterpreters path argv with
  | .error .execFormat => .ok (scriptImage path argv)
  | r => r

/-- Look for a program in directories.  A refusal is remembered and reported if nothing else is
found. -/
def search (t : FileTree) (cwd : String) (env : List Octets) (name : Octets)
    (argv : List Octets) (refused : Bool) : List Octets → Except Errno Image
  | [] => .error (if refused then .access else .noEntry)
  | dir :: rest =>
    let path := if dir.isEmpty then name else Path.join dir name
    match loadOrScript t cwd env path argv with
    | .ok image => .ok image
    | .error .access => search t cwd env name argv true rest
    | .error .noEntry | .error .notDirectory => search t cwd env name argv refused rest
    | .error e => .error e

/-- What the words of a command start in the directory `cwd`, which has to exist.  A name with a
slash is a path; any other is looked for in the directories of `PATH`, and there a file that is no
program is taken for a script.  So is one at a path with `asScript`. -/
def resolve (t : FileTree) (asScript : Bool) (cwd : String) (env argv : List Octets) :
    Except IoError Image := do
  let zero := Char.ofNat 0
  if cwd.contains zero || (argv ++ env).any (·.contains zero) then throw .nulInArgument
  match t.find cwd true with
  | .error e => throw (.os e)
  | .ok i => if !t.isDirectory i then throw (.os .notDirectory)
  let name := argv.headD ""
  let found := if name.isEmpty then .error .noEntry
    else if name.contains '/' then
      if asScript then loadOrScript t cwd env name argv
      else load t cwd env maxInterpreters name argv
    else if FileTree.maxName < name.length then .error .nameTooLong
    else search t cwd env name argv false (((entryValue? env "PATH").getD defaultPath).splitOn ":")
  match found with
  | .ok image => return image
  | .error e => throw (.os e)

end Conch.Program
