import Conch.Program.Script.Grammar
import Conch.Stream

/-!
# What a process is doing

A process runs one of the installed programs.  Its state is data: a program that goes on and on
returns to one of these states between two requests to the system.

## Main definitions

* `Conch.Program.Context` — what a process is born with.
* `Conch.Program.ScriptState` — the variables of a script.
* `Conch.Program.State` — where a program stands.
-/

set_option autoImplicit false

namespace Conch.Program

open Text (Octets)

/-- What a process is born with. -/
structure Context where
  pid : Pid
  /-- The name it was called by, and its arguments. -/
  argv : List Octets
  /-- The entries `name=value` of its environment. -/
  env : List Octets
  cwd : String
  streams : Streams
  deriving Repr, Inhabited

/-- The name a process was called by, which starts its messages. -/
def Context.called (c : Context) : Octets := c.argv.headD ""

/-- The arguments behind the name. -/
def Context.args (c : Context) : List Octets := c.argv.tail

/-- The path that an argument names. -/
def Context.path (c : Context) (arg : Octets) : String := Path.ofOctets c.cwd arg

/-- The variables and parameters of a script.  Values and names are bytes. -/
structure ScriptState where
  /-- The name in front of messages. -/
  name : Octets
  /-- The number of the line in messages. -/
  line : Nat
  /-- `$1`, `$2`, … -/
  args : List Octets
  vars : Env
  /-- The names of the variables that programs see. -/
  exported : List Octets
  cwd : String
  status : Int
  /-- The processes started in the background, the last one first. -/
  background : List Pid
  /-- `$$` -/
  self : Pid
  /-- What to do when a signal arrives, or at the end. -/
  traps : List (String × Octets)
  /-- What the commands inside the words of the current command have written. -/
  outputs : List (Octets × Octets)
  functions : List (Octets × Script.Stage)
  deriving Inhabited

/-- Where a program stands. -/
inductive State where
  /-- At the start of the program with this name. -/
  | start (name : String)
  /-- Copying what it reads; these operands are still to come. -/
  | copy (operands : List Octets) (status : Int)
  /-- Replacing bytes: by the table, or dropping those in `delete`. -/
  | replacing (table : List (Char × Char)) (delete : List Char)
  /-- Copying this many further lines, or bytes. -/
  | head (count : Nat) (bytes : Bool)
  /-- Writing the same bytes again and again. -/
  | repeating (data : Octets)
  /-- Reading everything for the program with this name. -/
  | gather (name : String) (data : Octets)
  /-- A part of a script in a process of its own. -/
  | script (body : List Script.Entry) (s : ScriptState)
  deriving Inhabited

end Conch.Program
