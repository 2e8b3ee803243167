import Conch.CommandLine
import Conch.Machine.Run

/-!
# The program

Runs a shell on a machine of its own: the installed programs are there, and the home directory is
empty.
-/

set_option autoImplicit false

namespace Conch

open Text (Octets)

/-- How many steps the machine may take. -/
def maxSteps : Nat := 100000000

/-- The shell's home directory. -/
def homeDirectory : String := "/home"

/-- The file tree at the start. -/
def initialTree : FileTree := Program.installed.install homeDirectory (.directory 0 [])

/-- What the shell finds. -/
def mainHost : Host :=
  { env := (Env.empty.set "PATH" "/usr/bin:/bin").set "HOME" homeDirectory
    executable := "/usr/bin/rshell"
    identity := "user@conch"
    colors := false
    keys := none }

/-- Run the shell with arguments on a text: what it writes, and its status. -/
def runMain (args : List String) (input : String) : String × String × Int :=
  let m := { Machine.new initialTree 1000 homeDirectory with input := Octets.ofText input }
  let (status, m) := m.run maxSteps ((Request.ofArgs args).run mainHost (2 * input.length + 2))
  (Octets.toText m.out, Octets.toText m.err, status.join.getD 1)

end Conch

/-- Read the standard input, run the shell and write what it writes. -/
def main (args : List String) : IO UInt32 := do
  let input ← if (Conch.Request.ofArgs args).readsInput then (← IO.getStdin).readToEnd
    else pure ""
  let (out, err, status) := Conch.runMain args input
  IO.print out
  IO.eprint err
  return status.toNat.toUInt32
