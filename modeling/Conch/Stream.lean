import Conch.Session

/-!
# Where commands read and write

A command reads from a source and writes to two sinks.  Pipes, opened files and captured texts
are numbered; the machine holds what is behind the numbers.

## Main definitions

* `Conch.Source`, `Conch.Sink` — ends that a command can read from or write to.
* `Conch.Streams` — the three standard streams.
* `Conch.End` — an end that somebody keeps open.
-/

set_option autoImplicit false

namespace Conch

/-- The number of a pipe. -/
abbrev PipeId := Nat

/-- The number of an opened file, which has a position of its own. -/
abbrev FileId := Nat

/-- The number of a captured text. -/
abbrev BufferId := Nat

/-- The number of a connection between a process and a captured text. -/
abbrev ChannelId := Nat

/-- The number of a thread of the shell or of the body of a process. -/
abbrev TaskId := Nat

/-- What a command reads from. -/
inductive Source where
  /-- What the shell itself reads from. -/
  | inherit
  /-- Nothing. -/
  | null
  | file (f : FileId)
  | pipe (p : PipeId)
  /-- A given text, from its start for every command. -/
  | text (s : String)
  deriving DecidableEq, Repr, Inhabited

/-- What a command writes to. -/
inductive Sink where
  /-- The shell's own standard output. -/
  | out
  /-- The shell's own standard error. -/
  | err
  | file (f : FileId)
  | pipe (p : PipeId)
  /-- A captured text. -/
  | capture (b : BufferId)
  /-- A captured text, written by a process through a connection of its own. -/
  | channel (b : BufferId) (c : ChannelId)
  deriving DecidableEq, Repr, Inhabited

/-- The standard streams of a command. -/
structure Streams where
  stdin : Source
  stdout : Sink
  stderr : Sink
  deriving DecidableEq, Repr, Inhabited

/-- The shell's own streams. -/
def Streams.inherit : Streams := ⟨.inherit, .out, .err⟩

/-- An end of a pipe or of a connection that somebody keeps open. -/
inductive End where
  | reader (p : PipeId)
  | writer (p : PipeId)
  | channel (c : ChannelId)
  deriving DecidableEq, Repr, Inhabited

/-- The end that a source keeps open. -/
def Source.ends : Source → List End
  | .pipe p => [.reader p]
  | _ => []

/-- The end that a sink keeps open. -/
def Sink.ends : Sink → List End
  | .pipe p => [.writer p]
  | .channel _ c => [.channel c]
  | _ => []

/-- The ends that the streams of a command keep open. -/
def Streams.ends (s : Streams) : List End := s.stdin.ends ++ s.stdout.ends ++ s.stderr.ends

/-- What moves data on behalf of a process. -/
inductive Helper where
  /-- A thread. -/
  | thread (t : TaskId)
  /-- A connection to a captured text, which ends when every process has closed it. -/
  | channel (c : ChannelId)
  deriving DecidableEq, Repr, Inhabited

end Conch
