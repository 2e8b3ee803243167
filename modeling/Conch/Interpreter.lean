import Conch.Command.Parse
import Conch.Pipeline.Run

/-!
# Running commands

Blocks run in order, the pipelines of a block as their connectors say.  After every pipeline the
session holds its status; a request to exit ends everything that runs on the same session.

## Main definitions

* `Conch.Command.run` — run a command: its status and the session behind it.
* `Conch.Session.runLine` — parse and run a line.
-/

set_option autoImplicit false

namespace Conch

/-- The connector asks for the next pipeline after this status. -/
def Connector.wants : Connector → Int → Bool
  | .and, status => status = 0
  | .or, status => status ≠ 0

mutual

/-- Run a command. -/
def Command.run : Command → Streams → Session → Act (Int × Session)
  | ⟨blocks⟩, streams, s => Block.runAll blocks streams s.status s

/-- Run blocks in order, behind one with the given status, until one asks to exit. -/
def Block.runAll : List Block → Streams → Int → Session → Act (Int × Session)
  | [], _, status, s => pure (status, s)
  | b :: rest, streams, _, s => do
    let (status, s) ← b.run streams s
    match s.exitRequested with
    | some code => return (code, s)
    | none => Block.runAll rest streams status s

/-- Run a block. -/
def Block.run : Block → Streams → Session → Act (Int × Session)
  | ⟨first, rest⟩, streams, s => do
    let (status, s) ← first.run streams s
    Link.runAll rest streams status { s with status }

/-- Run the chained pipelines that are wanted, until one asks to exit. -/
def Link.runAll : List Link → Streams → Int → Session → Act (Int × Session)
  | [], _, status, s => pure (status, s)
  | ⟨connector, pipeline⟩ :: rest, streams, status, s =>
    if s.exitRequested.isSome then pure (status, s)
    else if connector.wants status then do
      let (status, s) ← pipeline.run streams s
      Link.runAll rest streams status { s with status }
    else Link.runAll rest streams status s

/-- Run a pipeline. -/
def Pipeline.run : Pipeline → Streams → Session → Act (Int × Session)
  | ⟨elements, background⟩, streams, s =>
    Pipeline.execute ⟨elements, background⟩ (Element.runLast elements) streams s

/-- Run the body of the last element, if it is a group or a subshell. -/
def Element.runLast : List Element → Streams → Session → Act (Int × Session)
  | [], _, s => pure (0, s)
  | [.simple _], _, s => pure (0, s)
  | [.subshell body], streams, s => body.run streams s
  | [.group body], streams, s => body.run streams s
  | _ :: rest, streams, s => Element.runLast rest streams s

end

/-- Run the body of a stage, if it is a group or a subshell. -/
def Stage.runBody (stage : Stage) (streams : Streams) (s : Session) : Act (Int × Session) :=
  match stage.action with
  | .nested body _ => body.run streams s
  | _ => pure (0, s)

/-- Run the body of the last stage, if it is a group or a subshell. -/
def Stage.runLastBody (stages : List Stage) (streams : Streams) (s : Session) :
    Act (Int × Session) :=
  match stages.getLast? with
  | some stage => stage.runBody streams s
  | none => pure (0, s)

namespace Session

/-- The status of a line that is no command. -/
def syntaxErrorStatus : Int := 2

/-- Parse and run a line.  A line without a token changes nothing; any other line that is no
command is reported. -/
def runLine (line : String) (streams : Streams) (s : Session) : Act (Int × Session) := do
  match Command.parse line with
  | .ok c => c.run streams s
  | .error .empty => return (s.status, s)
  | .error e =>
    streams.stderr.report e.message
    return (syntaxErrorStatus, { s with status := syntaxErrorStatus })

end Session

end Conch
