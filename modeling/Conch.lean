import Conch.Act
import Conch.Builtin
import Conch.Builtin.Name
import Conch.Command
import Conch.Command.Parse
import Conch.CommandLine
import Conch.Completion
import Conch.Config
import Conch.Editor
import Conch.Editor.Key
import Conch.Errno
import Conch.FileTree
import Conch.FileTree.Edit
import Conch.Glob
import Conch.History
import Conch.Interpreter
import Conch.Job
import Conch.Job.Control
import Conch.Job.Supervise
import Conch.Job.Table
import Conch.LineBuffer
import Conch.Machine
import Conch.Machine.Answer
import Conch.Machine.Run
import Conch.Machine.Stream
import Conch.Main
import Conch.Name
import Conch.Path
import Conch.Pattern
import Conch.Pipeline.Plan
import Conch.Pipeline.Run
import Conch.Pipeline.Stage
import Conch.Program
import Conch.Program.Condition
import Conch.Program.Executable
import Conch.Program.Files
import Conch.Program.Quotation
import Conch.Program.Script
import Conch.Program.Script.Grammar
import Conch.Program.Script.Word
import Conch.Program.State
import Conch.Program.Text
import Conch.Prompt
import Conch.Redirection
import Conch.Session
import Conch.Shell
import Conch.ShellError
import Conch.Signal
import Conch.Stream
import Conch.SyntaxError
import Conch.Text.Alphanumeric
import Conch.Text.Blank
import Conch.Text.Decimal
import Conch.Text.Octets
import Conch.Text.Offset
import Conch.Token
import Conch.Token.Scan
import Conch.Toml
import Conch.Toml.Parse
import Conch.Toml.Scan
import Conch.Word
import Conch.Proofs.Scanner
import Conch.Proofs.Grammar
import Conch.Proofs.Parser
import Conch.Proofs.RoundTrip
import Conch.Proofs.Spacing
import Conch.Proofs.Continuation
import Conch.Proofs.Lines
import Conch.Proofs.Quoting
import Conch.Proofs.Runs
import Conch.Proofs.Isolation
import Conch.Proofs.Coherence
import Conch.Proofs.Transparency
import Conch.Proofs.Table
import Conch.Proofs.Threads
import Conch.Proofs.Rights
import Conch.Proofs.Ownership
import Conch.Proofs.Conduct
import Conch.Proofs.Delivery
import Conch.Proofs.Waiting
import Conch.Proofs.Frame
import Conch.Proofs.Pointer
import Conch.Proofs.Nesting
import Conch.Proofs.Departure
import Conch.Proofs.Announcing
import Conch.Proofs.Numbering
import Conch.Proofs.Descriptors
import Conch.Proofs.Exits
import Conch.Proofs.WellFormed
import Conch.Proofs.Dataflow
import Conch.Proofs.Meaning
import Conch.Proofs.Supply
import Conch.Proofs.Gathering
import Conch.Proofs.Staging
import Conch.Proofs.Launching
import Conch.Proofs.Adequacy
import Conch.Proofs.Grouping
import Conch.Proofs.Chains
import Conch.Proofs.Codes
import Conch.Proofs.Joining
import Conch.Proofs.Growth
import Conch.Proofs.Opening
import Conch.Proofs.Abort
import Conch.Proofs.Encoding
import Conch.Proofs.Recollection
import Conch.Proofs.Storing
import Conch.Proofs.Persistence
import Conch.Proofs.Reaping
import Conch.Proofs.Contents
import Conch.Proofs.Flattening
import Conch.Proofs.Separators
import Conch.Proofs.Recalling
import Conch.Proofs.Zipper
import Conch.Proofs.LastWord
import Conch.Proofs.Relative
import Conch.Proofs.Completing
import Conch.Proofs.Typing
import Conch.Proofs.Patterns
import Conch.Proofs.Listing
import Conch.Proofs.Searching
import Conch.Proofs.Reaching
import Conch.Proofs.Globbing
