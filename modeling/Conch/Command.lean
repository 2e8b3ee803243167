import Conch.Token

/-!
# Commands

The tree of a command line.  A command is a list of blocks, a block is a chain of pipelines, a
pipeline is a list of elements, and an element is a simple command or a nested command.  The
tree prints back as a line (`Command.text`).

## Main definitions

* `Conch.SimpleCommand` — words and redirections of one program or builtin.
* `Conch.Element`, `Conch.Pipeline`, `Conch.Block`, `Conch.Command` — the tree.
* `Command.text` — the tree as a line of input.
-/

set_option autoImplicit false

namespace Conch

/-- One redirection of a simple command. -/
structure Redirect where
  op : RedirectOp
  /-- The word behind the operator, as written; empty for `2>&1`. -/
  file : String
  deriving DecidableEq, Repr, Inhabited

/-- The words and redirections of one command, in the order they were written. -/
structure SimpleCommand where
  /-- Words as written; the first names the command. -/
  parts : List String
  redirects : List Redirect
  /-- The command ends a pipeline that runs in the background. -/
  background : Bool
  deriving DecidableEq, Repr, Inhabited

mutual

/-- One stage of a pipeline. -/
inductive Element where
  | simple (command : SimpleCommand)
  /-- `( … )` runs on a copy of the session. -/
  | subshell (body : Command)
  /-- `{ …; }` runs on the session itself. -/
  | group (body : Command)

/-- Elements joined by `|`, possibly in the background. -/
inductive Pipeline where
  | mk (elements : List Element) (background : Bool)

/-- A pipeline with the connector in front of it. -/
inductive Link where
  | mk (connector : Connector) (pipeline : Pipeline)

/-- A first pipeline and those chained to it by `&&` and `||`, evaluated left to right. -/
inductive Block where
  | mk (first : Pipeline) (rest : List Link)

/-- Blocks separated by `;` or ended by `&`. -/
inductive Command where
  | mk (blocks : List Block)

end

instance : Inhabited Command := ⟨.mk []⟩
instance : Inhabited Pipeline := ⟨.mk [] false⟩

/-- The elements of a pipeline. -/
def Pipeline.elements : Pipeline → List Element
  | ⟨elements, _⟩ => elements

/-- The pipeline ends in `&`. -/
def Pipeline.background : Pipeline → Bool
  | ⟨_, background⟩ => background

/-- The operator in front of a chained pipeline. -/
def Link.connector : Link → Connector
  | ⟨connector, _⟩ => connector

/-- The chained pipeline. -/
def Link.pipeline : Link → Pipeline
  | ⟨_, pipeline⟩ => pipeline

/-- The first pipeline of a block. -/
def Block.first : Block → Pipeline
  | ⟨first, _⟩ => first

/-- The pipelines chained to the first. -/
def Block.rest : Block → List Link
  | ⟨_, rest⟩ => rest

/-- The blocks of a command. -/
def Command.blocks : Command → List Block
  | ⟨blocks⟩ => blocks

/-- A block is in the background when its last pipeline is. -/
def Block.background : Block → Bool
  | ⟨first, rest⟩ => match rest.getLast? with
    | some link => link.pipeline.background
    | none => first.background

/-! ## Printing -/

/-- The redirection as it is written: the operator, a blank and the file. -/
def Redirect.text (r : Redirect) : String :=
  if r.op.takesFile then r.op.text ++ " " ++ r.file else r.op.text

/-- Words first, then redirections, separated by blanks. -/
def SimpleCommand.text (c : SimpleCommand) : String :=
  " ".intercalate (c.parts ++ c.redirects.map Redirect.text)

/-- What stands behind a block inside a list: `&` already separates. -/
def Block.separator (b : Block) : String :=
  if b.background then " " else "; "

/-- What stands between the last block of a group and the closing brace. -/
def Block.closing (blocks : List Block) : String :=
  if blocks.getLast?.any Block.background then " " else "; "

mutual

/-- The element as a line of input. -/
def Element.text : Element → String
  | .simple c => c.text
  | .subshell body => "(" ++ body.text ++ ")"
  | .group ⟨blocks⟩ => "\x7b " ++ Block.joinText blocks ++ Block.closing blocks ++ "\x7d"

/-- The elements joined by `|`. -/
def Element.joinText : List Element → String
  | [] => ""
  | [e] => e.text
  | e :: rest => e.text ++ " | " ++ Element.joinText rest

/-- The pipeline without its `&`, as a job listing shows it. -/
def Pipeline.commandLine : Pipeline → String
  | ⟨elements, _⟩ => Element.joinText elements

/-- The pipeline as a line of input. -/
def Pipeline.text : Pipeline → String
  | ⟨elements, background⟩ =>
    Element.joinText elements ++ (if background then " &" else "")

/-- The chained pipelines, each behind its connector. -/
def Link.joinText : List Link → String
  | [] => ""
  | ⟨connector, pipeline⟩ :: rest =>
    " " ++ connector.text ++ " " ++ pipeline.text ++ Link.joinText rest

/-- The block as a line of input. -/
def Block.text : Block → String
  | ⟨first, rest⟩ => first.text ++ Link.joinText rest

/-- The blocks of a list, with a separator between neighbours. -/
def Block.joinText : List Block → String
  | [] => ""
  | [b] => b.text
  | b :: rest => b.text ++ b.separator ++ Block.joinText rest

/-- The command as a line of input. -/
def Command.text : Command → String
  | ⟨blocks⟩ => Block.joinText blocks

end

/-! ## Equality -/

mutual

/-- Whether two elements are the same tree. -/
def Element.same : Element → Element → Bool
  | .simple a, .simple b => a == b
  | .subshell a, .subshell b => a.same b
  | .group a, .group b => a.same b
  | _, _ => false

/-- Whether two lists of elements are the same. -/
def Element.sameList : List Element → List Element → Bool
  | [], [] => true
  | a :: as, b :: bs => a.same b && Element.sameList as bs
  | _, _ => false

/-- Whether two pipelines are the same tree. -/
def Pipeline.same : Pipeline → Pipeline → Bool
  | ⟨as, x⟩, ⟨bs, y⟩ => Element.sameList as bs && x == y

/-- Whether two chains are the same. -/
def Link.sameList : List Link → List Link → Bool
  | [], [] => true
  | ⟨c, p⟩ :: as, ⟨d, q⟩ :: bs => c == d && p.same q && Link.sameList as bs
  | _, _ => false

/-- Whether two blocks are the same tree. -/
def Block.same : Block → Block → Bool
  | ⟨p, as⟩, ⟨q, bs⟩ => p.same q && Link.sameList as bs

/-- Whether two lists of blocks are the same. -/
def Block.sameList : List Block → List Block → Bool
  | [], [] => true
  | a :: as, b :: bs => a.same b && Block.sameList as bs
  | _, _ => false

/-- Whether two commands are the same tree. -/
def Command.same : Command → Command → Bool
  | ⟨as⟩, ⟨bs⟩ => Block.sameList as bs

end

end Conch
