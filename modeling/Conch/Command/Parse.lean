import Conch.Command
import Conch.SyntaxError

/-!
# Parsing tokens into a command

The parser reads tokens from left to right and keeps a stack of the lists that are still open.
Each token takes the parser to its next state or is rejected for good, so that what has been
read never has to be read again.  `;` and `&` bind loosest, then `&&` and `||` at one level,
then `|`.

## Main definitions

* `Conch.Parser.Mode` — what the parser is in the middle of.
* `Conch.Parser.State` — the mode, the innermost list and the lists around it.
* `Conch.Parser.step`, `Conch.Parser.finish` — one token, and the end of the line.
* `Conch.Command.parse` — from a line to its command.
-/

set_option autoImplicit false

namespace Conch

/-- The block of the pipelines in `chain`, last first and each with the connector behind it,
followed by `p` and by the links `rest`. -/
def Block.ofChain : List (Pipeline × Connector) → Pipeline → List Link → Block
  | [], p, rest => ⟨p, rest⟩
  | (q, c) :: chain, p, rest => ofChain chain q (⟨c, p⟩ :: rest)

/-- The command sets its own background flag when it ends a background pipeline. -/
def Element.inBackground : Element → Element
  | .simple c => .simple { c with background := true }
  | e => e

/-- The elements of a background pipeline: only its last one is marked. -/
def Element.markLast : List Element → List Element
  | [] => []
  | [e] => [e.inBackground]
  | e :: rest => e :: markLast rest

/-- A pipeline with its background flag set where it belongs. -/
def Pipeline.ofElements (elements : List Element) (background : Bool) : Pipeline :=
  ⟨if background then Element.markLast elements else elements, background⟩

/-- The nested command that an opener introduces. -/
def Opener.wrap (o : Opener) (body : Command) : Element :=
  match o with
  | .paren => .subshell body
  | .brace => .group body

/-- The token that closes a nested list. -/
def Opener.closer : Opener → Token
  | .paren => .rparen
  | .brace => .word "\x7d"

namespace Parser

/-- A list that is being read.  What comes last stands first. -/
structure Open where
  /-- Completed blocks. -/
  blocks : List Block
  /-- The pipelines of the current block, each with the connector behind it. -/
  chain : List (Pipeline × Connector)
  /-- The elements of the current pipeline, each followed by `|`. -/
  elements : List Element

/-- A list of which nothing has been read. -/
def Open.new : Open := ⟨[], [], []⟩

/-- The completed blocks of a list as a command. -/
def Open.command (l : Open) : Command := ⟨l.blocks.reverse⟩

/-- A simple command that is being read.  What comes last stands first. -/
structure Draft where
  parts : List String
  redirects : List Redirect

/-- The command that has been read. -/
def Draft.command (d : Draft) : SimpleCommand := ⟨d.parts.reverse, d.redirects.reverse, false⟩

/-- How the parser got to the start of a block. -/
inductive Boundary where
  /-- The list begins here. -/
  | opening
  /-- Behind `;`. -/
  | semi
  /-- Behind `&`. -/
  | amp
  deriving DecidableEq, Repr

/-- What the parser is in the middle of. -/
inductive Mode where
  /-- At the start of a block, where a nested list may also end. -/
  | boundary (b : Boundary)
  /-- Behind an operator, where a command must start. -/
  | operand (op : BinaryOp)
  /-- In a simple command. -/
  | simple (d : Draft)
  /-- Behind a redirection operator of a simple command. -/
  | target (d : Draft) (op : RedirectOp)
  /-- Behind a nested command. -/
  | nested (e : Element)

/-- The parser's state. -/
structure State where
  mode : Mode
  /-- The innermost list. -/
  list : Open
  /-- The lists around it, innermost first, each with the opener that suspended it. -/
  outer : List (Open × Opener)

/-- Before the first token. -/
def State.initial : State := ⟨.boundary .opening, .new, []⟩

/-- The pipeline that ends with the element `e`. -/
def Open.pipeline (l : Open) (e : Element) (background : Bool) : Pipeline :=
  .ofElements (e :: l.elements).reverse background

/-- The list with the element `e` ending its block. -/
def Open.endBlock (l : Open) (e : Element) (background : Bool) : Open :=
  ⟨.ofChain l.chain (l.pipeline e background) [] :: l.blocks, [], []⟩

/-- A simple command with one more word. -/
def Draft.addWord (d : Draft) (word : String) : Draft := { d with parts := word :: d.parts }

/-- A simple command with one more redirection. -/
def Draft.addRedirect (d : Draft) (op : RedirectOp) (file : String) : Draft :=
  { d with redirects := ⟨op, file⟩ :: d.redirects }

/-- A redirection operator inside a simple command. -/
def redirectMode (d : Draft) (op : RedirectOp) : Mode :=
  if op.takesFile then .target d op else .simple (d.addRedirect op "")

/-- The token `t` must start an element. -/
def start (s : State) (t : Token) : Except SyntaxError State :=
  match t with
  | .lparen => .ok ⟨.boundary .opening, .new, (s.list, .paren) :: s.outer⟩
  | .word w =>
    if w = Opener.brace.text then .ok ⟨.boundary .opening, .new, (s.list, .brace) :: s.outer⟩
    else .ok { s with mode := .simple ⟨[w], []⟩ }
  | .redirect op => .ok { s with mode := redirectMode ⟨[], []⟩ op }
  | t => .error (.unexpected t)

/-- End the innermost list, which is `body`, at the token `t`. -/
def close (body : Open) (outer : List (Open × Opener)) (t : Token) : Except SyntaxError State :=
  match outer with
  | [] => .error (.unexpected t)
  | (list, o) :: outer =>
    if t = o.closer then .ok ⟨.nested (o.wrap body.command), list, outer⟩
    else .error (.unterminated o)

/-- The token `t` follows the complete element `e`. -/
def follow (s : State) (e : Element) (t : Token) : Except SyntaxError State :=
  match t with
  | .pipe =>
    .ok { s with mode := .operand .pipe, list.elements := e :: s.list.elements }
  | .connector c =>
    .ok { s with
      mode := .operand (.connector c)
      list := ⟨s.list.blocks, (s.list.pipeline e false, c) :: s.list.chain, []⟩ }
  | .amp => .ok { s with mode := .boundary .amp, list := s.list.endBlock e true }
  | .semi => .ok { s with mode := .boundary .semi, list := s.list.endBlock e false }
  | t => close (s.list.endBlock e false) s.outer t

/-- The token `t` would close the innermost list. -/
def closes (outer : List (Open × Opener)) (t : Token) : Bool :=
  outer.head?.any fun (_, o) => t = o.closer

/-- Read one token. -/
def step (s : State) (t : Token) : Except SyntaxError State :=
  match s.mode with
  | .boundary b =>
    if closes s.outer t then
      if s.list.blocks.isEmpty then .error (.unexpected t) else close s.list s.outer t
    else if b = .amp ∧ t = .semi then .ok { s with mode := .boundary .semi }
    else start s t
  | .operand _ => start s t
  | .simple d => match t with
    | .word w => .ok { s with mode := .simple (d.addWord w) }
    | .redirect op => .ok { s with mode := redirectMode d op }
    | t => follow s (.simple d.command) t
  | .target d op => match t with
    | .word w => .ok { s with mode := .simple (d.addRedirect op w) }
    | _ => .error (.missingRedirectTarget op)
  | .nested e => follow s e t

/-- The element `e` ends the line. -/
def finishWith (s : State) (e : Element) : Except SyntaxError Command :=
  match s.outer with
  | [] => .ok (s.list.endBlock e false).command
  | (_, o) :: _ => .error (.unterminated o)

/-- The line ends. -/
def finish (s : State) : Except SyntaxError Command :=
  match s.mode with
  | .boundary b => match s.outer, b with
    | (_, o) :: _, _ => .error (.unterminated o)
    | [], .opening => .error .empty
    | [], .semi => .error (.unexpected .semi)
    | [], .amp => .ok s.list.command
  | .operand op => .error (.missingOperand op)
  | .target _ op => .error (.missingRedirectTarget op)
  | .simple d => finishWith s (.simple d.command)
  | .nested e => finishWith s e

end Parser

/-- One `;` at the end of a line means nothing. -/
def Token.dropLastSemi (tokens : List Token) : List Token :=
  if tokens.getLast? = some .semi then tokens.dropLast else tokens

namespace Command

/-- The command that the tokens spell. -/
def ofTokens (tokens : List Token) : Except SyntaxError Command := do
  Parser.finish (← tokens.foldlM Parser.step .initial)

/-- The command of a line. -/
def parse (line : String) : Except SyntaxError Command := do
  let tokens ← (Token.tokenize line).mapError .unterminatedQuote
  ofTokens (Token.dropLastSemi tokens)

/-- The line is rejected, and further input could complete it. -/
def needsContinuation (line : String) : Bool :=
  match parse line with
  | .ok _ => false
  | .error e => e.isIncomplete

end Command

end Conch
