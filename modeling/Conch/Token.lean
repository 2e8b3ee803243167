/-!
# Tokens of a command line

A command line is made of words, control operators and redirection operators.  A word is kept
exactly as it was written, quotes and escapes included: only expansion removes them.

## Main definitions

* `Conch.RedirectOp` — the eight redirection operators.
* `Conch.Connector` — the two operators that chain pipelines.
* `Conch.Token` — words and operators; `Token.describe` is the text of a token.
-/

set_option autoImplicit false

namespace Conch

/-- The operators that redirect a standard stream of one command. -/
inductive RedirectOp where
  /-- `<` reads standard input from a file. -/
  | input
  /-- `>` truncates a file and writes standard output to it. -/
  | output
  /-- `>>` appends standard output to a file. -/
  | append
  /-- `2>` truncates a file and writes standard error to it. -/
  | error
  /-- `2>>` appends standard error to a file. -/
  | errorAppend
  /-- `&>` writes both outputs to one file. -/
  | both
  /-- `>&` is the other spelling of `&>`. -/
  | bothAlt
  /-- `2>&1` sends standard error where standard output goes; it names no file. -/
  | errorToOutput
  deriving DecidableEq, Repr, Inhabited

namespace RedirectOp

/-- The operator as it is written. -/
def text : RedirectOp → String
  | input => "<"
  | output => ">"
  | append => ">>"
  | error => "2>"
  | errorAppend => "2>>"
  | both => "&>"
  | bothAlt => ">&"
  | errorToOutput => "2>&1"

/-- All operators. -/
def all : List RedirectOp :=
  [input, output, append, error, errorAppend, both, bothAlt, errorToOutput]

/-- The operator that is written like this. -/
def ofText? (t : String) : Option RedirectOp := all.find? (·.text = t)

/-- Every operator except `2>&1` is followed by a file. -/
def takesFile : RedirectOp → Bool
  | errorToOutput => false
  | _ => true

end RedirectOp

/-- The operators that chain two pipelines by the status of the first. -/
inductive Connector where
  /-- `&&` runs its right side after success. -/
  | and
  /-- `||` runs its right side after failure. -/
  | or
  deriving DecidableEq, Repr, Inhabited

/-- The connector as it is written. -/
def Connector.text : Connector → String
  | .and => "&&"
  | .or => "||"

/-- One token of a command line. -/
inductive Token where
  /-- A word as written, quotes and escapes included. -/
  | word (text : String)
  /-- `|` -/
  | pipe
  /-- `&&` or `||` -/
  | connector (c : Connector)
  /-- `;`, or a newline that ends a command -/
  | semi
  /-- `&` -/
  | amp
  /-- `(` -/
  | lparen
  /-- `)` -/
  | rparen
  /-- A redirection operator. -/
  | redirect (op : RedirectOp)
  deriving DecidableEq, Repr, Inhabited

namespace Token

/-- The text of a token, as it is quoted in messages. -/
def describe : Token → String
  | word w => w
  | pipe => "|"
  | connector c => c.text
  | semi => ";"
  | amp => "&"
  | lparen => "("
  | rparen => ")"
  | redirect op => op.text

end Token

end Conch
