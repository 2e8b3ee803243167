import Conch.Token.Scan

/-!
# Reasons to reject a command line

## Main definitions

* `Conch.SyntaxError` — why a line is not a command.
* `SyntaxError.message` — the text shown to the user.
* `SyntaxError.isIncomplete` — whether further input could complete the line.
-/

set_option autoImplicit false

namespace Conch

/-- The two ways to open a nested list of commands. -/
inductive Opener where
  /-- `(` … `)` -/
  | paren
  /-- `{` … `}` -/
  | brace
  deriving DecidableEq, Repr, Inhabited

/-- The opener as it is written. -/
def Opener.text : Opener → String
  | .paren => "("
  | .brace => "\x7b"

/-- The operators that need a command on their right. -/
inductive BinaryOp where
  | pipe
  | connector (c : Connector)
  deriving DecidableEq, Repr, Inhabited

/-- The operator as it is written. -/
def BinaryOp.text : BinaryOp → String
  | .pipe => "|"
  | .connector c => c.text

/-- Why a line is not a command. -/
inductive SyntaxError where
  /-- The line has no token. -/
  | empty
  /-- The line ends behind an operator that needs a command. -/
  | missingOperand (op : BinaryOp)
  /-- A redirection operator is not followed by a word. -/
  | missingRedirectTarget (op : RedirectOp)
  /-- A quotation is never closed. -/
  | unterminatedQuote (q : Quote)
  /-- A nested list is not closed by its own closer. -/
  | unterminated (o : Opener)
  /-- A token stands where none of its kind can stand. -/
  | unexpected (t : Token)
  deriving DecidableEq, Repr, Inhabited

namespace SyntaxError

/-- The text shown to the user. -/
def message : SyntaxError → String
  | empty => "empty command"
  | missingOperand op => "syntax error: missing command after `" ++ op.text ++ "`"
  | missingRedirectTarget op => "syntax error: missing file after `" ++ op.text ++ "`"
  | unterminatedQuote q => "syntax error: unterminated " ++ q.mark.toString ++ " quote"
  | unterminated o => "syntax error: unterminated `" ++ o.text ++ "`"
  | unexpected t => "syntax error near unexpected token `" ++ t.describe ++ "`"

/-- More input could complete the line: a quotation or a list is still open, or an operator
waits for its right side. -/
def isIncomplete : SyntaxError → Bool
  | unterminatedQuote _ | unterminated _ | missingOperand _ => true
  | empty | missingRedirectTarget _ | unexpected _ => false

end SyntaxError

end Conch
