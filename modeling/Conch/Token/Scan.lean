import Conch.Token

/-!
# Scanning a line into tokens

`Lexeme.scan` splits the characters of an input into words, operators and newlines.  A quote
protects everything up to its closing mark, a backslash protects the character behind it, and
`#` at the start of a word comments out the rest of its line.  `Token.ofLexemes` then decides
which newlines separate commands: a newline counts as `;` when a command can end in front of it
and another token follows.

## Main definitions

* `Conch.Quote` — the two quotation marks.
* `Conch.Lexeme.scan` — words, operators and newlines of an input.
* `Conch.Token.ofLexemes` — newlines resolved into separators.
* `Conch.Token.tokenize` — the two stages together.
-/

set_option autoImplicit false

namespace Conch

/-- The two quotation marks. -/
inductive Quote where
  | single
  | double
  deriving DecidableEq, Repr, Inhabited

/-- The mark that opens and closes a quotation. -/
def Quote.mark : Quote → Char
  | .single => '\''
  | .double => '"'

/-- A token, or a newline whose meaning depends on what stands around it. -/
inductive Lexeme where
  | token (t : Token)
  | newline
  deriving DecidableEq, Repr, Inhabited

namespace Lexeme

/-- What the scanner is in the middle of. -/
inductive Mode where
  /-- Between words, or in the unquoted part of one. -/
  | bare
  /-- Inside a quotation. -/
  | quoted (q : Quote)
  /-- Behind a `#`, up to the end of the line. -/
  | comment
  deriving DecidableEq, Repr

/-- End the word whose reversed characters are `word`, if there is one. -/
def flush (word : List Char) (rest : List Lexeme) : List Lexeme :=
  if word.isEmpty then rest else token (.word (String.ofList word.reverse)) :: rest

/-- Split the characters of an input.  `word` holds the characters of the current word, last
first; the only failure is a quotation that is never closed. -/
def scan : Mode → List Char → List Char → Except Quote (List Lexeme)
  | .bare, word, [] => .ok (flush word [])
  | .quoted q, _, [] => .error q
  | .comment, _, [] => .ok []
  | .comment, word, '\n' :: cs => do return newline :: (← scan .bare word cs)
  | .comment, word, _ :: cs => scan .comment word cs
  | .quoted .double, word, '\\' :: c :: cs => scan (.quoted .double) (c :: '\\' :: word) cs
  | .quoted q, word, c :: cs =>
    if c = q.mark then scan .bare (c :: word) cs else scan (.quoted q) (c :: word) cs
  | .bare, word, '\'' :: cs => scan (.quoted .single) ('\'' :: word) cs
  | .bare, word, '"' :: cs => scan (.quoted .double) ('"' :: word) cs
  | .bare, word, '\\' :: c :: cs => scan .bare (c :: '\\' :: word) cs
  | .bare, word, '\n' :: cs => do return flush word (newline :: (← scan .bare [] cs))
  | .bare, word, ';' :: cs => do return flush word (token .semi :: (← scan .bare [] cs))
  | .bare, word, '|' :: '|' :: cs => do
    return flush word (token (.connector .or) :: (← scan .bare [] cs))
  | .bare, word, '|' :: cs => do return flush word (token .pipe :: (← scan .bare [] cs))
  | .bare, word, '&' :: '&' :: cs => do
    return flush word (token (.connector .and) :: (← scan .bare [] cs))
  | .bare, word, '&' :: '>' :: cs => do
    return flush word (token (.redirect .both) :: (← scan .bare [] cs))
  | .bare, word, '&' :: cs => do return flush word (token .amp :: (← scan .bare [] cs))
  | .bare, word, '(' :: cs => do return flush word (token .lparen :: (← scan .bare [] cs))
  | .bare, word, ')' :: cs => do return flush word (token .rparen :: (← scan .bare [] cs))
  | .bare, word, '<' :: cs => do
    return flush word (token (.redirect .input) :: (← scan .bare [] cs))
  | .bare, word, '>' :: '>' :: cs => do
    return flush word (token (.redirect .append) :: (← scan .bare [] cs))
  | .bare, word, '>' :: '&' :: cs => do
    return flush word (token (.redirect .bothAlt) :: (← scan .bare [] cs))
  | .bare, word, '>' :: cs => do
    return flush word (token (.redirect .output) :: (← scan .bare [] cs))
  | .bare, [], '2' :: '>' :: '&' :: '1' :: cs => do
    return token (.redirect .errorToOutput) :: (← scan .bare [] cs)
  | .bare, [], '2' :: '>' :: '>' :: cs => do
    return token (.redirect .errorAppend) :: (← scan .bare [] cs)
  | .bare, [], '2' :: '>' :: cs => do
    return token (.redirect .error) :: (← scan .bare [] cs)
  | .bare, [], '#' :: cs => scan .comment [] cs
  | .bare, word, c :: cs =>
    if c = ' ' ∨ c = '\t' ∨ c = '\r' then do return flush word (← scan .bare [] cs)
    else scan .bare (c :: word) cs

end Lexeme

namespace Token

/-- A newline after one of these tokens separates nothing. -/
def absorbsNewline : Token → Bool
  | semi | amp | connector _ | pipe | lparen => true
  | word _ | rparen | redirect _ => false

/-- Resolve newlines.  `last` is the token in front, and `pending` records that a newline after
it still waits for a token to separate it from. -/
def ofLexemes (last : Option Token) (pending : Bool) : List Lexeme → List Token
  | [] => []
  | .newline :: rest => ofLexemes last (pending || last.any (!absorbsNewline ·)) rest
  | .token t :: rest =>
    if pending then semi :: t :: ofLexemes (some t) false rest
    else t :: ofLexemes (some t) false rest

/-- The tokens of an input, or the quotation it leaves open. -/
def tokenize (line : String) : Except Quote (List Token) := do
  return ofLexemes none false (← Lexeme.scan .bare [] line.toList)

end Token

end Conch
