import Conch.Command
import Conch.Text.Decimal

/-!
# Scripts of the installed shell

Lists, chains and pipelines of simple commands, groups, subshells, conditionals and loops.  Words
keep their quotes; they are expanded when a command runs.

## Main definitions

* `Conch.Program.Script.Form` — what a command is.
* `Conch.Program.Script.Entry` — a chain of pipelines.
* `Conch.Program.Script.parse` — read a script.
-/

set_option autoImplicit false

namespace Conch.Program.Script

/-- What a redirection does. -/
inductive RedirectKind where
  | input
  | output
  | append
  /-- `>&`, followed by the number of a stream. -/
  | duplicate
  deriving DecidableEq, Repr, Inhabited

/-- A redirection of a numbered stream. -/
structure StreamRedirect where
  stream : Nat
  kind : RedirectKind
  word : String
  deriving DecidableEq, Repr, Inhabited

mutual

/-- What a command is. -/
inductive Form where
  /-- Assignments and words, and the number of their line. -/
  | simple (line : Nat) (words : List String)
  | subshell (body : List Entry)
  | group (body : List Entry)
  /-- `if` with its alternative. -/
  | branch (condition body otherwise : List Entry)
  /-- `while`, or with `negated` `until`. -/
  | loop (negated : Bool) (condition body : List Entry)
  /-- `for`; without words it goes through the arguments. -/
  | each (name : String) (words : Option (List String)) (body : List Entry)
  /-- `case`. -/
  | choose (word : String) (arms : List Arm)
  /-- A function. -/
  | define (name : String) (body : Stage)

/-- A command with its redirections. -/
inductive Stage where
  | mk (form : Form) (redirects : List StreamRedirect)

/-- A pipeline, with what connects it to the one in front. -/
inductive Step where
  | mk (connector : Option Connector) (negated : Bool) (stages : List Stage)

/-- A chain of pipelines. -/
inductive Entry where
  | mk (steps : List Step) (background : Bool)

/-- Patterns of a `case`, and what to do for them. -/
inductive Arm where
  | mk (patterns : List String) (body : List Entry)

end

instance : Inhabited Form := ⟨.simple 0 []⟩

instance : Inhabited Stage := ⟨.mk default []⟩

instance : Inhabited Entry := ⟨.mk [] false⟩

/-! ## Tokens -/

/-- A token of a script. -/
inductive Lexeme where
  | word (text : String)
  /-- An operator; a newline is one. -/
  | op (text : String)
  | redirect (stream : Nat) (kind : RedirectKind)
  deriving DecidableEq, Repr, Inhabited

/-- What a part of a word stands in. -/
inductive Nesting where
  | single
  | double
  | paren
  | brace
  | backtick
  deriving DecidableEq, Repr

/-- Characters that end a bare word. -/
def isMeta (c : Char) : Bool := c ∈ [' ', '\t', '\n', ';', '&', '|', '<', '>', '(', ')']

/-- How many characters belong to what stands at the start of a text, given what it stands in.
With `whole` it goes on to the end of the word, else only to the end of the outermost
quotation or bracket. -/
def extent (whole : Bool) : List Nesting → List Char → Nat
  | _, [] => 0
  | [], c :: cs =>
    if isMeta c || !whole then 0
    else match c, cs with
      | '\\', _ :: rest => 2 + extent whole [] rest
      | '$', '(' :: rest => 2 + extent whole [.paren] rest
      | '$', '\x7b' :: rest => 2 + extent whole [.brace] rest
      | '\'', rest => 1 + extent whole [.single] rest
      | '"', rest => 1 + extent whole [.double] rest
      | '`', rest => 1 + extent whole [.backtick] rest
      | _, rest => 1 + extent whole [] rest
  | .single :: out, c :: cs =>
    if c = '\'' then 1 + extent whole out cs else 1 + extent whole (.single :: out) cs
  | .backtick :: out, c :: cs =>
    if c = '`' then 1 + extent whole out cs else 1 + extent whole (.backtick :: out) cs
  | n :: out, c :: cs => match n, c, cs with
    | .double, '"', rest => 1 + extent whole out rest
    | .paren, ')', rest => 1 + extent whole out rest
    | .brace, '\x7d', rest => 1 + extent whole out rest
    | n, '\\', _ :: rest => 2 + extent whole (n :: out) rest
    | n, '$', '(' :: rest => 2 + extent whole (.paren :: n :: out) rest
    | n, '$', '\x7b' :: rest => 2 + extent whole (.brace :: n :: out) rest
    | .double, _, rest => 1 + extent whole (.double :: out) rest
    | n, '\'', rest => 1 + extent whole (.single :: n :: out) rest
    | n, '"', rest => 1 + extent whole (.double :: n :: out) rest
    | .paren, '(', rest => 1 + extent whole (.paren :: .paren :: out) rest
    | n, _, rest => 1 + extent whole (n :: out) rest

/-- The redirection operator at the start of a text, and its length. -/
def redirectAt : List Char → Option (RedirectKind × Nat)
  | '>' :: '>' :: _ => some (.append, 2)
  | '>' :: '&' :: _ => some (.duplicate, 2)
  | '>' :: '|' :: _ => some (.output, 2)
  | '>' :: _ => some (.output, 1)
  | '<' :: '&' :: _ => some (.duplicate, 2)
  | '<' :: _ => some (.input, 1)
  | _ => none

/-- The stream that an operator redirects if none is named. -/
def defaultStream : Char → Nat
  | '<' => 0
  | _ => 1

/-- The tokens of a text with the numbers of their lines.  The first `skip` characters belong to
the token in front. -/
def lexemes : (skip line : Nat) → List Char → List (Lexeme × Nat)
  | _, _, [] => []
  | skip + 1, line, c :: cs => lexemes skip (if c = '\n' then line + 1 else line) cs
  | 0, line, c :: cs =>
    let single (text : String) := (.op text, line) :: lexemes 0 line cs
    let double (text : String) := (.op text, line) :: lexemes 1 line cs
    match c, cs.head? with
    | '\n', _ => (.op "\n", line) :: lexemes 0 (line + 1) cs
    | '\\', some '\n' => lexemes 1 line cs
    | '#', _ => lexemes (cs.takeWhile (· ≠ '\n')).length line cs
    | '&', some '&' => double "&&"
    | '|', some '|' => double "||"
    | ';', some ';' => double ";;"
    | '&', _ => single "&"
    | '|', _ => single "|"
    | ';', _ => single ";"
    | '(', _ => single "("
    | ')', _ => single ")"
    | _, _ =>
      if c = ' ' || c = '\t' then lexemes 0 line cs
      else match redirectAt (c :: cs) with
        | some (kind, used) =>
          (.redirect (defaultStream c) kind, line) :: lexemes (used - 1) line cs
        | none =>
          let n := extent true [] (c :: cs)
          let text := (c :: cs).take n
          match redirectAt ((c :: cs).drop n), Text.digitsValue? text with
          | some (kind, used), some stream =>
            (.redirect stream kind, line) :: lexemes (n + used - 1) line cs
          | _, _ => (.word (String.ofList text), line) :: lexemes (n - 1) line cs

/-! ## Reading -/

/-- Tokens that are still to be read. -/
abbrev Tokens := List (Lexeme × Nat)

/-- Skip newlines. -/
def skipNewlines : Tokens → Tokens
  | (.op "\n", _) :: rest => skipNewlines rest
  | ts => ts

/-- Words with a meaning of their own, where a command could start. -/
def closers : List String := ["then", "elif", "else", "fi", "do", "done", "esac", "\x7d"]

/-- A list ends here. -/
def endsList : Tokens → Bool
  | [] => true
  | (.op ")", _) :: _ | (.op ";;", _) :: _ => true
  | (.word w, _) :: _ => w ∈ closers
  | _ => false

/-- Take a word that has to be there. -/
def expect (w : String) (ts : Tokens) : Option Tokens :=
  match skipNewlines ts with
  | (.word v, _) :: rest => if v = w then some rest else none
  | (.op v, _) :: rest => if v = w then some rest else none
  | _ => none

/-- Words and redirections up to an operator. -/
def simpleParts : Tokens → Option (List String × List StreamRedirect × Tokens)
  | (.word w, _) :: rest => do
    let (ws, rs, rest) ← simpleParts rest
    return (w :: ws, rs, rest)
  | (.redirect stream kind, _) :: (.word w, _) :: rest => do
    let (ws, rs, rest) ← simpleParts rest
    return (ws, ⟨stream, kind, w⟩ :: rs, rest)
  | (.redirect .., _) :: _ => none
  | rest => some ([], [], rest)

/-- Redirections. -/
def redirects : Tokens → Option (List StreamRedirect × Tokens)
  | (.redirect stream kind, _) :: (.word w, _) :: rest => do
    let (rs, rest) ← redirects rest
    return (⟨stream, kind, w⟩ :: rs, rest)
  | (.redirect .., _) :: _ => none
  | rest => some ([], rest)

/-- A command that is no simple one, with the redirections behind it. -/
def trailing (form : Form) (ts : Tokens) : Option (Stage × Tokens) := do
  let (rs, rest) ← redirects ts
  return (.mk form rs, rest)

/-- The words of a `for` up to the end of the line. -/
def forWords : Tokens → List String × Tokens
  | (.word w, _) :: rest =>
    let (ws, rest) := forWords rest
    (w :: ws, rest)
  | ts => ([], ts)

/-- The patterns of an arm up to `)`. -/
def armPatterns : Tokens → Option (List String × Tokens)
  | (.word w, _) :: (.op "|", _) :: rest => do
    let (ws, rest) ← armPatterns rest
    return (w :: ws, rest)
  | (.word w, _) :: (.op ")", _) :: rest => some ([w], rest)
  | _ => none

mutual

/-- A list of chains.  `fuel` bounds how deep the reader goes. -/
def list : (fuel : Nat) → Tokens → Option (List Entry × Tokens)
  | 0, _ => none
  | fuel + 1, ts =>
    let ts := skipNewlines ts
    if endsList ts then some ([], ts)
    else do
      let (steps, ts) ← chain fuel none ts
      let (background, ts) ← match ts with
        | (.op ";", _) :: rest => some (false, rest)
        | (.op "\n", _) :: rest => some (false, rest)
        | (.op "&", _) :: rest => some (true, rest)
        | ts => if endsList ts then some (false, ts) else none
      let (entries, ts) ← list fuel ts
      return (.mk steps background :: entries, ts)

/-- A chain of pipelines, the first of which is connected as told. -/
def chain : (fuel : Nat) → Option Connector → Tokens → Option (List Step × Tokens)
  | 0, _, _ => none
  | fuel + 1, connector, ts => do
    let (negated, ts) := match skipNewlines ts with
      | (.word "!", _) :: rest => (true, rest)
      | ts => (false, ts)
    let (stages, ts) ← pipeline fuel ts
    let step := Step.mk connector negated stages
    match ts with
    | (.op "&&", _) :: rest => do
      let (steps, ts) ← chain fuel (some .and) rest
      return (step :: steps, ts)
    | (.op "||", _) :: rest => do
      let (steps, ts) ← chain fuel (some .or) rest
      return (step :: steps, ts)
    | _ => return ([step], ts)

/-- Commands with bars between them. -/
def pipeline : (fuel : Nat) → Tokens → Option (List Stage × Tokens)
  | 0, _ => none
  | fuel + 1, ts => do
    let (stage, ts) ← command fuel (skipNewlines ts)
    match ts with
    | (.op "|", _) :: rest => do
      let (stages, ts) ← pipeline fuel rest
      return (stage :: stages, ts)
    | _ => return ([stage], ts)

/-- A command. -/
def command : (fuel : Nat) → Tokens → Option (Stage × Tokens)
  | 0, _ => none
  | fuel + 1, ts => match ts with
    | (.op "(", _) :: rest => do
      let (body, ts) ← list fuel rest
      trailing (.subshell body) (← expect ")" ts)
    | (.word "\x7b", _) :: rest => do
      let (body, ts) ← list fuel rest
      trailing (.group body) (← expect "\x7d" ts)
    | (.word "if", _) :: rest => do
      let (form, ts) ← branches fuel rest
      trailing form ts
    | (.word "while", _) :: rest => do
      let (condition, ts) ← list fuel rest
      let (body, ts) ← list fuel (← expect "do" ts)
      trailing (.loop false condition body) (← expect "done" ts)
    | (.word "until", _) :: rest => do
      let (condition, ts) ← list fuel rest
      let (body, ts) ← list fuel (← expect "do" ts)
      trailing (.loop true condition body) (← expect "done" ts)
    | (.word "for", _) :: (.word name, _) :: rest => do
      let (words, ts) := match skipNewlines rest with
        | (.word "in", _) :: rest =>
          let (ws, rest) := forWords rest
          (some ws, rest)
        | ts => (none, ts)
      let ts := match ts with
        | (.op ";", _) :: rest => rest
        | ts => ts
      let (body, ts) ← list fuel (← expect "do" ts)
      trailing (.each name words body) (← expect "done" ts)
    | (.word "case", _) :: (.word w, _) :: rest => do
      let (arms, ts) ← armsOf fuel (← expect "in" rest)
      trailing (.choose w arms) ts
    | (.word name, _) :: (.op "(", _) :: (.op ")", _) :: rest => do
      let (body, ts) ← command fuel (skipNewlines rest)
      return (.mk (.define name body) [], ts)
    | (_, line) :: _ => do
      let (ws, rs, rest) ← simpleParts ts
      if ws.isEmpty && rs.isEmpty then none else return (.mk (.simple line ws) rs, rest)
    | [] => none

/-- What follows `if` or `elif`, up to `fi`. -/
def branches : (fuel : Nat) → Tokens → Option (Form × Tokens)
  | 0, _ => none
  | fuel + 1, ts => do
    let (condition, ts) ← list fuel ts
    let (body, ts) ← list fuel (← expect "then" ts)
    match skipNewlines ts with
    | (.word "elif", _) :: rest => do
      let (form, ts) ← branches fuel rest
      return (.branch condition body [.mk [.mk none false [.mk form []]] false], ts)
    | (.word "else", _) :: rest => do
      let (otherwise, ts) ← list fuel rest
      return (.branch condition body otherwise, ← expect "fi" ts)
    | ts => return (.branch condition body [], ← expect "fi" ts)

/-- The arms of a `case`, up to `esac`. -/
def armsOf : (fuel : Nat) → Tokens → Option (List Arm × Tokens)
  | 0, _ => none
  | fuel + 1, ts => match skipNewlines ts with
    | (.word "esac", _) :: rest => some ([], rest)
    | ts => do
      let ts := match ts with
        | (.op "(", _) :: rest => rest
        | ts => ts
      let (patterns, ts) ← armPatterns ts
      let (body, ts) ← list fuel ts
      let ts := match ts with
        | (.op ";;", _) :: rest => rest
        | ts => ts
      let (arms, ts) ← armsOf fuel ts
      return (.mk patterns body :: arms, ts)

end

/-- Read a script. -/
def parse (text : String) : Option (List Entry) :=
  let ts := lexemes 0 1 text.toList
  match list (4 * ts.length + 8) ts with
  | some (entries, []) => some entries
  | _ => none

end Conch.Program.Script
