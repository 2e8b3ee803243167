import Conch.Glob
import Conch.Session
import Conch.Text.Alphanumeric

/-!
# Expanding words

A word is written with quotes, escapes, parameters and wildcards; expansion turns it into the
fields it stands for.  Text from quotes, escapes and parameters stands for itself; only a bare
`*`, `?` or `[` asks for the files that match.

## Main definitions

* `Conch.Word.Piece` — literal text, a wildcard, or the mark of a quotation.
* `Conch.Word.pieces` — the pieces of a word.
* `Conch.Word.expand` — the fields of a word in a session.
-/

set_option autoImplicit false

namespace Conch.Word

/-- What a word is made of. -/
inductive Piece where
  /-- Text that stands for itself. -/
  | literal (text : List Char)
  /-- A bare `*`, `?` or `[`. -/
  | wildcard (c : Char)
  /-- A quotation or an escape stood here: the word yields a field even if it is empty. -/
  | quoted
  deriving DecidableEq, Repr

/-- The value of a parameter that has a sign instead of a name, or of a variable. -/
def lookup (s : Session) (name : String) : List Char :=
  if name = "?" then (toString s.status).toList
  else if name = "!" then (s.backgroundPid.map toString).getD "" |>.toList
  else (s.var? name).getD "" |>.toList

/-- A character of a parameter name. -/
def isNameChar (c : Char) : Bool := Text.isAlphanumeric c || c == '_'

/-- The parameter whose text behind `$` starts `cs`: its value, and how many of the characters
belong to it.  `self` is the shell's own process. -/
def parameter (s : Session) (self : Pid) (cs : List Char) : List Char × Nat :=
  match cs with
  | '?' :: _ => (lookup s "?", 1)
  | '!' :: _ => (lookup s "!", 1)
  | '$' :: _ => ((toString self).toList, 1)
  | '{' :: rest =>
    if '}' ∈ rest then
      let name := rest.takeWhile (· ≠ '}')
      (lookup s (String.ofList name), name.length + 2)
    else (['$', '{'], 1)
  | _ =>
    let name := cs.takeWhile isNameChar
    if name.isEmpty then (['$'], 0) else (lookup s (String.ofList name), name.length)

/-- What surrounds the current character. -/
inductive Quoting where
  | bare
  | single
  | double
  deriving DecidableEq, Repr

/-- The pieces of a word.  The first `skip` characters already belong to the piece in front. -/
def pieces (s : Session) (self : Pid) : Nat → Quoting → List Char → List Piece
  | _, _, [] => []
  | skip + 1, q, _ :: cs => pieces s self skip q cs
  | 0, .single, c :: cs =>
    if c = '\'' then pieces s self 0 .bare cs else .literal [c] :: pieces s self 0 .single cs
  | 0, .double, c :: cs =>
    if c = '"' then pieces s self 0 .bare cs
    else if c = '$' then
      let (value, used) := parameter s self cs
      .literal value :: pieces s self used .double cs
    else match c, cs.head? with
      | '\\', some d =>
        if d ∈ ['"', '\\', '$', '`'] then .literal [d] :: pieces s self 1 .double cs
        else .literal [c] :: pieces s self 0 .double cs
      | _, _ => .literal [c] :: pieces s self 0 .double cs
  | 0, .bare, c :: cs =>
    if c = '\'' then .quoted :: pieces s self 0 .single cs
    else if c = '"' then .quoted :: pieces s self 0 .double cs
    else if c = '$' then
      let (value, used) := parameter s self cs
      .literal value :: pieces s self used .bare cs
    else if c = '\\' then match cs.head? with
      | some d => .quoted :: .literal [d] :: pieces s self 1 .bare cs
      | none => []
    else if c ∈ ['*', '?', '['] then .wildcard c :: pieces s self 0 .bare cs
    else .literal [c] :: pieces s self 0 .bare cs

/-- A leading `~`, alone or in front of a slash, stands for the home directory. -/
def tilde (s : Session) (cs : List Char) : List Piece × List Char :=
  match cs, s.home? with
  | '~' :: rest, some home =>
    if rest.isEmpty || rest.head? = some '/' then ([.literal home.toList], rest) else ([], cs)
  | _, _ => ([], cs)

/-- All pieces of a word. -/
def allPieces (s : Session) (self : Pid) (word : String) : List Piece :=
  let (front, cs) := tilde s word.toList
  front ++ pieces s self 0 .bare cs

/-- The text of the pieces. -/
def Piece.text : Piece → List Char
  | .literal text => text
  | .wildcard c => [c]
  | .quoted => []

/-- The pieces as a pattern in which only wildcards are special. -/
def Piece.pattern : Piece → List Char
  | .literal text => Pattern.escape text
  | .wildcard c => [c]
  | .quoted => []

/-- The piece is a wildcard. -/
def Piece.isWildcard : Piece → Bool
  | .wildcard _ => true
  | _ => false

/-- A path without the slashes at its end. -/
def trimSlashes (path : List Char) : List Char := (path.reverse.dropWhile (· = '/')).reverse

/-- The files that a pattern asks for, seen from the directory `cwd`; nothing if there is none
or the pattern is malformed. -/
def matchFiles (cwd : String) (t : FileTree) (pattern : List Char) : Option (List String) :=
  let absolute := pattern.head? = some '/'
  let full := if absolute then pattern
    else trimSlashes (Pattern.escape cwd.toList) ++ '/' :: pattern
  match Glob.expand? t (String.ofList full) with
  | none | some [] => none
  | some paths => some (if absolute then paths
      else paths.map fun path => (Path.stripPrefix? cwd path).getD path)

/-- The fields of a word.  A wildcard without a match stays as it is written, and a bare word
that expands to nothing yields no field. -/
def expand (s : Session) (t : FileTree) (self : Pid) (word : String) : List String :=
  let ps := allPieces s self word
  let matched := if ps.any Piece.isWildcard then matchFiles s.cwd t (ps.flatMap Piece.pattern)
    else none
  match matched with
  | some fields => fields
  | none =>
    let text := ps.flatMap Piece.text
    if text.isEmpty && !ps.contains .quoted then [] else [String.ofList text]

/-- The fields of several words. -/
def expandAll (s : Session) (t : FileTree) (self : Pid) (words : List String) : List String :=
  words.flatMap (expand s t self)

end Conch.Word
