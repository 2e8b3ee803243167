import Conch.Toml
import Conch.Toml.Scan

/-!
# Reading a configuration file

## Main definitions

* `Conch.Toml.Parse.value` — a value, with arrays and inline tables.
* `Conch.Toml.parse` — the table that a whole file spells.
-/

set_option autoImplicit false

namespace Conch.Toml

namespace Parse

open Scan

/-- A value that is no array and no table. -/
def scalar (cs : List Char) : Option (Item × List Char) :=
  match cs with
  | '"' :: _ | '\'' :: _ => (text cs).map fun (s, rest) => (.string s, rest)
  | 't' :: 'r' :: 'u' :: 'e' :: rest => some (.boolean true, rest)
  | 'f' :: 'a' :: 'l' :: 's' :: 'e' :: rest => some (.boolean false, rest)
  | c :: _ =>
    if c = '+' || c = '-' || c.isDigit || c = 'i' || c = 'n' then
      ((dateTime cs).map fun rest => (.dateTime, rest)) <|>
      ((float cs).map fun rest => (.float, rest)) <|>
      ((integer cs).map fun (n, rest) => (.integer n, rest))
    else none
  | [] => none

mutual

/-- A value in which arrays and inline tables are nested at most `depth` deep.  `fuel` is at
least the number of characters. -/
def value : (fuel : Nat) → (depth : Nat) → List Char → Option (Item × List Char)
  | 0, _, _ => none
  | fuel + 1, depth, cs => match cs, depth with
    | '[' :: _, 0 | '\x7b' :: _, 0 => none
    | '[' :: rest, depth + 1 => elements fuel depth [] (skipLines false rest)
    | '\x7b' :: rest, depth + 1 => match skipSpace rest with
      | '\x7d' :: rest => some (.inline [], rest)
      | rest => members fuel depth [] rest
    | cs, _ => scalar cs

/-- The rest of an array behind `acc`; a comma may stand behind the last element. -/
def elements : (fuel : Nat) → (depth : Nat) → List Item → List Char → Option (Item × List Char)
  | 0, _, _, _ => none
  | fuel + 1, depth, acc, cs => match cs with
    | ']' :: rest => some (.array acc.reverse, rest)
    | cs => do
      let (item, cs) ← value fuel depth cs
      match skipLines false cs with
      | ',' :: rest => elements fuel depth (item :: acc) (skipLines false rest)
      | ']' :: rest => some (.array (item :: acc).reverse, rest)
      | _ => none

/-- The rest of an inline table behind the entries `acc`. -/
def members : (fuel : Nat) → (depth : Nat) → Entries → List Char → Option (Item × List Char)
  | 0, _, _, _ => none
  | fuel + 1, depth, acc, cs => do
    let (path, key, cs) ← keyPath maxDepth cs
    let (item, cs) ← value fuel depth (skipSpace (← char '=' cs))
    let acc ← insert path key item acc
    match skipSpace cs with
    | ',' :: rest => members fuel depth acc rest
    | '\x7d' :: rest => some (.inline acc, rest)
    | _ => none

end

/-- The end of a line, behind blanks and a comment. -/
def lineEnd (cs : List Char) : Option (List Char) :=
  match skipComment (skipSpace cs) with
  | [] => some []
  | '\n' :: rest => some rest
  | _ => none

/-- One line with a header or a key, whose value may go on over further lines. -/
def statement (fuel : Nat) (d : Document) (cs : List Char) : Option (Document × List Char) :=
  match cs with
  | '[' :: '[' :: rest => do
    let (path, key, cs) ← keyPath maxDepth rest
    let cs ← lineEnd (← char ']' (← char ']' cs))
    return (← d.openElement path key, cs)
  | '[' :: rest => do
    let (path, key, cs) ← keyPath maxDepth rest
    let cs ← lineEnd (← char ']' cs)
    return (← d.openTable path key, cs)
  | cs => do
    let (path, key, cs) ← keyPath maxDepth cs
    let (item, cs) ← value fuel maxDepth (skipSpace (← char '=' cs))
    return (← d.set path key item, ← lineEnd cs)

/-- The lines of a document.  `fuel` is at least the number of characters. -/
def statements : (fuel : Nat) → Document → List Char → Option Document
  | 0, _, _ => none
  | fuel + 1, d, cs => match skipSpace cs with
    | [] => some d
    | '\n' :: rest => statements fuel d rest
    | '#' :: rest => do statements fuel d (← lineEnd ('#' :: rest))
    | cs => do
      let (d, cs) ← statement (cs.length + 1) d cs
      statements fuel d cs

/-- A carriage return in front of a newline belongs to the line end. -/
def joinLineEnds : List Char → List Char
  | '\r' :: '\n' :: cs => '\n' :: joinLineEnds cs
  | c :: cs => c :: joinLineEnds cs
  | [] => []

end Parse

/-- The table that a file with this text spells; nothing if the text is malformed. -/
def parse (text : String) : Option Item := do
  let cs := match text.toList with
    | '\uFEFF' :: cs => cs
    | cs => cs
  let cs := Parse.joinLineEnds cs
  let d ← Parse.statements (cs.length + 1) .empty cs
  return .table .header (← d.close)

end Conch.Toml
