import Conch.Text.Octets

/-!
# Arguments in messages

The installed programs show an argument in a message so that a reader can tell what it is: in
quotes, and with escapes for what cannot be printed.

## Main definitions

* `Conch.Program.Quotation.plain` — in single quotes, with escapes behind backslashes.
* `Conch.Program.Quotation.always` — as a shell would read it, always quoted.
* `Conch.Program.Quotation.needed` — as a shell would read it, quoted where that is needed.
-/

set_option autoImplicit false

namespace Conch.Program.Quotation

open Text (Octets)

/-- A byte that can be printed. -/
def isPrintable (c : Char) : Bool := ' ' ≤ c && c ≤ '~'

/-- The three octal digits of a byte. -/
def octalDigits (c : Char) : List Char :=
  [c.toNat / 64 % 8, c.toNat / 8 % 8, c.toNat % 8].map fun d => Char.ofNat ('0'.toNat + d)

/-- What stands behind the backslash for a byte that cannot be printed. -/
def escapeOf : Char → List Char
  | '\x07' => ['a']
  | '\x08' => ['b']
  | '\t' => ['t']
  | '\n' => ['n']
  | '\x0b' => ['v']
  | '\x0c' => ['f']
  | '\r' => ['r']
  | c => octalDigits c

/-- An argument in single quotes; quotes, backslashes and what cannot be printed stand behind a
backslash. -/
def plain (arg : Octets) : Octets :=
  let shown (c : Char) : List Char :=
    if c = '\'' || c = '\\' then ['\\', c]
    else if isPrintable c then [c] else '\\' :: escapeOf c
  "'" ++ String.ofList (arg.toList.flatMap shown) ++ "'"

/-! ## As a shell reads it -/

/-- Characters that a shell takes for something else wherever they stand. -/
def isSpecial (c : Char) : Bool := c ∈ " !\"$&()*;<=>?[^`|'\\".toList

/-- The text means something else to a shell without quotes, or holds a colon, which ends a name
in a message. -/
def needsQuotes (cs : List Char) : Bool :=
  cs.isEmpty || cs = ['\x7b'] || cs = ['\x7d'] || cs.head? = some '#' || cs.head? = some '~' ||
    cs.any fun c => isSpecial c || c = ':' || !isPrintable c

/-- Double quotes keep the characters as they are.  A sign that is special only at the front does
not count there. -/
def fitsDoubleQuotes (cs : List Char) : Bool :=
  let keeps (c : Char) : Bool :=
    isPrintable c && (c = ' ' || c = '\'' || !isSpecial c) && c ∉ ['\x7b', '\x7d', '#', '~']
  match cs with
  | [] => true
  | c :: rest => (keeps c || c = '#' || c = '~') && rest.all keeps

/-- The text between single quotes.  What cannot be printed stands between `$'` and `'`, and
`escaping` tells that such a part is open. -/
def singleQuoted : (escaping : Bool) → List Char → List Char
  | _, [] => []
  | escaping, c :: cs =>
    if c = '\'' then '\'' :: '\\' :: '\'' :: '\'' :: singleQuoted false cs
    else if isPrintable c then
      (if escaping then ['\'', '\''] else []) ++ c :: singleQuoted false cs
    else
      (if escaping then [] else ['\'', '$', '\'']) ++ '\\' :: escapeOf c ++ singleQuoted true cs

/-- An argument as a shell would read it, always quoted: in double quotes if that is all an
apostrophe needs. -/
def always (arg : Octets) : Octets :=
  let cs := arg.toList
  if cs.contains '\'' && fitsDoubleQuotes cs then "\"" ++ arg ++ "\""
  else "'" ++ String.ofList (singleQuoted false cs) ++ "'"

/-- An argument as a shell would read it, quoted only where that is needed. -/
def needed (arg : Octets) : Octets := if needsQuotes arg.toList then always arg else arg

end Conch.Program.Quotation
