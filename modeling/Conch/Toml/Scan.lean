import Conch.Text.Decimal

/-!
# Texts, numbers and keys of a configuration file

Each function reads one lexical unit from the front of a list of characters and returns what is
left.  Line ends have been brought to the form `\n` before.

## Main definitions

* `Conch.Toml.Scan.line` — a quoted text on one line.
* `Conch.Toml.Scan.multiline` — a text between triple quotes.
* `Conch.Toml.Scan.keyPath` — a dotted key.
* `Conch.Toml.Scan.integer`, `Conch.Toml.Scan.float`, `Conch.Toml.Scan.dateTime`.
-/

set_option autoImplicit false

namespace Conch.Toml.Scan

/-- A blank inside a line. -/
def isSpace (c : Char) : Bool := c == ' ' || c == '\t'

/-- A character that may stand in a comment or a text: no control character but the tab. -/
def isText (c : Char) : Bool := c == '\t' || (0x20 ≤ c.toNat && c.toNat != 0x7F)

/-- Drop blanks. -/
def skipSpace (cs : List Char) : List Char := cs.dropWhile isSpace

/-- Drop a comment. -/
def skipComment (cs : List Char) : List Char :=
  if cs.head? = some '#' then cs.dropWhile isText else cs

/-- Drop blanks, line ends and comments. -/
def skipLines : Bool → List Char → List Char
  | _, [] => []
  | true, c :: cs =>
    if c = '\n' then skipLines false cs else if isText c then skipLines true cs else c :: cs
  | false, c :: cs =>
    if c = '#' then skipLines true cs
    else if isSpace c || c = '\n' then skipLines false cs else c :: cs

/-! ## Texts -/

/-- The value of a hexadecimal digit. -/
def hexDigit? (c : Char) : Option Nat :=
  if c.isDigit then some (c.toNat - '0'.toNat)
  else if 'a' ≤ c && c ≤ 'f' then some (c.toNat - 'a'.toNat + 10)
  else if 'A' ≤ c && c ≤ 'F' then some (c.toNat - 'A'.toNat + 10)
  else none

/-- Where a quoted text stands. -/
inductive Mode where
  | plain
  /-- Behind a backslash. -/
  | escape
  /-- Inside a numeric escape with this many digits left. -/
  | hex (left : Nat) (value : Nat)
  /-- Behind this many quotes. -/
  | quotes (n : Nat)
  /-- Behind a backslash and blanks: the line has to end. -/
  | lineEnd
  /-- Behind a backslash at the end of a line: blanks and line ends are dropped. -/
  | trim
  deriving DecidableEq, Repr

/-- The effect of the character behind a backslash. -/
def escape (acc : List Char) (c : Char) : Option (Mode × List Char) :=
  match c with
  | 'b' => some (.plain, '\x08' :: acc)
  | 't' => some (.plain, '\t' :: acc)
  | 'n' => some (.plain, '\n' :: acc)
  | 'f' => some (.plain, '\x0c' :: acc)
  | 'r' => some (.plain, '\r' :: acc)
  | '"' => some (.plain, '"' :: acc)
  | '\\' => some (.plain, '\\' :: acc)
  | 'u' => some (.hex 4 0, acc)
  | 'U' => some (.hex 8 0, acc)
  | _ => none

/-- The effect of a digit of a numeric escape; the number has to be that of a character. -/
def hexStep (acc : List Char) (left value : Nat) (c : Char) : Option (Mode × List Char) := do
  let value := 16 * value + (← hexDigit? c)
  if left ≤ 1 then
    if value.isValidChar then return (.plain, Char.ofNat value :: acc) else none
  else return (.hex (left - 1) value, acc)

/-- A character of a text between quotes `q`; only `"` has escapes. -/
def plainStep (q : Char) (acc : List Char) (c : Char) : Option (Mode × List Char) :=
  if c = '\\' && q = '"' then some (.escape, acc)
  else if isText c then some (.plain, c :: acc) else none

/-- The rest of a quoted text that ends at `q` and on its line. -/
def line (q : Char) : Mode → List Char → List Char → Option (String × List Char)
  | _, _, [] => none
  | mode, acc, c :: cs => match mode with
    | .escape => do let (mode, acc) ← escape acc c; line q mode acc cs
    | .hex left value => do let (mode, acc) ← hexStep acc left value c; line q mode acc cs
    | _ =>
      if c = q then some (String.ofList acc.reverse, cs)
      else do let (mode, acc) ← plainStep q acc c; line q mode acc cs

/-- One character of a text between triple quotes that is no quote. -/
def multilineStep (q : Char) (mode : Mode) (acc : List Char) (c : Char) :
    Option (Mode × List Char) :=
  match mode with
  | .escape =>
    if c = '\n' then some (.trim, acc)
    else if isSpace c then some (.lineEnd, acc)
    else escape acc c
  | .hex left value => hexStep acc left value c
  | .lineEnd =>
    if c = '\n' then some (.trim, acc) else if isSpace c then some (.lineEnd, acc) else none
  | .trim =>
    if c = '\n' || isSpace c then some (.trim, acc) else plainStep q acc c
  | .plain | .quotes _ =>
    if c = '\n' then some (.plain, c :: acc) else plainStep q acc c

/-- The rest of a text between triple quotes.  Up to two further quotes in front of the closing
ones belong to the text. -/
def multiline (q : Char) : Mode → List Char → List Char → Option (String × List Char)
  | .quotes n, acc, [] =>
    if 3 ≤ n then some (String.ofList (List.replicate (n - 3) q ++ acc).reverse, []) else none
  | _, _, [] => none
  | .quotes n, acc, c :: cs =>
    if c = q then
      if n = 4 then some (String.ofList (q :: q :: acc).reverse, cs)
      else multiline q (.quotes (n + 1)) acc cs
    else if 3 ≤ n then
      some (String.ofList (List.replicate (n - 3) q ++ acc).reverse, c :: cs)
    else do
      let (mode, acc) ← multilineStep q .plain (List.replicate n q ++ acc) c
      multiline q mode acc cs
  | mode, acc, c :: cs =>
    if c = q && (mode = .plain || mode = .trim) then multiline q (.quotes 1) acc cs
    else do let (mode, acc) ← multilineStep q mode acc c; multiline q mode acc cs

/-- A text in any of the four kinds of quotes. -/
def text : List Char → Option (String × List Char)
  | '"' :: '"' :: '"' :: cs =>
    multiline '"' .plain [] (if cs.head? = some '\n' then cs.tail else cs)
  | '\'' :: '\'' :: '\'' :: cs =>
    multiline '\'' .plain [] (if cs.head? = some '\n' then cs.tail else cs)
  | '"' :: cs => line '"' .plain [] cs
  | '\'' :: cs => line '\'' .plain [] cs
  | _ => none

/-! ## Keys -/

/-- A character of a bare key. -/
def isKeyChar (c : Char) : Bool := c.isAlphanum || c == '_' || c == '-'

/-- One part of a key. -/
def key : List Char → Option (String × List Char)
  | '"' :: cs => line '"' .plain [] cs
  | '\'' :: cs => line '\'' .plain [] cs
  | cs => match cs.span isKeyChar with
    | ([], _) => none
    | (name, rest) => some (String.ofList name, rest)

/-- How many parts a key may have, and how deep arrays may be nested. -/
def maxDepth : Nat := 79

/-- A dotted key of at most `parts` parts, with blanks around each: the path and the last part. -/
def keyPath : Nat → List Char → Option (List String × String × List Char)
  | 0, _ => none
  | parts + 1, cs => do
    let (name, cs) ← key (skipSpace cs)
    match skipSpace cs with
    | '.' :: cs =>
      let (path, last, cs) ← keyPath parts cs
      return (name :: path, last, cs)
    | cs => return ([], name, cs)

/-! ## Numbers -/

/-- Further digits, with single `_` between digits. -/
def moreDigits (p : Char → Bool) : List Char → List Char → Option (List Char × List Char)
  | acc, [] => some (acc.reverse, [])
  | acc, '_' :: cs => match cs with
    | c :: rest => if p c then moreDigits p (c :: acc) rest else none
    | [] => none
  | acc, c :: cs => if p c then moreDigits p (c :: acc) cs else some (acc.reverse, c :: cs)

/-- One or more digits. -/
def digits (p : Char → Bool) : List Char → Option (List Char × List Char)
  | c :: cs => if p c then moreDigits p [c] cs else none
  | [] => none

/-- A decimal number without leading zeros. -/
def decimal : List Char → Option (List Char × List Char)
  | '0' :: cs => some (['0'], cs)
  | cs => digits Char.isDigit cs

/-- The value of digits in a base. -/
def valueIn (base : Nat) (ds : List Char) : Nat :=
  ds.foldl (fun n c => base * n + (hexDigit? c).getD 0) 0

/-- An optional sign: whether it is a minus. -/
def sign : List Char → Bool × List Char
  | '-' :: cs => (true, cs)
  | '+' :: cs => (false, cs)
  | cs => (false, cs)

/-- Digits in a base other than ten, within the range of a signed 64-bit integer. -/
def based (base : Nat) (cs : List Char) : Option (Int × List Char) := do
  let (ds, rest) ← digits (fun c => (hexDigit? c).any (· < base)) cs
  let n := valueIn base ds
  if n < Text.signedBound then return (n, rest) else none

/-- An integer in the range of a signed 64-bit integer. -/
def integer : List Char → Option (Int × List Char)
  | '0' :: 'x' :: cs => based 16 cs
  | '0' :: 'o' :: cs => based 8 cs
  | '0' :: 'b' :: cs => based 2 cs
  | cs => do
    let (negative, cs) := sign cs
    let (ds, rest) ← decimal cs
    let n := valueIn 10 ds
    if negative then
      if n ≤ Text.signedBound then return (-(n : Int), rest) else none
    else if n < Text.signedBound then return (n, rest) else none

/-- The decimal `ds · 10 ^ exponent` is too large for a double: it reaches the midpoint between
the largest double and the next power of two. -/
def overflows (ds : List Char) (exponent : Int) : Bool :=
  let n := valueIn 10 ds
  let magnitude := ((toString n).length : Int) + exponent
  if n = 0 || magnitude < 300 then false
  else if 400 < magnitude then true
  else
    let limit := Nat.pow 2 1024 - Nat.pow 2 970
    if 0 ≤ exponent then limit ≤ n * Nat.pow 10 exponent.toNat
    else limit * Nat.pow 10 (-exponent).toNat ≤ n

/-- An exponent. -/
def exponent : List Char → Option (Int × List Char)
  | c :: cs => if c = 'e' || c = 'E' then do
      let (negative, cs) := sign cs
      let (ds, rest) ← digits Char.isDigit cs
      let n : Int := valueIn 10 ds
      return (if negative then -n else n, rest)
    else none
  | [] => none

/-- A number with a fraction or an exponent, or one of the special values.  A positive number
must not be too large. -/
def float (cs : List Char) : Option (List Char) := do
  let (negative, cs) := sign cs
  match cs with
  | 'i' :: 'n' :: 'f' :: rest => return rest
  | 'n' :: 'a' :: 'n' :: rest => return rest
  | _ =>
    let (whole, cs) ← decimal cs
    let (fraction, power, rest) ← match cs with
      | '.' :: cs => do
        let (fraction, cs) ← digits Char.isDigit cs
        match cs.head? with
        | some 'e' | some 'E' => do let (power, cs) ← exponent cs; pure (fraction, power, cs)
        | _ => pure (fraction, 0, cs)
      | cs => do let (power, cs) ← exponent cs; pure ([], power, cs)
    if !negative && overflows (whole ++ fraction) (power - fraction.length) then none
    else return rest

/-! ## Dates and times -/

/-- A number of exactly `width` digits between two bounds. -/
def field (width low high : Nat) (cs : List Char) : Option (Nat × List Char) :=
  let ds := cs.take width
  if ds.length = width && ds.all Char.isDigit && low ≤ valueIn 10 ds && valueIn 10 ds ≤ high then
    some (valueIn 10 ds, cs.drop width)
  else none

/-- One given character. -/
def char (c : Char) : List Char → Option (List Char)
  | d :: cs => if d = c then some cs else none
  | [] => none

/-- How many days a month has. -/
def daysIn (year month : Nat) : Nat :=
  if month = 2 then
    if year % 4 = 0 && (year % 100 != 0 || year % 400 = 0) then 29 else 28
  else if month ∈ [4, 6, 9, 11] then 30 else 31

/-- A date `YYYY-MM-DD` of the calendar. -/
def date (cs : List Char) : Option (List Char) := do
  let (year, cs) ← field 4 0 9999 cs
  let (month, cs) ← field 2 1 12 (← char '-' cs)
  let (_, cs) ← field 2 1 (daysIn year month) (← char '-' cs)
  return cs

/-- A time `HH:MM:SS`, with an optional fraction of a second. -/
def time (cs : List Char) : Option (List Char) := do
  let (_, cs) ← field 2 0 23 cs
  let (_, cs) ← field 2 0 59 (← char ':' cs)
  let (_, cs) ← field 2 0 60 (← char ':' cs)
  match cs with
  | '.' :: rest =>
    let behind := rest.dropWhile Char.isDigit
    if behind.length = rest.length then return cs else return behind
  | _ => return cs

/-- An optional offset from universal time. -/
def offset (cs : List Char) : Option (List Char) :=
  match cs with
  | c :: rest =>
    if c = 'Z' || c = 'z' then some rest
    else if c = '+' || c = '-' then do
      let (_, cs) ← field 2 0 23 rest
      let (_, cs) ← field 2 0 59 (← char ':' cs)
      return cs
    else some cs
  | [] => some []

/-- A date, a time, or both with an optional offset. -/
def dateTime (cs : List Char) : Option (List Char) :=
  match date cs with
  | none => time cs
  | some behind => match behind with
    | c :: rest =>
      if c = 'T' || c = 't' || c = ' ' then match time rest with
        | some rest => offset rest
        | none => some behind
      else some behind
    | [] => some []

end Conch.Toml.Scan
