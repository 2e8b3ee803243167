import Conch.Text.Decimal
import Conch.Text.Octets

/-!
# Programs that work on text

The parts of the installed text tools that are functions: sorting, counting, cutting, replacing
and formatting.  A text is a sequence of bytes.

## Main definitions

* `Conch.Program.lines` — the lines of a text.
* `Conch.Program.sortText`, `Conch.Program.tailText`, `Conch.Program.counts`.
* `Conch.Program.charSet` — the characters that a set of `tr` spells.
* `Conch.Program.format` — the text that `printf` writes.
-/

set_option autoImplicit false

namespace Conch.Program

open Text (Octets)

/-- What a program writes and how it ends. -/
structure Output where
  out : Octets
  err : Octets
  code : Int
  deriving DecidableEq, Repr, Inhabited

/-- The end of a program with a message. -/
def Output.failure (message : Octets) (code : Int) : Output := ⟨"", message ++ "\n", code⟩

/-- The lines of a text without their newlines; a last line may lack its own. -/
def lines (text : Octets) : List Octets :=
  let parts := text.splitOn "\n"
  if parts.getLast? = some "" then parts.dropLast else parts

/-- Lines with a newline behind each. -/
def unlines (ls : List Octets) : Octets := String.join (ls.map (· ++ "\n"))

/-! ## Sorting, counting and cutting -/

/-- How `sort` compares and what it keeps. -/
structure SortOptions where
  reverse : Bool
  numeric : Bool
  unique : Bool
  deriving Repr

/-- The number in front of a line; other lines count as zero. -/
def leadingInt (line : Octets) : Int :=
  let cs := line.toList.dropWhile fun c => c = ' ' || c = '\t'
  let (negative, cs) := match cs with
    | '-' :: rest => (true, rest)
    | _ => (false, cs)
  let n : Int := (Text.digitsValue? (cs.takeWhile Char.isDigit)).getD 0
  if negative then -n else n

/-- Whether a line may stand in front of another. -/
def SortOptions.le (o : SortOptions) (a b : Octets) : Bool :=
  let plain := if o.numeric then
      leadingInt a < leadingInt b || (leadingInt a = leadingInt b && !decide (b < a))
    else !decide (b < a)
  let turned := if o.numeric then
      leadingInt b < leadingInt a || (leadingInt a = leadingInt b && !decide (a < b))
    else !decide (a < b)
  if o.reverse then turned else plain

/-- Equal neighbours count once. -/
def dropRepeats : List Octets → List Octets
  | a :: b :: rest => if a = b then dropRepeats (b :: rest) else a :: dropRepeats (b :: rest)
  | ls => ls

/-- The lines of a text in order. -/
def sortText (o : SortOptions) (text : Octets) : Octets :=
  let sorted := (lines text).mergeSort o.le
  unlines (if o.unique then dropRepeats sorted else sorted)

/-- The first lines of a text. -/
def headText (n : Nat) (text : Octets) : Octets :=
  let parts := text.splitOn "\n"
  if parts.length ≤ n then text else unlines (parts.take n)

/-- The last lines of a text, or with `start` those from line `n` on. -/
def tailText (n : Nat) (start : Bool) (text : Octets) : Octets :=
  let ls := lines text
  let kept := if start then ls.drop (n - 1) else ls.drop (ls.length - n)
  let kept := unlines kept
  if text.endsWith "\n" || kept.isEmpty then kept else String.ofList kept.toList.dropLast

/-- A blank between words. -/
def isGapByte (c : Char) : Bool := c = ' ' || ('\t' ≤ c && c ≤ '\r')

/-- Lines, words and bytes of a text. -/
def counts (text : Octets) : Nat × Nat × Nat :=
  ((text.toList.filter (· = '\n')).length,
    (text.split isGapByte).toList.filter (fun w => !w.isEmpty) |>.length,
    text.length)

/-- A number in a field of a width. -/
def padLeft (width : Nat) (s : String) : String :=
  String.ofList (List.replicate (width - s.length) ' ') ++ s

/-! ## Replacing characters -/

/-- An escaped character of a set, and how many characters spell it behind the backslash. -/
def setEscape : Char → Char
  | 'n' => '\n'
  | 't' => '\t'
  | 'r' => '\r'
  | c => c

/-- The named classes of characters. -/
def namedClass : String → List Char
  | "upper" => (List.range 26).map fun i => Char.ofNat (65 + i)
  | "lower" => (List.range 26).map fun i => Char.ofNat (97 + i)
  | "digit" => (List.range 10).map fun i => Char.ofNat (48 + i)
  | "alpha" => (List.range 26).map (fun i => Char.ofNat (65 + i)) ++
      (List.range 26).map fun i => Char.ofNat (97 + i)
  | "alnum" => (List.range 10).map (fun i => Char.ofNat (48 + i)) ++
      (List.range 26).map (fun i => Char.ofNat (65 + i)) ++
      (List.range 26).map fun i => Char.ofNat (97 + i)
  | "space" => ['\t', '\n', '\x0b', '\x0c', '\r', ' ']
  | "blank" => ['\t', ' ']
  | "punct" => "!\"#$%&'()*+,-./:;<=>?@[\\]^_`\x7b|\x7d~".toList
  | _ => []

/-- Escapes and ranges of a set. -/
def setItems : List Char → List Char
  | '\\' :: c :: rest => setEscape c :: setItems rest
  | a :: '-' :: b :: rest =>
    (List.range (b.toNat + 1 - a.toNat)).map (fun i => Char.ofNat (a.toNat + i)) ++ setItems rest
  | c :: rest => c :: setItems rest
  | [] => []

/-- The characters that a set spells. -/
def charSet (set : Octets) : List Char :=
  if set.startsWith "[:" && set.endsWith ":]" then
    namedClass (String.ofList ((set.toList.drop 2).dropLast.dropLast))
  else setItems set.toList

/-- Each character of the first set with its counterpart; the last of the second set stands in
for those that are missing. -/
def pairUp (a b : List Char) : List (Char × Char) :=
  match b.getLast? with
  | none => []
  | some last => a.zip (b ++ List.replicate (a.length - b.length) last)

/-- Replace and drop characters. -/
def replaceChars (table : List (Char × Char)) (delete : List Char) (text : Octets) : Octets :=
  String.ofList ((text.toList.filter (· ∉ delete)).map fun c => (table.lookup c).getD c)

/-! ## Formatting -/

/-- The character that a letter behind a backslash stands for. -/
def escapeLetter? : Char → Option Char
  | 'n' => some '\n'
  | 't' => some '\t'
  | 'r' => some '\r'
  | 'a' => some '\x07'
  | 'b' => some '\x08'
  | 'f' => some '\x0c'
  | 'v' => some '\x0b'
  | 'e' => some '\x1b'
  | '\\' => some '\\'
  | '"' => some '"'
  | _ => none

/-- The value of octal digits. -/
def octal (ds : List Char) : Nat := ds.foldl (fun n c => 8 * n + (c.toNat - '0'.toNat)) 0

/-- An octal digit. -/
def isOctal (c : Char) : Bool := '0' ≤ c && c ≤ '7'

/-- A text with its escapes replaced, up to `\c`, and whether `\c` was found.  The first `skip`
characters belong to the escape in front.  With `zero` an octal escape starts with `\0`. -/
def unescape (zero : Bool) : Nat → List Char → List Char × Bool
  | _, [] => ([], false)
  | skip + 1, _ :: cs => unescape zero skip cs
  | 0, c :: cs =>
    let keep (d : Char) (skip : Nat) : List Char × Bool :=
      let (rest, stopped) := unescape zero skip cs
      (d :: rest, stopped)
    if c = '\\' then match cs with
      | [] => (['\\'], false)
      | 'c' :: _ => ([], true)
      | d :: after =>
        if zero && d = '0' then
          let ds := (after.take 3).takeWhile isOctal
          keep (Char.ofNat (octal ds % 256)) (1 + ds.length)
        else if isOctal d then
          let ds := ((d :: after).take 3).takeWhile isOctal
          keep (Char.ofNat (octal ds % 256)) ds.length
        else match escapeLetter? d with
          | some e => keep e 1
          | none => keep '\\' 0
    else keep c 0

/-- A directive of a format. -/
inductive Directive where
  | literal (c : Char)
  /-- `%…c`, with its flags, width and precision. -/
  | field (left zero : Bool) (width : Nat) (precision : Option Nat) (kind : Char)
  deriving Repr

/-- The directives of a format whose escapes have been replaced.  The first `skip` characters
belong to the directive in front. -/
def directives : Nat → List Char → List Directive
  | _, [] => []
  | skip + 1, _ :: cs => directives skip cs
  | 0, c :: cs =>
    if c ≠ '%' then .literal c :: directives 0 cs
    else match cs with
      | '%' :: _ => .literal '%' :: directives 1 cs
      | _ =>
        let flags := cs.takeWhile (· ∈ ['-', '0', '+', ' ', '#'])
        let rest := cs.drop flags.length
        let width := rest.takeWhile Char.isDigit
        let rest := rest.drop width.length
        let (precision, used) := match rest with
          | '.' :: more =>
            let ds := more.takeWhile Char.isDigit
            (some ((Text.digitsValue? ds).getD 0), 1 + ds.length)
          | _ => (none, 0)
        match rest.drop used with
        | kind :: _ =>
          .field ('-' ∈ flags) ('0' ∈ flags) ((Text.digitsValue? width).getD 0) precision kind ::
            directives (flags.length + width.length + used + 1) cs
        | [] => [.literal '%']

/-- The digits of a number in a base up to sixteen. -/
def digitsIn (base n : Nat) : String := String.ofList (Nat.toDigits base n)

/-- The value of a hexadecimal digit. -/
def hexDigit? (c : Char) : Option Nat :=
  if c.isDigit then some (c.toNat - '0'.toNat)
  else if 'a' ≤ c && c ≤ 'f' then some (c.toNat - 'a'.toNat + 10)
  else if 'A' ≤ c && c ≤ 'F' then some (c.toNat - 'A'.toNat + 10)
  else none

/-- How much of an argument is a number. -/
inductive NumberFit where
  | whole
  /-- Something stands behind the number. -/
  | front
  | nothing
  deriving DecidableEq, Repr, Inhabited

/-- The number in front of a text and what stands behind it: `0x` starts a hexadecimal number,
another `0` an octal one. -/
def unsignedFront (cs : List Char) : Option (Nat × List Char) :=
  let hex := (cs.drop 2).takeWhile fun c => (hexDigit? c).isSome
  if (cs.take 2 = ['0', 'x'] || cs.take 2 = ['0', 'X']) && !hex.isEmpty then
    some (hex.foldl (fun n c => 16 * n + (hexDigit? c).getD 0) 0, cs.drop (2 + hex.length))
  else if cs.head? = some '0' then
    let ds := cs.takeWhile isOctal
    some (octal ds, cs.drop ds.length)
  else
    let ds := cs.takeWhile Char.isDigit
    (Text.digitsValue? ds).map fun n => (n, cs.drop ds.length)

/-- The value of a numeric argument: a character behind a quote counts as its code, and what is
no number as zero. -/
def numericArg (arg : Octets) : Int × NumberFit :=
  let fit : Option (Nat × List Char) → Int × NumberFit
    | none => (0, .nothing)
    | some (n, rest) => (n, if rest.isEmpty then .whole else .front)
  match arg.toList with
  | [] => (0, .whole)
  | '\'' :: c :: _ | '"' :: c :: _ => (c.toNat, .whole)
  | '-' :: cs => let (n, f) := fit (unsignedFront cs); (-n, f)
  | '+' :: cs => fit (unsignedFront cs)
  | cs => fit (unsignedFront cs)

/-- The text of one argument in a field, and how far the argument was of the right kind. -/
def fieldText (kind : Char) (precision : Option Nat) (arg : Octets) : Octets × NumberFit :=
  let cut (s : Octets) := match precision with
    | some n => String.ofList (s.toList.take n)
    | none => s
  match kind with
  | 's' => (cut arg, .whole)
  | 'b' => (cut (String.ofList (unescape true 0 arg.toList).1), .whole)
  | 'c' => (String.ofList (arg.toList.take 1), .whole)
  | _ =>
    let (n, fit) := numericArg arg
    let digits (base : Nat) := (if n < 0 then "-" else "") ++ digitsIn base n.natAbs
    let shown := match kind with
      | 'x' => digits 16
      | 'X' => String.ofList ((digits 16).toList.map Char.toUpper)
      | 'o' => digits 8
      | _ => digits 10
    (shown, fit)

/-- A text in a field of a width. -/
def pad (left zero : Bool) (width : Nat) (s : Octets) : Octets :=
  let fill (c : Char) := String.ofList (List.replicate (width - s.length) c)
  if left then s ++ fill ' '
  else if zero then match s.toList with
    | '-' :: rest => "-" ++ fill '0' ++ String.ofList rest
    | _ => fill '0' ++ s
  else fill ' ' ++ s

/-- One pass over the directives: the text, the arguments that should be numbers and are not,
each with whether its front is one, and the arguments left. -/
def formatOnce : List Directive → List Octets → Octets × List (Octets × Bool) × List Octets
  | [], args => ("", [], args)
  | .literal c :: rest, args =>
    let (out, bad, args) := formatOnce rest args
    (c.toString ++ out, bad, args)
  | .field left zero width precision kind :: rest, args =>
    let arg := args.headD ""
    let (shown, fit) := fieldText kind precision arg
    let (out, bad, args) := formatOnce rest args.tail
    (pad left (zero && kind ≠ 's') width shown ++ out,
      if fit = .whole then bad else (arg, fit = .front) :: bad, args)

/-- Use the directives again and again until no argument is left, at most `times` times. -/
def formatAll (ds : List Directive) : (times : Nat) → List Octets → Octets × List (Octets × Bool)
  | 0, _ => ("", [])
  | times + 1, args =>
    let (out, bad, left) := formatOnce ds args
    if left.isEmpty || left.length = args.length then (out, bad)
    else
      let (more, worse) := formatAll ds times left
      (out ++ more, bad ++ worse)

/-- What `printf` writes for a format and its arguments.  `complaint` tells about an argument
that should be a number, and is one only in front or not at all. -/
def format (complaint : Octets → Bool → Octets) (fmt : Octets) (args : List Octets) : Output :=
  let ds := directives 0 (unescape false 0 fmt.toList).1
  let (out, bad) := formatAll ds (args.length + 1) args
  ⟨out, unlines (bad.map fun (arg, partly) => complaint arg partly),
    if bad.isEmpty then 0 else 1⟩

end Conch.Program
