import Conch.Program.Condition
import Conch.Program.State
import Conch.Word

/-!
# Words of a script

Parameters, commands and sums inside a word are replaced; unquoted values are split at blanks,
and bare wildcards ask for files.  Words are bytes, as everything in a script.

## Main definitions

* `Conch.Program.Script.substitutions` — the commands inside a word.
* `Conch.Program.Script.sum` — the value of a sum.
* `Conch.Program.Script.fields`, `Conch.Program.Script.single` — the fields or the text of a
  word.
-/

set_option autoImplicit false

namespace Conch.Program.Script

open Conch.Word (Quoting)
open Text (Octets)

/-! ## Commands and sums inside words -/

/-- What stands behind `$(`, without the closing bracket, and how many characters that takes. -/
def bracketed (cs : List Char) : List Char × Nat :=
  let n := extent false [.paren] cs
  (cs.take (n - 1), n)

/-- What stands in `((…))` is a sum. -/
def sum? (inner : List Char) : Option (List Char) :=
  match inner with
  | '(' :: rest => if rest.getLast? = some ')' then some rest.dropLast else none
  | _ => none

/-- The commands inside a word, in order.  The first `skip` characters belong to the command in
front. -/
def commandsIn : Nat → Quoting → List Char → List String
  | _, _, [] => []
  | skip + 1, q, _ :: cs => commandsIn skip q cs
  | 0, .single, c :: cs => commandsIn 0 (if c = '\'' then .bare else .single) cs
  | 0, q, c :: cs => match c, cs.head? with
    | '\\', _ => commandsIn 1 q cs
    | '\'', _ => commandsIn 0 (if q = .bare then .single else q) cs
    | '"', _ => commandsIn 0 (if q = .double then .bare else .double) cs
    | '`', _ =>
      let inner := cs.takeWhile (· ≠ '`')
      String.ofList inner :: commandsIn (inner.length + 1) q cs
    | '$', some '(' =>
      let (inner, used) := bracketed cs.tail
      if (sum? inner).isSome then commandsIn (used + 1) q cs
      else String.ofList inner :: commandsIn (used + 1) q cs
    | _, _ => commandsIn 0 q cs

/-- The commands inside a word, in order. -/
def substitutions (word : String) : List String := commandsIn 0 .bare word.toList

/-- The value of a parameter with a name. -/
def named (s : ScriptState) (name : String) : String :=
  match Text.digitsValue? name.toList with
  | some 0 => s.name
  | some n => s.args.getD (n - 1) ""
  | none => (s.vars.get? name).getD ""

/-- The operands and operators of a sum.  A minus where an operand is wanted belongs to the
operand.  The first `skip` characters belong to the item in front. -/
def sumItems (s : ScriptState) : (skip : Nat) → (wanted : Bool) → List Char → List String
  | _, _, [] => []
  | skip + 1, wanted, _ :: cs => sumItems s skip wanted cs
  | 0, wanted, c :: cs =>
    if c.isWhitespace || c = '$' then sumItems s 0 wanted cs
    else if c.isDigit then
      let ds := cs.takeWhile Char.isDigit
      String.ofList (c :: ds) :: sumItems s ds.length false cs
    else if c.isAlpha || c = '_' then
      let more := cs.takeWhile fun c => c.isAlphanum || c = '_'
      let value := named s (String.ofList (c :: more))
      (if value.isEmpty then "0" else value) :: sumItems s more.length false cs
    else if c = '-' && wanted then "0" :: "-" :: sumItems s 0 true cs
    else match c, cs.head? with
      | '<', some '=' => "<=" :: sumItems s 1 true cs
      | '>', some '=' => ">=" :: sumItems s 1 true cs
      | '=', some '=' => "=" :: sumItems s 1 true cs
      | '!', some '=' => "!=" :: sumItems s 1 true cs
      | '&', some '&' => "&" :: sumItems s 1 true cs
      | '|', some '|' => "|" :: sumItems s 1 true cs
      | _, _ => c.toString :: sumItems s 0 (c ≠ ')') cs

/-- The value of a sum; a malformed one counts as zero. -/
def sum (s : ScriptState) (text : List Char) : String :=
  match Expression.eval (sumItems s 0 true text) with
  | .ok value => value
  | .error _ => "0"

/-! ## Parameters -/

/-- What a word is made of. -/
inductive Item where
  | char (c : Char) (quoted : Bool)
  /-- Fields end here, at this character. -/
  | gap (c : Char)
  /-- A quotation stood here: the field counts even if it is empty. -/
  | quotation
  deriving DecidableEq, Repr

/-- The value of a parameter. -/
inductive Value where
  | text (s : String)
  /-- All arguments. -/
  | each (args : List String)

/-- A text without what a pattern matches at its front, the shortest part of it. -/
def withoutFront (pattern : List Char) (text : String) : String :=
  match Pattern.items? none pattern with
  | none => text
  | some items =>
    let cs := text.toList
    let matched (n : Nat) : Bool := Pattern.matchItems items false (cs.take n) == .matched
    match (List.range (cs.length + 1)).find? matched with
    | some n => String.ofList (cs.drop n)
    | none => text

/-- A text without what a pattern matches at its end, the shortest part of it. -/
def withoutEnd (pattern : List Char) (text : String) : String :=
  match Pattern.items? none pattern with
  | none => text
  | some items =>
    let cs := text.toList
    match (List.range (cs.length + 1)).find? fun n =>
        Pattern.matchItems items false (cs.drop (cs.length - n)) == .matched with
    | some n => String.ofList (cs.take (cs.length - n))
    | none => text

/-- The value behind `${`: a name, possibly with a default, an alternative or a pattern to
remove. -/
def braced (s : ScriptState) (inner : List Char) : Value :=
  match inner with
  | ['@'] | ['*'] => .each s.args
  | ['#'] => .text (toString s.args.length)
  | ['?'] => .text (toString s.status)
  | '#' :: name => .text (toString (named s (String.ofList name)).length)
  | _ =>
    let name := inner.takeWhile fun c => c.isAlphanum || c = '_'
    let value := named s (String.ofList name)
    let isSet := (s.vars.get? (String.ofList name)).isSome || !value.isEmpty
    match inner.drop name.length with
    | ':' :: '-' :: other => .text (if value.isEmpty then String.ofList other else value)
    | '-' :: other => .text (if isSet then value else String.ofList other)
    | ':' :: '+' :: other => .text (if value.isEmpty then "" else String.ofList other)
    | '#' :: pattern => .text (withoutFront pattern value)
    | '%' :: pattern => .text (withoutEnd pattern value)
    | _ => .text value

/-- What a command inside a word has written, without the newlines at its end. -/
def outputOf (s : ScriptState) (inner : List Char) : Value :=
  let text := (s.outputs.lookup (String.ofList inner)).getD ""
  .text (String.ofList (text.toList.reverse.dropWhile (· = '\n')).reverse)

/-- The parameter whose text behind `$` starts `cs`, and how many characters spell it. -/
def parameter (s : ScriptState) (cs : List Char) : Value × Nat :=
  match cs with
  | '?' :: _ => (.text (toString s.status), 1)
  | '$' :: _ => (.text (toString s.self), 1)
  | '!' :: _ => (.text ((s.background.head?.map toString).getD ""), 1)
  | '#' :: _ => (.text (toString s.args.length), 1)
  | '@' :: _ | '*' :: _ => (.each s.args, 1)
  | '\x7b' :: rest =>
    let inner := rest.takeWhile (· ≠ '\x7d')
    (braced s inner, inner.length + 2)
  | '(' :: rest =>
    let (inner, used) := bracketed rest
    match sum? inner with
    | some text => (.text (sum s text), used + 1)
    | none => (outputOf s inner, used + 1)
  | c :: _ =>
    if c.isDigit then (.text (named s c.toString), 1)
    else
      let name := cs.takeWhile fun c => c.isAlphanum || c = '_'
      if name.isEmpty then (.text "$", 0) else (.text (named s (String.ofList name)), name.length)
  | [] => (.text "$", 0)

/-! ## Fields -/

/-- The items of an unquoted value: blanks end fields. -/
def splitText (text : String) : List Item :=
  text.toList.map fun c => if c ∈ [' ', '\t', '\n'] then .gap c else .char c false

/-- The items of a quoted value. -/
def quotedText (text : String) : List Item := text.toList.map (.char · true)

/-- The items of a value. -/
def valueItems (quoted : Bool) : Value → List Item
  | .text s => if quoted then quotedText s else splitText s
  | .each args =>
    if quoted then (args.map fun a => .quotation :: quotedText a).intersperse [.gap ' '] |>.flatten
    else (args.map splitText).intersperse [.gap ' '] |>.flatten

/-- The items of a word.  The first `skip` characters belong to the item in front. -/
def items (s : ScriptState) : Nat → Quoting → List Char → List Item
  | _, _, [] => []
  | skip + 1, q, _ :: cs => items s skip q cs
  | 0, .single, c :: cs =>
    if c = '\'' then items s 0 .bare cs else .char c true :: items s 0 .single cs
  | 0, .double, c :: cs =>
    if c = '"' then items s 0 .bare cs
    else if c = '$' then
      let (value, used) := parameter s cs
      valueItems true value ++ items s used .double cs
    else if c = '`' then
      let inner := cs.takeWhile (· ≠ '`')
      valueItems true (outputOf s inner) ++ items s (inner.length + 1) .double cs
    else match c, cs.head? with
      | '\\', some d =>
        if d ∈ ['"', '\\', '$', '`'] then .char d true :: items s 1 .double cs
        else .char c true :: items s 0 .double cs
      | _, _ => .char c true :: items s 0 .double cs
  | 0, .bare, c :: cs =>
    if c = '\'' then .quotation :: items s 0 .single cs
    else if c = '"' then
      -- Quoted arguments that are absent leave no field.
      (if s.args.isEmpty && cs.take 3 = "$@\"".toList then [] else [.quotation]) ++
        items s 0 .double cs
    else if c = '$' then
      let (value, used) := parameter s cs
      valueItems false value ++ items s used .bare cs
    else if c = '`' then
      let inner := cs.takeWhile (· ≠ '`')
      valueItems false (outputOf s inner) ++ items s (inner.length + 1) .bare cs
    else if c = '\\' then match cs.head? with
      | some '\n' => items s 1 .bare cs
      | some d => .char d true :: items s 1 .bare cs
      | none => [.char c true]
    else .char c false :: items s 0 .bare cs

/-- All items of a word; a leading `~` stands for the home directory. -/
def wordItems (s : ScriptState) (word : String) : List Item :=
  match word.toList, s.vars.get? "HOME" with
  | '~' :: rest, some home =>
    if rest.isEmpty || rest.head? = some '/' then quotedText home ++ items s 0 .bare rest
    else items s 0 .bare word.toList
  | cs, _ => items s 0 .bare cs

/-- The text of an item. -/
def Item.chars : Item → List Char
  | .char c _ => [c]
  | _ => []

/-- The item in a pattern, in which quoted characters stand for themselves. -/
def Item.pattern : Item → List Char
  | .char c true => Pattern.escape [c]
  | i => i.chars

/-- The items between gaps. -/
def groups : List Item → List (List Item)
  | [] => [[]]
  | .gap _ :: rest => [] :: groups rest
  | i :: rest => match groups rest with
    | [] => [[i]]
    | g :: gs => (i :: g) :: gs

/-- The files that a field asks for, or its text. -/
def fieldOf (s : ScriptState) (t : FileTree) (is : List Item) : List Octets :=
  let text := String.ofList (is.flatMap Item.chars)
  let wild := is.any fun i => i = .char '*' false || i = .char '?' false || i = .char '[' false
  if wild then
    let pattern := Octets.toText (String.ofList (is.flatMap Item.pattern))
    match Word.matchFiles s.cwd t pattern.toList with
    | some names => names.map Octets.ofText
    | none => [text]
  else [text]

/-- The fields of a word. -/
def fields (s : ScriptState) (t : FileTree) (word : Octets) : List Octets :=
  ((groups (wordItems s word)).filter (!·.isEmpty)).flatMap (fieldOf s t)

/-- The text of a word that is not split. -/
def single (s : ScriptState) (word : Octets) : Octets :=
  String.ofList ((wordItems s word).flatMap fun
    | .gap c => [c]
    | i => i.chars)

/-- A word as a pattern matches a text. -/
def matchesWord (s : ScriptState) (pattern text : Octets) : Bool :=
  match Pattern.items? none ((wordItems s pattern).flatMap Item.pattern) with
  | some items => Pattern.matchItems items false text.toList == .matched
  | none => single s pattern = text

end Conch.Program.Script
