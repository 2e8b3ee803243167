/-!
# Patterns of file names

`*` stands for any text, `?` for any character, and a bracket for one character of a class.  A
dot at the start of a name is matched only by a dot.

## Main definitions

* `Conch.Pattern.Item` — one item of a pattern; `Pattern.matchItems` — matching a name.
* `Conch.Pattern.Component` — the pattern of one path component, possibly `**`.
* `Conch.Pattern.compile?` — the components of a pattern, unless it is malformed.
* `Conch.Pattern.escape` — the pattern that matches only the given text.
-/

set_option autoImplicit false

namespace Conch.Pattern

/-- A character or a range of them, in a bracket. -/
inductive Range where
  | single (c : Char)
  | span (first last : Char)
  deriving DecidableEq, Repr

/-- The character is in the range. -/
def Range.contains (c : Char) : Range → Bool
  | single d => c == d
  | span first last => decide (first ≤ c) && decide (c ≤ last)

/-- One item of a pattern. -/
inductive Item where
  /-- The character itself. -/
  | char (c : Char)
  /-- `?` -/
  | any
  /-- `*` -/
  | sequence
  /-- `[…]`, or `[!…]` when `negated`. -/
  | bracket (negated : Bool) (ranges : List Range)
  deriving DecidableEq, Repr

/-- The pattern of one path component. -/
inductive Component where
  /-- `**` stands for any number of directories. -/
  | recursive
  | items (list : List Item)
  deriving DecidableEq, Repr

/-! ## Reading patterns -/

/-- The ranges in a bracket. -/
def ranges : List Char → List Range
  | first :: '-' :: last :: cs => .span first last :: ranges cs
  | c :: cs => .single c :: ranges cs
  | [] => []

/-- The items of a component.  The first argument holds what has been read of an open bracket:
whether it is negated, and its characters, last first.  The first character of a bracket never
closes it. -/
def items? : Option (Bool × List Char) → List Char → Option (List Item)
  | none, [] => some []
  | some _, [] => none
  | none, '[' :: '!' :: cs => items? (some (true, [])) cs
  | none, '[' :: cs => items? (some (false, [])) cs
  | none, '*' :: '*' :: _ => none
  | none, '*' :: cs => (items? none cs).map (.sequence :: ·)
  | none, '?' :: cs => (items? none cs).map (.any :: ·)
  | none, c :: cs => (items? none cs).map (.char c :: ·)
  | some (negated, []), c :: cs => items? (some (negated, [c])) cs
  | some (negated, read), ']' :: cs =>
    (items? none cs).map (.bracket negated (ranges read.reverse) :: ·)
  | some (negated, read), c :: cs => items? (some (negated, c :: read)) cs

/-- The pattern of a component; `**` must be a component of its own. -/
def component? (cs : List Char) : Option Component :=
  if cs = ['*', '*'] then some .recursive else (items? none cs).map .items

/-- The parts of a text between slashes; a slash at the end adds none. -/
def splitComponents : List Char → List (List Char)
  | [] => []
  | '/' :: cs => [] :: splitComponents cs
  | [c] => [[c]]
  | c :: '/' :: cs => [c] :: splitComponents cs
  | c :: cs => match splitComponents cs with
    | [] => [[c]]
    | part :: parts => (c :: part) :: parts

/-- The components of a pattern, unless one of them is malformed. -/
def compile? (pattern : List Char) : Option (List Component) :=
  (splitComponents pattern).mapM component?

/-- The pattern that matches only this text. -/
def escape (text : List Char) : List Char :=
  text.flatMap fun c => if c ∈ ['?', '*', '[', ']'] then ['[', c, ']'] else [c]

/-! ## Matching -/

/-- The item accepts the character.  `start` tells that the character starts a name, where only
a dot accepts a dot. -/
def Item.accepts (start : Bool) (c : Char) : Item → Bool
  | .char d => c == d
  | .any => !(start && c == '.')
  | .sequence => false
  | .bracket negated ranges => !(start && c == '.') && (ranges.any (Range.contains c) != negated)

/-- What matching items from a place in a text leads to. -/
inductive Fit where
  | matched
  /-- The items do not match from here. -/
  | mismatch
  /-- The text ended before the items did, so they match from no later place either. -/
  | exhausted
  deriving DecidableEq, Repr, Inhabited

/-- `*` in front of what `rest` matches: the first place from which `rest` does not fail decides. -/
def matchSequence (rest : Bool → List Char → Fit) : Bool → List Char → Fit
  | start, [] => rest start []
  | start, c :: cs => match rest start (c :: cs) with
    | .mismatch => if start && c == '.' then .mismatch else matchSequence rest (c == '/') cs
    | fit => fit

/-- How the items match the whole text.  Since a text that is exhausted ends the search of every
`*`, the time is bounded by the product of both lengths. -/
def matchItems : List Item → Bool → List Char → Fit
  | [], _, [] => .matched
  | [], _, _ :: _ => .mismatch
  | .sequence :: rest, start, cs => matchSequence (matchItems rest) start cs
  | _ :: _, _, [] => .exhausted
  | item :: rest, start, c :: cs =>
    if item.accepts start c then matchItems rest (c == '/') cs else .mismatch

/-- The pattern matches the name. -/
def Component.matches (p : Component) (name : String) : Bool :=
  match p with
  | .recursive => true
  | .items list => matchItems list true name.toList == .matched

/-- The only text that a pattern without wildcards matches. -/
def Component.literal? : Component → Option String
  | .recursive => none
  | .items list => (list.mapM fun
      | Item.char c => some c
      | _ => none).map String.ofList

/-- The pattern starts with a dot. -/
def Component.startsWithDot : Component → Bool
  | .items (.char '.' :: _) => true
  | _ => false

end Conch.Pattern
