/-!
# Variable names and assignments

## Main definitions

* `Conch.Name.isName` — letters, digits and `_` of ASCII, not starting with a digit.
* `Conch.Name.splitAssignment` — the two sides of `NAME=value`.
-/

set_option autoImplicit false

namespace Conch.Name

/-- A character that may start a name. -/
def isStart (c : Char) : Bool := c.isAlpha || c == '_'

/-- A character that may stand inside a name. -/
def isInner (c : Char) : Bool := c.isAlphanum || c == '_'

/-- A valid variable name: ASCII letters, digits and `_`, not starting with a digit. -/
def isName (name : String) : Bool :=
  match name.toList with
  | [] => false
  | c :: cs => isStart c && cs.all isInner

/-- The text before the first `=` and the text behind it. -/
def splitAtEquals (word : String) : Option (String × String) :=
  match word.toList.span (· ≠ '=') with
  | (_, []) => none
  | (name, _ :: value) => some (String.ofList name, String.ofList value)

/-- Name and value of a word `NAME=value`; other words are no assignments. -/
def splitAssignment (word : String) : Option (String × String) :=
  (splitAtEquals word).filter fun (name, _) => isName name

end Conch.Name
