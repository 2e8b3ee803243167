/-!
# Blank characters

The characters with the Unicode property White_Space, and trimming by them.

## Main definitions

* `Conch.Text.isBlank` — the class.
* `Conch.Text.trimEnd`, `Conch.Text.trim` — a text without the blanks at its ends.
-/

set_option autoImplicit false

namespace Conch.Text

/-- The characters with the Unicode property White_Space. -/
def isBlank (c : Char) : Bool :=
  let n := c.toNat
  (0x09 ≤ n && n ≤ 0x0D) || n == 0x20 || n == 0x85 || n == 0xA0 || n == 0x1680 ||
    (0x2000 ≤ n && n ≤ 0x200A) || n == 0x2028 || n == 0x2029 || n == 0x202F || n == 0x205F ||
    n == 0x3000

/-- The characters without the blanks at their end. -/
def trimEnd (cs : List Char) : List Char :=
  (cs.reverse.dropWhile isBlank).reverse

/-- The characters without the blanks at either end. -/
def trim (cs : List Char) : List Char :=
  trimEnd (cs.dropWhile isBlank)

end Conch.Text
