/-!
# Decimal numerals

Reading numbers that the user types: an optional sign and ASCII digits, nothing else, within the
range of a machine integer.

## Main definitions

* `Conch.Text.maxWord`, `Conch.Text.signedBound` — the ranges of machine integers.
* `Conch.Text.readNat` — a numeral up to a bound, with an optional `+`.
* `Conch.Text.readInt` — a numeral in the range of a signed 64-bit integer.
-/

set_option autoImplicit false

namespace Conch.Text

/-- The number that a non-empty list of ASCII digits spells. -/
def digitsValue? (cs : List Char) : Option Nat :=
  if cs.isEmpty || !cs.all Char.isDigit then none
  else some (cs.foldl (fun n c => 10 * n + (c.toNat - '0'.toNat)) 0)

/-- The largest word of 32 bits. -/
def maxWord : Nat := 4294967295

/-- Signed 64-bit integers reach from `-signedBound` up to `signedBound - 1`. -/
def signedBound : Nat := 9223372036854775808

/-- A numeral, optionally behind `+`, whose value is at most `bound`. -/
def readNat (bound : Nat) (s : String) : Option Nat :=
  let digits := match s.toList with
    | '+' :: cs => cs
    | cs => cs
  (digitsValue? digits).filter (· ≤ bound)

/-- A numeral, optionally behind a sign, in the range of a signed 64-bit integer. -/
def readInt (s : String) : Option Int :=
  match s.toList with
  | '-' :: cs => (digitsValue? cs).filter (· ≤ signedBound) |>.map fun n => -(n : Int)
  | '+' :: cs => (digitsValue? cs).filter (· < signedBound) |>.map Int.ofNat
  | cs => (digitsValue? cs).filter (· < signedBound) |>.map Int.ofNat

end Conch.Text
