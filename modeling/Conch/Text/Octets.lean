/-!
# Texts as bytes

Files, pipes and programs deal in bytes, not in characters.  A sequence of bytes is written as a
text with one character for each byte, the one with the byte's number, so that its length counts
bytes and its order is that of the bytes.

## Main definitions

* `Conch.Text.Octets` — a sequence of bytes.
* `Octets.ofText` — the encoding of a text.
* `Octets.toText` — the text that bytes encode; what encodes nothing shows as a replacement
  character.
* `Octets.toText?` — the text, if the bytes encode one.
-/

set_option autoImplicit false

namespace Conch.Text

/-- Bytes, each written as the character with its number. -/
abbrev Octets := String

namespace Octets

/-- Every character of the text is a byte of its own encoding. -/
def isAscii (text : String) : Bool := text.all fun (c : Char) => c.toNat < 0x80

/-- The bytes that encode a character. -/
def ofChar (c : Char) : List Char := (String.utf8EncodeChar c).map fun b => Char.ofNat b.toNat

/-- The bytes that encode a text. -/
def ofText (text : String) : Octets :=
  if isAscii text then text else String.ofList (text.toList.flatMap ofChar)

/-! ## Decoding -/

/-- What stands for bytes that encode nothing. -/
def replacement : Char := '\uFFFD'

/-- A character whose first bytes have been read. -/
structure Begun where
  /-- How many bytes it still lacks. -/
  owed : Nat
  /-- The bounds of the next byte. -/
  low : Nat
  high : Nat
  /-- The bits so far. -/
  value : Nat
  deriving DecidableEq, Repr

/-- The character that a first byte beyond ASCII begins.  The bounds of the second byte leave out
long forms, surrogates and numbers that are too large. -/
def begin? (b : Nat) : Option Begun :=
  if 0xC2 ≤ b ∧ b ≤ 0xDF then some ⟨1, 0x80, 0xBF, b - 0xC0⟩
  else if b = 0xE0 then some ⟨2, 0xA0, 0xBF, 0⟩
  else if b = 0xED then some ⟨2, 0x80, 0x9F, b - 0xE0⟩
  else if 0xE1 ≤ b ∧ b ≤ 0xEF then some ⟨2, 0x80, 0xBF, b - 0xE0⟩
  else if b = 0xF0 then some ⟨3, 0x90, 0xBF, 0⟩
  else if b = 0xF4 then some ⟨3, 0x80, 0x8F, b - 0xF0⟩
  else if 0xF1 ≤ b ∧ b ≤ 0xF3 then some ⟨3, 0x80, 0xBF, b - 0xF0⟩
  else none

/-- A byte between characters: the text, last first, and the character begun. -/
def beginWith (text : List Char) (c : Char) : List Char × Option Begun :=
  if c.toNat < 0x80 then (c :: text, none)
  else match begin? c.toNat with
    | some g => (text, some g)
    | none => (replacement :: text, none)

/-- One byte of an encoding.  A byte that cannot go on with the character begun begins anew. -/
def decodeStep : List Char × Option Begun → Char → List Char × Option Begun
  | (text, none), c => beginWith text c
  | (text, some g), c =>
    if g.low ≤ c.toNat ∧ c.toNat ≤ g.high then
      let value := g.value * 0x40 + (c.toNat - 0x80)
      if g.owed ≤ 1 then (Char.ofNat value :: text, none)
      else (text, some ⟨g.owed - 1, 0x80, 0xBF, value⟩)
    else beginWith (replacement :: text) c

/-- The text that bytes encode.  Bytes that belong to no character are replaced, those of one
interrupted character together. -/
def toText (o : Octets) : String :=
  if isAscii o then o
  else match o.toList.foldl decodeStep ([], none) with
    | (text, none) => String.ofList text.reverse
    | (text, some _) => String.ofList (replacement :: text).reverse

/-- The text that bytes encode, if they encode one. -/
def toText? (o : Octets) : Option String :=
  let text := toText o
  if ofText text = o then some text else none

end Octets

end Conch.Text
