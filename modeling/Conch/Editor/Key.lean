import Conch.Text.Decimal
import Conch.Text.Octets

/-!
# Keys of a terminal

A terminal in raw mode sends keys as bytes: a character as its encoding, a control key as one
byte, and other keys as sequences that start with an escape.  The decoder reads byte by byte; a
sequence that makes no sense is dropped.

## Main definitions

* `Conch.Key` — a key with its modifiers.
* `Conch.Key.read` — what the bytes of one sequence amount to so far.
* `Conch.Key.decode` — the keys of a list of bytes.
-/

set_option autoImplicit false

namespace Conch

/-- The keys that the editor tells apart. -/
inductive KeyCode where
  | char (c : Char)
  | enter
  | tab
  | backspace
  | delete
  | left
  | right
  | up
  | down
  | home
  | end
  /-- Any other key. -/
  | other
  deriving DecidableEq, Repr, Inhabited

/-- A key with its modifiers. -/
structure Key where
  code : KeyCode
  ctrl : Bool
  alt : Bool
  /-- The key was let go. -/
  released : Bool
  deriving DecidableEq, Repr, Inhabited

namespace Key

/-- A key without modifiers. -/
def plain (code : KeyCode) : Key := ⟨code, false, false, false⟩

/-- A key with the control key. -/
def control (c : Char) : Key := ⟨.char c, true, false, false⟩

/-- What the bytes of a sequence amount to so far. -/
inductive Reading where
  /-- More bytes are needed. -/
  | more
  /-- A key. -/
  | key (k : Key)
  /-- A report of the terminal that is no key. -/
  | report
  /-- The bytes make no sense. -/
  | bad
  deriving DecidableEq, Repr, Inhabited

/-- The key with the alternate key, if it is one. -/
def Reading.withAlt : Reading → Reading
  | .key k => .key { k with alt := true }
  | r => r

/-- A byte as a character. -/
def ascii (b : Nat) : Char := Char.ofNat b

/-! ## Characters -/

/-- How many bytes the encoding of a character has, by its first byte. -/
def encodedLength (b : Nat) : Option Nat :=
  if b < 0x80 then some 1
  else if b < 0xC0 then none
  else if b < 0xE0 then some 2
  else if b < 0xF0 then some 3
  else if b < 0xF8 then some 4
  else none

/-- The text that bytes encode. -/
def decodeText? (bytes : List Nat) : Option (List Char) :=
  (Text.Octets.toText? (String.ofList (bytes.map ascii))).map String.toList

/-- A character, byte by byte. -/
def readChar (bytes : List Nat) : Reading :=
  match bytes with
  | [] => .more
  | b :: rest => match encodedLength b with
    | none => .bad
    | some n =>
      if bytes.length = n then match decodeText? bytes with
        | some [c] => .key (plain (.char c))
        | _ => .bad
      else if rest.all fun b => decide (0x80 ≤ b ∧ b < 0xC0) then .more else .bad

/-! ## Numbered sequences -/

/-- Split at a separator. -/
def splitAt (sep : Char) : List Char → List (List Char)
  | [] => [[]]
  | c :: cs =>
    if c = sep then [] :: splitAt sep cs
    else match splitAt sep cs with
      | [] => [[c]]
      | part :: parts => (c :: part) :: parts

/-- A number up to `bound`, optionally behind `+`. -/
def number? (bound : Nat) (cs : List Char) : Option Nat :=
  let digits := match cs with
    | '+' :: cs => cs
    | cs => cs
  if digits.isEmpty || !digits.all Char.isDigit then none
  else
    let n := digits.foldl (fun n c => 10 * n + (c.toNat - '0'.toNat)) 0
    if n ≤ bound then some n else none

/-- Modifiers of a key: one more than a sum of 1 for shift, 2 for alt, 4 for control. -/
structure Modifiers where
  shift : Bool
  alt : Bool
  ctrl : Bool
  released : Bool
  deriving DecidableEq, Repr, Inhabited

/-- No modifiers. -/
def noModifiers : Modifiers := ⟨false, false, false, false⟩

/-- The modifiers that a number stands for, and whether the key was let go. -/
def modifiers (mask kind : Nat) : Modifiers :=
  let bits := mask - 1
  ⟨bits.testBit 0, bits.testBit 1, bits.testBit 2, kind == 3⟩

/-- The parameter `modifiers:kind`, if it is there and a number. -/
def modifierParameter? (parameters : List (List Char)) : Option Modifiers := do
  let parts := splitAt ':' (← parameters.head?)
  let mask ← number? 255 (← parts.head?)
  return modifiers mask (((parts[1]?).bind (number? 255)).getD 1)

/-- A key with modifiers. -/
def withModifiers (code : KeyCode) (m : Modifiers) : Reading :=
  .key ⟨code, m.ctrl, m.alt, m.released⟩

/-- The key at the end of a sequence of cursor keys. -/
def cursorKey? (final : Char) : Option KeyCode :=
  match final with
  | 'A' => some .up
  | 'B' => some .down
  | 'C' => some .right
  | 'D' => some .left
  | 'F' => some .end
  | 'H' => some .home
  | 'P' | 'Q' | 'R' | 'S' => some .other
  | _ => none

/-- `ESC [ 1 ; modifiers letter`.  Without a parameter for them, the last digit tells the
modifiers. -/
def readModified (body : List Char) (final : Char) : Reading :=
  let parameters := (splitAt ';' body).drop 1
  let mods := match modifierParameter? parameters with
    | some m => some m
    | none => match body.getLast? with
      | none => some noModifiers
      | some c => if c.isDigit then some (modifiers (c.toNat - '0'.toNat) 1) else none
  match mods, cursorKey? final with
  | some m, some code => withModifiers code m
  | _, _ => .bad

/-- The key of a sequence `ESC [ number ~`. -/
def numberedKey? (n : Nat) : Option KeyCode :=
  if n = 1 ∨ n = 7 then some .home
  else if n = 3 then some .delete
  else if n = 4 ∨ n = 8 then some .end
  else if n = 2 ∨ n = 5 ∨ n = 6 ∨ (11 ≤ n ∧ n ≤ 15) ∨ (17 ≤ n ∧ n ≤ 21) ∨ (23 ≤ n ∧ n ≤ 26) ∨
      n = 28 ∨ n = 29 ∨ (31 ≤ n ∧ n ≤ 34) then some .other
  else none

/-- `ESC [ number ; modifiers ~`. -/
def readNumbered (body : List Char) : Reading :=
  let parameters := splitAt ';' body
  match (parameters.head?.bind (number? 255)).bind numberedKey? with
  | some code => withModifiers code ((modifierParameter? (parameters.drop 1)).getD noModifiers)
  | none => .bad

/-- Keys of the keypad and others with a code point of their own. -/
def functionalKey? (n : Nat) : Option KeyCode :=
  if 57399 ≤ n ∧ n ≤ 57408 then some (.char (Char.ofNat (n - 57399 + '0'.toNat)))
  else match n with
    | 57409 => some (.char '.')
    | 57410 => some (.char '/')
    | 57411 => some (.char '*')
    | 57412 => some (.char '-')
    | 57413 => some (.char '+')
    | 57414 => some .enter
    | 57415 => some (.char '=')
    | 57416 => some (.char ',')
    | 57417 => some .left
    | 57418 => some .right
    | 57419 => some .up
    | 57420 => some .down
    | 57423 => some .home
    | 57424 => some .end
    | 57426 => some .delete
    | _ =>
      if (57358 ≤ n ∧ n ≤ 57363) ∨ (57376 ≤ n ∧ n ≤ 57398) ∨ n = 57421 ∨ n = 57422 ∨ n = 57425 ∨
          (57427 ≤ n ∧ n ≤ 57454) then some .other
      else none

/-- The key of a code point. -/
def pointKey? (shift : Bool) (n : Nat) : Option KeyCode :=
  match functionalKey? n with
  | some code => some code
  | none =>
    if n = 0x1B then some .other
    else if n = 0x0D then some .enter
    else if n = 0x09 then some (if shift then .other else .tab)
    else if n = 0x7F then some .backspace
    else if n.isValidChar then some (.char (Char.ofNat n))
    else none

/-- The modifiers together with the one that the key itself is, if its code point is that of a
shift, control or alt key. -/
def Modifiers.withOwn (m : Modifiers) (n : Nat) : Modifiers :=
  match n with
  | 57441 | 57447 => { m with shift := true }
  | 57442 | 57448 => { m with ctrl := true }
  | 57443 | 57449 => { m with alt := true }
  | _ => m

/-- `ESC [ code point : shifted code point ; modifiers u`.  The second code point counts for a
key with shift. -/
def readPoint (body : List Char) : Reading :=
  let parameters := splitAt ';' body
  let points := (splitAt ':' ((parameters.head?).getD [])).map (number? Text.maxWord)
  let m := (modifierParameter? (parameters.drop 1)).getD noModifiers
  match points.head?.join with
  | none => .bad
  | some n => match pointKey? m.shift n with
    | none => .bad
    | some code =>
      let m := m.withOwn n
      match (points[1]?).join with
      | some shifted =>
        if m.shift && shifted.isValidChar then withModifiers (.char (Char.ofNat shifted)) m
        else withModifiers code m
      | none => withModifiers code m

/-! ## Sequences -/

/-- The bytes end with a text. -/
def endsWith (bytes : List Nat) (text : String) : Bool :=
  (text.toList.map Char.toNat).isSuffixOf bytes

/-- Behind `ESC [ digit`; `bytes` are those behind `ESC [`. -/
def readDigits (bytes : List Nat) : Reading :=
  match bytes.getLast? with
  | none => .more
  | some final =>
    if bytes.length = 1 ∨ final < 64 ∨ 126 < final then .more
    else if ("200~".toList.map Char.toNat).isPrefixOf bytes then
      if endsWith bytes "\x1b[201~" then .report else .more
    else match decodeText? bytes.dropLast, ascii final with
      | none, _ => .bad
      | some _, 'M' | some _, 'R' => .report
      | some body, '~' => readNumbered body
      | some body, 'u' => readPoint body
      | some body, c => readModified body c

/-- Behind `ESC [`. -/
def readBracket (bytes : List Nat) : Reading :=
  match bytes with
  | [] => .more
  | b :: rest => match ascii b with
    | '[' => match rest with
      | [] => .more
      | c :: _ => if 'A'.toNat ≤ c ∧ c ≤ 'E'.toNat then .key (plain .other) else .bad
    | 'D' => .key (plain .left)
    | 'C' => .key (plain .right)
    | 'A' => .key (plain .up)
    | 'B' => .key (plain .down)
    | 'H' => .key (plain .home)
    | 'F' => .key (plain .end)
    | 'Z' | 'P' | 'Q' | 'S' => .key (plain .other)
    | 'M' => if bytes.length < 4 then .more else .report
    | '<' => if endsWith bytes "m" ∨ endsWith bytes "M" then .report else .more
    | 'I' | 'O' => .report
    | '?' =>
      if endsWith bytes "c" ∨ (endsWith bytes "u" ∧ 3 ≤ bytes.length) then .report else .more
    | c => if c.isDigit then readDigits bytes else .bad

/-- Behind `ESC O`. -/
def readLetter (bytes : List Nat) : Reading :=
  match bytes with
  | [] => .more
  | b :: _ => match ascii b with
    | 'D' => .key (plain .left)
    | 'C' => .key (plain .right)
    | 'A' => .key (plain .up)
    | 'B' => .key (plain .down)
    | 'H' => .key (plain .home)
    | 'F' => .key (plain .end)
    | 'P' | 'Q' | 'R' | 'S' => .key (plain .other)
    | _ => .bad

/-- A key that does not start with an escape. -/
def readPlain (bytes : List Nat) : Reading :=
  match bytes with
  | [] => .more
  | b :: _ =>
    if b = 0x0D then .key (plain .enter)
    else if b = 0x09 then .key (plain .tab)
    else if b = 0x7F then .key (plain .backspace)
    else if b = 0 then .key (control ' ')
    else if b ≤ 0x1A then .key (control (Char.ofNat (b - 1 + 'a'.toNat)))
    else if 0x1C ≤ b ∧ b ≤ 0x1F then .key (control (Char.ofNat (b - 0x1C + '4'.toNat)))
    else readChar bytes

/-- What the bytes of one sequence amount to; `available` tells that more bytes have arrived. -/
def read (available : Bool) (bytes : List Nat) : Reading :=
  match bytes with
  | [0x1B] => if available then .more else .key (plain .other)
  | 0x1B :: 0x4F :: rest => readLetter rest
  | 0x1B :: 0x5B :: rest => readBracket rest
  | 0x1B :: 0x1B :: _ => .key (plain .other)
  | 0x1B :: rest => (readPlain rest).withAlt
  | _ => readPlain bytes

/-- The keys of a list of bytes, where `held` holds the bytes of the current sequence. -/
def decodeFrom (held : List Nat) : List Nat → List Key
  | [] => []
  | b :: rest =>
    let held := held ++ [b]
    match read (!rest.isEmpty) held with
    | .more => decodeFrom held rest
    | .key k => k :: decodeFrom [] rest
    | .report | .bad => decodeFrom [] rest

/-- The keys that a text sends when it is typed. -/
def decode (text : String) : List Key :=
  decodeFrom [] (text.toUTF8.toList.map UInt8.toNat)

end Key

end Conch
