/-!
# Byte offsets

Places in a text are counted in bytes of its encoding.  An offset is a place of the text only if
it lies between two characters; everything else has no text in front of it and none behind it.

## Main definitions

* `Conch.Text.byteSize` — how many bytes a text takes.
* `Conch.Text.cut?` — the text in front of an offset and the text behind it.
* `Conch.Text.remove?`, `Conch.Text.replaceRange?` — edits at offsets.
-/

set_option autoImplicit false

namespace Conch.Text

/-- How many bytes a text takes. -/
def byteSize : List Char → Nat
  | [] => 0
  | c :: cs => c.utf8Size + byteSize cs

/-- The text in front of a byte offset and the text behind it; nothing if the offset lies inside a
character or behind the end. -/
def cut? : List Char → Nat → Option (List Char × List Char)
  | cs, 0 => some ([], cs)
  | [], _ + 1 => none
  | c :: cs, n + 1 =>
    if c.utf8Size ≤ n + 1 then
      (cut? cs (n + 1 - c.utf8Size)).map fun (front, back) => (c :: front, back)
    else none

/-- The text without the character at an offset; there must be one. -/
def remove? (cs : List Char) (offset : Nat) : Option (List Char) :=
  match cut? cs offset with
  | some (front, _ :: back) => some (front ++ back)
  | _ => none

/-- The text with what stands between two offsets replaced; the first must not come behind the
second. -/
def replaceRange? (cs : List Char) (first last : Nat) (new : List Char) : Option (List Char) := do
  let (front, _) ← cut? cs first
  let (_, back) ← cut? cs last
  if first ≤ last then some (front ++ new ++ back) else none

/-! ## Sizes -/

@[simp] theorem byteSize_nil : byteSize [] = 0 := rfl

@[simp] theorem byteSize_cons (c : Char) (cs : List Char) :
    byteSize (c :: cs) = c.utf8Size + byteSize cs := rfl

@[simp] theorem byteSize_append (front back : List Char) :
    byteSize (front ++ back) = byteSize front + byteSize back := by
  induction front with
  | nil => simp
  | cons c cs ih => simp [ih, Nat.add_assoc]

/-! ## Places -/

@[simp] theorem cut?_zero (cs : List Char) : cut? cs 0 = some ([], cs) := by
  cases cs <;> rfl

/-- What a cut at an offset behind the first character gives. -/
theorem cut?_cons (c : Char) (cs : List Char) {n : Nat} (h : n ≠ 0) :
    cut? (c :: cs) n =
      if c.utf8Size ≤ n then
        (cut? cs (n - c.utf8Size)).map fun (front, back) => (c :: front, back)
      else none := by
  cases n with
  | zero => exact absurd rfl h
  | succ n => rfl

/-- A cut behind a first part cuts the rest. -/
theorem cut?_append_add (front back : List Char) (n : Nat) :
    cut? (front ++ back) (byteSize front + n) =
      (cut? back n).map fun (behind, rest) => (front ++ behind, rest) := by
  induction front with
  | nil => simp
  | cons c cs ih =>
    have hpos := c.utf8Size_pos
    have hsize : byteSize (c :: cs) + n - c.utf8Size = byteSize cs + n := by
      rw [byteSize_cons]
      omega
    rw [List.cons_append, cut?_cons c _ (by rw [byteSize_cons]; omega),
      if_pos (by rw [byteSize_cons]; omega), hsize, ih, Option.map_map]
    rfl

/-- The end of any first part is a place of a text. -/
@[simp] theorem cut?_append (front back : List Char) :
    cut? (front ++ back) (byteSize front) = some (front, back) := by
  simpa using cut?_append_add front back 0

/-- Removing the character behind a first part. -/
theorem remove?_append (front back : List Char) (c : Char) :
    remove? (front ++ c :: back) (byteSize front) = some (front ++ back) := by
  rw [remove?, cut?_append]

/-- Replacing what stands between two parts. -/
theorem replaceRange?_append (front middle back new : List Char) :
    replaceRange? (front ++ middle ++ back) (byteSize front) (byteSize (front ++ middle)) new =
      some (front ++ new ++ back) := by
  have hfirst : cut? (front ++ middle ++ back) (byteSize front) = some (front, middle ++ back) := by
    rw [List.append_assoc, cut?_append]
  have hlast : cut? (front ++ middle ++ back) (byteSize (front ++ middle)) =
      some (front ++ middle, back) := cut?_append ..
  have hle : byteSize front ≤ byteSize (front ++ middle) := by
    rw [byteSize_append]
    omega
  simp only [replaceRange?, hfirst, hlast, Option.bind_eq_bind, Option.bind_some, if_pos hle]

end Conch.Text
