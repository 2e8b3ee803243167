import Mathlib.Data.List.Basic
import Mathlib.Tactic.Common
import Conch.Text.Octets

/-!
# Texts in files

The bytes that encode a text give the text back when they are decoded.  Bytes below `0x80` stand
for themselves only, so that a newline among the bytes is a newline of the text.

## Main results

* `Octets.foldl_ofChar` — the bytes of a character are read as that character.
* `Octets.toText?_ofText` — **decoding undoes encoding**.
* `Octets.mem_ofText` — a byte below `0x80` is a character of the text.
-/

set_option autoImplicit false

namespace Conch.Text.Octets

/-! ## The bytes of a character -/

/-- A character whose number is a byte. -/
lemma toNat_ofNat_byte {n : Nat} (h : n < 0x100) : (Char.ofNat n).toNat = n := by
  have hvalid : n.isValidChar := .inl (by omega)
  rw [Char.ofNat, dif_pos hvalid]
  rfl

/-- The numbers that are characters: surrogates are left out. -/
lemma toNat_valid (c : Char) : c.toNat < 0xD800 ∨ 0xDFFF < c.toNat ∧ c.toNat < 0x110000 :=
  c.valid

/-- The numbers of the bytes that encode a character. -/
def bytes (n : Nat) : List Nat :=
  if n < 0x80 then [n]
  else if n < 0x800 then [0xC0 + n / 0x40, 0x80 + n % 0x40]
  else if n < 0x10000 then [0xE0 + n / 0x1000, 0x80 + n / 0x40 % 0x40, 0x80 + n % 0x40]
  else [0xF0 + n / 0x40000, 0x80 + n / 0x1000 % 0x40, 0x80 + n / 0x40 % 0x40, 0x80 + n % 0x40]

/-- The bytes of a character, by their numbers. -/
lemma ofChar_eq (c : Char) : ofChar c = (bytes c.toNat).map Char.ofNat := by
  have hvalid := toNat_valid c
  have hval : c.val.toNat = c.toNat := rfl
  unfold ofChar String.utf8EncodeChar bytes
  simp only [hval]
  generalize c.toNat = n at hvalid
  -- the two scales split at the same numbers; within each range, the bits are those of the byte
  by_cases h1 : n < 0x80
  · rw [if_pos (by omega), if_pos h1, List.map_singleton, List.map_singleton,
      UInt8.toNat_ofNat', Nat.mod_eq_of_lt (by omega)]
  rw [if_neg (by omega), if_neg h1]
  by_cases h2 : n < 0x800
  · have hlead : (n / 64 % 32 + 192) % 256 = 0xC0 + n / 0x40 := by omega
    have hlast : (n % 64 + 128) % 256 = 0x80 + n % 0x40 := by omega
    rw [if_pos (by omega), if_pos h2]
    simp only [List.map_cons, List.map_nil, UInt8.toNat_ofNat', Nat.reducePow, hlead, hlast]
  rw [if_neg (by omega), if_neg h2]
  have hlast : (n % 64 + 128) % 256 = 0x80 + n % 0x40 := by omega
  have hnext : (n / 64 % 64 + 128) % 256 = 0x80 + n / 0x40 % 0x40 := by omega
  by_cases h3 : n < 0x10000
  · have hlead : (n / 4096 % 16 + 224) % 256 = 0xE0 + n / 0x1000 := by omega
    rw [if_pos (by omega), if_pos h3]
    simp only [List.map_cons, List.map_nil, UInt8.toNat_ofNat', Nat.reducePow, hlead, hnext, hlast]
  · have hlead : (n / 262144 % 8 + 240) % 256 = 0xF0 + n / 0x40000 := by omega
    have hsecond : (n / 4096 % 64 + 128) % 256 = 0x80 + n / 0x1000 % 0x40 := by omega
    rw [if_neg (by omega), if_neg h3]
    simp only [List.map_cons, List.map_nil, UInt8.toNat_ofNat', Nat.reducePow, hlead, hsecond,
      hnext, hlast]

/-- A character has bytes. -/
lemma ofChar_ne_nil (c : Char) : ofChar c ≠ [] := by
  rw [ofChar_eq, bytes]
  split_ifs <;> exact List.cons_ne_nil _ _

/-- Every number in the encoding of a character is a byte; beyond ASCII, all of them are. -/
lemma bytes_bounds {n b : Nat} (hn : n < 0x110000) (hb : b ∈ bytes n) :
    b < 0x100 ∧ (0x80 ≤ n → 0x80 ≤ b) := by
  unfold bytes at hb
  split_ifs at hb <;> simp only [List.mem_cons, List.not_mem_nil, or_false] at hb <;> omega

/-- A byte below `0x80` encodes only the character with its number. -/
lemma mem_ofChar {c d : Char} (hd : d.toNat < 0x80) : d ∈ ofChar c ↔ c = d := by
  have hvalid := toNat_valid c
  rw [ofChar_eq, List.mem_map]
  constructor
  · rintro ⟨b, hb, rfl⟩
    have hbounds := bytes_bounds (by omega) hb
    rw [toNat_ofNat_byte hbounds.1] at hd
    have hc : c.toNat < 0x80 := by omega
    rw [bytes, if_pos hc, List.mem_singleton] at hb
    rw [hb, Char.ofNat_toNat]
  · rintro rfl
    exact ⟨c.toNat, by rw [bytes, if_pos hd]; exact List.mem_singleton_self _, Char.ofNat_toNat c⟩

/-! ## Decoding a character -/

section Step

variable {text : List Char} {low high value m : Nat}

/-- A byte that goes on with a character that lacks more than this one adds six bits. -/
lemma decodeStep_next {owed : Nat} (hm : m < 0x40) (hlow : low ≤ 0x80 + m)
    (hhigh : 0x80 + m ≤ high) :
    decodeStep (text, some ⟨owed + 2, low, high, value⟩) (Char.ofNat (0x80 + m)) =
      (text, some ⟨owed + 1, 0x80, 0xBF, value * 0x40 + m⟩) := by
  rw [decodeStep, toNat_ofNat_byte (by omega), if_pos ⟨hlow, hhigh⟩, Nat.add_sub_cancel_left]
  exact if_neg (Nat.not_succ_le_self 1 ∘ Nat.le_trans (Nat.le_add_left 2 owed))

/-- The last byte of a character adds six bits. -/
lemma decodeStep_last (hm : m < 0x40) (hlow : low ≤ 0x80 + m) (hhigh : 0x80 + m ≤ high) :
    decodeStep (text, some ⟨1, low, high, value⟩) (Char.ofNat (0x80 + m)) =
      (Char.ofNat (value * 0x40 + m) :: text, none) := by
  rw [decodeStep, toNat_ofNat_byte (by omega), if_pos ⟨hlow, hhigh⟩, Nat.add_sub_cancel_left]
  exact if_pos (Nat.le_refl 1)

/-- The first byte of a character beyond ASCII. -/
lemma decodeStep_first {g : Begun} {b : Nat} (hb : b < 0x100) (hfirst : 0x80 ≤ b)
    (hg : begin? b = some g) :
    decodeStep (text, none) (Char.ofNat b) = (text, some g) := by
  rw [decodeStep, beginWith, toNat_ofNat_byte hb, if_neg (by omega), hg]

end Step

/-- The first of two bytes. -/
lemma begin?_two {n : Nat} (hlow : 0x80 ≤ n) (hhigh : n < 0x800) :
    begin? (0xC0 + n / 0x40) = some ⟨1, 0x80, 0xBF, n / 0x40⟩ := by
  rw [begin?, if_pos (by omega), Nat.add_sub_cancel_left]

/-- The first of three bytes, whose bounds let the second one through. -/
lemma begin?_three {n : Nat} (hlow : 0x800 ≤ n) (hhigh : n < 0x10000)
    (hvalid : n < 0xD800 ∨ 0xDFFF < n) :
    ∃ low high, begin? (0xE0 + n / 0x1000) = some ⟨2, low, high, n / 0x1000⟩ ∧
      low ≤ 0x80 + n / 0x40 % 0x40 ∧ 0x80 + n / 0x40 % 0x40 ≤ high := by
  rw [begin?, if_neg (by omega)]
  by_cases hE0 : n / 0x1000 = 0
  · rw [if_pos (by omega), hE0]
    exact ⟨_, _, rfl, by omega, by omega⟩
  by_cases hED : n / 0x1000 = 0xD
  · rw [if_neg (by omega), if_pos (by omega), hED]
    exact ⟨_, _, rfl, by omega, by omega⟩
  · rw [if_neg (by omega), if_neg (by omega), if_pos (by omega), Nat.add_sub_cancel_left]
    exact ⟨_, _, rfl, by omega, by omega⟩

/-- The first of four bytes, whose bounds let the second one through. -/
lemma begin?_four {n : Nat} (hlow : 0x10000 ≤ n) (hhigh : n < 0x110000) :
    ∃ low high, begin? (0xF0 + n / 0x40000) = some ⟨3, low, high, n / 0x40000⟩ ∧
      low ≤ 0x80 + n / 0x1000 % 0x40 ∧ 0x80 + n / 0x1000 % 0x40 ≤ high := by
  rw [begin?, if_neg (by omega), if_neg (by omega), if_neg (by omega), if_neg (by omega)]
  by_cases hF0 : n / 0x40000 = 0
  · rw [if_pos (by omega), hF0]
    exact ⟨_, _, rfl, by omega, by omega⟩
  by_cases hF4 : n / 0x40000 = 4
  · rw [if_neg (by omega), if_pos (by omega), hF4]
    exact ⟨_, _, rfl, by omega, by omega⟩
  · rw [if_neg (by omega), if_neg (by omega), if_pos (by omega), Nat.add_sub_cancel_left]
    exact ⟨_, _, rfl, by omega, by omega⟩

/-- **The bytes of a character are read as that character.**

**Proof sketch.** By the number of bytes.  The first one begins a character with its own bits, and
each one behind it adds six; together these are the number of the character. -/
lemma foldl_ofChar (text : List Char) (c : Char) :
    (ofChar c).foldl decodeStep (text, none) = (c :: text, none) := by
  have hvalid := toNat_valid c
  have hc : Char.ofNat c.toNat = c := Char.ofNat_toNat c
  rw [ofChar_eq]
  generalize hn : c.toNat = n at hvalid hc
  unfold bytes
  split_ifs with h1 h2 h3 <;> simp only [List.map_cons, List.map_nil, List.foldl_cons,
    List.foldl_nil]
  · rw [hc, decodeStep, beginWith, hn, if_pos h1]
  · have hvalue : n / 0x40 * 0x40 + n % 0x40 = n := by omega
    rw [decodeStep_first (by omega) (by omega) (begin?_two (by omega) h2),
      decodeStep_last (by omega) (by omega) (by omega), hvalue, hc]
  · obtain ⟨low, high, hbegin, hlow, hhigh⟩ := begin?_three (n := n) (by omega) h3 (by omega)
    have hvalue : (n / 0x1000 * 0x40 + n / 0x40 % 0x40) * 0x40 + n % 0x40 = n := by omega
    rw [decodeStep_first (by omega) (by omega) hbegin, decodeStep_next (by omega) hlow hhigh,
      decodeStep_last (by omega) (by omega) (by omega), hvalue, hc]
  · obtain ⟨low, high, hbegin, hlow, hhigh⟩ := begin?_four (n := n) (by omega) (by omega)
    have hvalue : ((n / 0x40000 * 0x40 + n / 0x1000 % 0x40) * 0x40 + n / 0x40 % 0x40) * 0x40 +
        n % 0x40 = n := by omega
    rw [decodeStep_first (by omega) (by omega) hbegin, decodeStep_next (by omega) hlow hhigh,
      decodeStep_next (by omega) (by omega) (by omega),
      decodeStep_last (by omega) (by omega) (by omega), hvalue, hc]

/-! ## Texts -/

/-- A text is ASCII if every character is. -/
lemma isAscii_iff (text : String) : isAscii text = true ↔ ∀ c ∈ text.toList, c.toNat < 0x80 := by
  rw [isAscii, String.all_prop_eq, List.all_eq_true]
  simp only [decide_eq_true_eq]

/-- The bytes of a text are those of its characters, one after the other. -/
lemma toList_ofText (text : String) : (ofText text).toList = text.toList.flatMap ofChar := by
  rw [ofText]
  split_ifs with hascii
  · have hsingle : ∀ c ∈ text.toList, ofChar c = [c] := fun c hc => by
      rw [ofChar_eq, bytes, if_pos ((isAscii_iff text).mp hascii c hc), List.map_singleton,
        Char.ofNat_toNat]
    rw [List.flatMap_congr hsingle, List.flatMap_singleton']
  · rw [String.toList_ofList]

/-- The bytes of two texts, one behind the other. -/
lemma ofText_append (text text' : String) :
    ofText (text ++ text') = ofText text ++ ofText text' := by
  rw [← String.toList_inj, String.toList_append, toList_ofText, toList_ofText, toList_ofText,
    String.toList_append, List.flatMap_append]

/-- A byte below `0x80` is a character of the text. -/
lemma mem_ofText {text : String} {d : Char} (hd : d.toNat < 0x80) :
    d ∈ (ofText text).toList ↔ d ∈ text.toList := by
  rw [toList_ofText, List.mem_flatMap]
  constructor
  · rintro ⟨c, hc, hmem⟩
    exact (mem_ofChar hd).mp hmem ▸ hc
  · exact fun hmem => ⟨d, hmem, (mem_ofChar hd).mpr rfl⟩

/-- The last byte of a text is below `0x80` only if it is the last character. -/
lemma getLast?_of_ofText {text : String} {d : Char} (hd : d.toNat < 0x80)
    (h : (ofText text).toList.getLast? = some d) : text.toList.getLast? = some d := by
  rw [toList_ofText] at h
  obtain hnil | ⟨front, c, hconcat⟩ := text.toList.eq_nil_or_concat'
  · rw [hnil, List.flatMap_nil] at h
    cases h
  · rw [hconcat, List.flatMap_append, List.flatMap_singleton,
      List.getLast?_append_of_ne_nil _ (ofChar_ne_nil c)] at h
    rw [hconcat, List.getLast?_concat, (mem_ofChar hd).mp (List.mem_of_getLast? h)]

/-- The bytes of some characters are read as these characters. -/
lemma foldl_flatMap_ofChar (text cs : List Char) :
    (cs.flatMap ofChar).foldl decodeStep (text, none) = (cs.reverse ++ text, none) := by
  induction cs generalizing text with
  | nil => rfl
  | cons c cs ih =>
    rw [List.flatMap_cons, List.foldl_append, foldl_ofChar, ih, List.reverse_cons,
      List.append_assoc, List.singleton_append]

/-- Bytes below `0x80` are read as they are. -/
lemma foldl_ascii (text cs : List Char) (h : ∀ c ∈ cs, c.toNat < 0x80) :
    cs.foldl decodeStep (text, none) = (cs.reverse ++ text, none) := by
  induction cs generalizing text with
  | nil => rfl
  | cons c cs ih =>
    rw [List.foldl_cons, decodeStep, beginWith, if_pos (h c (List.mem_cons_self ..)),
      ih _ fun d hd => h d (List.mem_cons_of_mem c hd), List.reverse_cons, List.append_assoc,
      List.singleton_append]

/-- The bytes of a text are read as that text. -/
lemma toText_ofText (text : String) : toText (ofText text) = text := by
  have hread := foldl_flatMap_ofChar [] text.toList
  rw [← toList_ofText, List.append_nil] at hread
  rw [toText]
  split_ifs with hascii
  · -- bytes that are all ASCII are read in two ways, and both are right
    rw [foldl_ascii [] _ ((isAscii_iff _).mp hascii), List.append_nil, Prod.mk.injEq,
      List.reverse_inj] at hread
    exact String.toList_inj.mp hread.1
  · simp only [hread, List.reverse_reverse, String.ofList_toList]

/-- **Decoding undoes encoding.** -/
lemma toText?_ofText (text : String) : toText? (ofText text) = some text := by
  simp only [toText?, toText_ofText, if_true]

end Conch.Text.Octets
