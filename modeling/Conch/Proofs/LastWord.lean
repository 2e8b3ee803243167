import Mathlib.Data.List.Induction
import Conch.LineBuffer

/-!
# The word in front of the cursor

The word that is being typed reaches from the last blank in front of the cursor to the cursor.  Its
start is found by a byte offset, one byte behind the place where the blank starts.  This is the
place behind the blank if the blank takes one byte, and no place of the text if it takes more: then
there is no word.

## Main definitions

* `LineBuffer.HasWord` — a word ends at the cursor and starts at a position.

## Main results

* `LineBuffer.currentWord?_of_blank` — what is found behind a blank.
* `LineBuffer.hasWord_of_currentWord?` — what is found is the word in front of the cursor.
* `LineBuffer.currentWord?_eq_none_iff` — when there is no word.
* `LineBuffer.HasWord.replaceWord?` — replacing a word that is in front of the cursor.
-/

set_option autoImplicit false

namespace Conch

open Text

namespace LineBuffer

/-! ## The last blank -/

/-- A text has no blank, or a last one. -/
lemma blank_cases (cs : List Char) :
    (∀ c ∈ cs, isBlank c = false) ∨
      ∃ front blank word, cs = front ++ blank :: word ∧ isBlank blank = true ∧
        ∀ c ∈ word, isBlank c = false := by
  induction cs using List.reverseRecOn with
  | nil => exact .inl nofun
  | append_singleton cs c ih =>
    cases hc : isBlank c with
    | true => exact .inr ⟨cs, c, [], rfl, hc, nofun⟩
    | false =>
      obtain hnone | ⟨front, blank, word, rfl, hblank, hword⟩ := ih
      · exact .inl (by simpa [or_imp, forall_and, hc] using hnone)
      · refine .inr ⟨front, blank, word ++ [c], by simp, hblank, ?_⟩
        simpa [or_imp, forall_and, hc] using hword

/-- Where there is no blank, none is found. -/
lemma lastBlank?_eq_none {cs : List Char} (h : ∀ c ∈ cs, isBlank c = false) :
    lastBlank? cs = none := by
  induction cs with
  | nil => rfl
  | cons c cs ih =>
    rw [lastBlank?, ih fun d hd => h d (List.mem_cons_of_mem c hd)]
    simp [h c List.mem_cons_self]

/-- The last blank is found where it starts. -/
lemma lastBlank?_append (front : List Char) {blank : Char} {word : List Char}
    (hblank : isBlank blank = true) (hword : ∀ c ∈ word, isBlank c = false) :
    lastBlank? (front ++ blank :: word) = some (byteSize front) := by
  induction front with
  | nil => simp [lastBlank?, lastBlank?_eq_none hword, hblank]
  | cons c front ih => rw [List.cons_append, lastBlank?, ih, byteSize_cons]

/-! ## The word -/

/-- The word ends at the cursor, or at the end of the line if the cursor is behind it, has no
blanks, and starts at a position, which is the first one or behind a blank. -/
structure HasWord (b : LineBuffer) (start : Nat) (word : String) : Prop where
  split : b.chars.take start ++ word.toList = b.chars.take b.cursor
  unbroken : ∀ c ∈ word.toList, isBlank c = false
  starts : start = 0 ∨ ∃ c, b.chars[start - 1]? = some c ∧ isBlank c = true

variable {b : LineBuffer}

/-- Without a blank in front of the cursor the word is all that is there. -/
lemma currentWord?_of_unbroken (h : ∀ c ∈ b.chars.take b.cursor, isBlank c = false) :
    b.currentWord? = some (0, String.ofList (b.chars.take b.cursor)) := by
  rw [currentWord?, cut?_byteAt, Option.bind_eq_bind, Option.bind_some]
  simp [lastBlank?_eq_none h]

/-- Behind a blank a word is found if the blank takes one byte. -/
lemma currentWord?_of_blank {front word : List Char} {blank : Char}
    (h : b.chars.take b.cursor = front ++ blank :: word) (hblank : isBlank blank = true)
    (hword : ∀ c ∈ word, isBlank c = false) :
    b.currentWord? =
      if blank.utf8Size = 1 then some (front.length + 1, String.ofList word) else none := by
  have hfound : lastBlank? (front ++ blank :: word) = some (byteSize front) :=
    lastBlank?_append front hblank hword
  have hcut : cut? (front ++ blank :: word) (byteSize front + 1) =
      if blank.utf8Size = 1 then some (front ++ [blank], word) else none := by
    have hpos := blank.utf8Size_pos
    rw [cut?_append_add, cut?_cons blank word Nat.one_ne_zero]
    by_cases hsize : blank.utf8Size = 1
    · simp [hsize]
    · rw [if_neg (by omega), if_neg hsize]
      rfl
  rw [currentWord?, cut?_byteAt, Option.bind_eq_bind, Option.bind_some, h]
  simp only [hfound, hcut]
  split_ifs <;> simp

/-- **What is found is the word in front of the cursor.** -/
lemma hasWord_of_currentWord? {start : Nat} {word : String}
    (h : b.currentWord? = some (start, word)) : b.HasWord start word := by
  obtain hnone | ⟨front, blank, tail, hline, hblank, htail⟩ := blank_cases (b.chars.take b.cursor)
  · rw [currentWord?_of_unbroken hnone] at h
    obtain ⟨rfl, rfl⟩ : 0 = start ∧ String.ofList (b.chars.take b.cursor) = word := by simpa using h
    exact ⟨by simp, by simpa using hnone, .inl rfl⟩
  · rw [currentWord?_of_blank hline hblank htail] at h
    split_ifs at h
    obtain ⟨rfl, rfl⟩ : front.length + 1 = start ∧ String.ofList tail = word := by simpa using h
    have hchars : b.chars = (front ++ [blank]) ++ (tail ++ b.chars.drop b.cursor) := by
      conv_lhs => rw [← List.take_append_drop b.cursor b.chars, hline]
      simp
    refine ⟨?_, by simpa using htail, .inr ⟨blank, ?_, hblank⟩⟩
    · rw [hline, hchars, List.take_left' (by simp), String.toList_ofList, List.append_assoc]
      rfl
    · rw [hchars]
      simp

/-- There is no word exactly if the last blank in front of the cursor takes more than a byte. -/
lemma currentWord?_eq_none_iff :
    b.currentWord? = none ↔
      ∃ front blank word, b.chars.take b.cursor = front ++ blank :: word ∧ isBlank blank = true ∧
        (∀ c ∈ word, isBlank c = false) ∧ 1 < blank.utf8Size := by
  constructor
  · intro h
    obtain hnone | ⟨front, blank, word, hline, hblank, hword⟩ :=
      blank_cases (b.chars.take b.cursor)
    · rw [currentWord?_of_unbroken hnone] at h
      cases h
    · have hpos := blank.utf8Size_pos
      rw [currentWord?_of_blank hline hblank hword] at h
      split_ifs at h
      exact ⟨front, blank, word, hline, hblank, hword, by omega⟩
  · rintro ⟨front, blank, word, hline, hblank, hword, hsize⟩
    rw [currentWord?_of_blank hline hblank hword, if_neg (by omega)]

namespace HasWord

variable {start : Nat} {word : String} (h : b.HasWord start word)
include h

/-- A word starts inside the line. -/
lemma start_le : start ≤ b.chars.length := by
  obtain rfl | ⟨c, hc, -⟩ := h.starts
  · exact Nat.zero_le _
  · have hlt := (List.getElem?_eq_some_iff.mp hc).1
    omega

/-- Replacing the word. -/
lemma replaceWord? (replacement : String) :
    b.replaceWord? start replacement =
      some ⟨b.chars.take start ++ replacement.toList ++ b.chars.drop b.cursor,
        start + replacement.toList.length⟩ := by
  have hrange := replaceRange?_append (b.chars.take start) word.toList (b.chars.drop b.cursor)
    replacement.toList
  rw [h.split, List.take_append_drop] at hrange
  rw [LineBuffer.replaceWord?, byteAt, byteAt, hrange]
  rfl

end HasWord

end LineBuffer

end Conch
