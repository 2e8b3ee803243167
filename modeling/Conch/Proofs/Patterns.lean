import Mathlib.Data.List.Infix
import Conch.Pattern

/-!
# What a pattern matches

A pattern is matched from left to right; a `*` tries the places from which the rest may go on, and
gives up early where the rest has run out of text.  This module says what matching means without
trying anything, and proves that giving up early loses no match: once the rest has run out of text
from one place, it does so from every later place.  It also says how a pattern is read in which
some text stands for itself.

## Main definitions

* `Pattern.Matches` — the items match a text: each item but `*` takes one character.
* `Pattern.literalItem` — how a character that stands for itself is read.

## Main results

* `Pattern.matchItems_eq_matched_iff` — **the search finds a match exactly if there is one.**
* `Pattern.items?_escape` — a text that stands for itself is read character by character.
* `Pattern.exists_not_char` — a wildcard is not read as a character.
* `Pattern.matches_literalItem_iff` — a text that stands for itself matches itself only.
-/

set_option autoImplicit false

namespace Conch.Pattern

/-! ## Matching -/

/-- The items match a text.  `start` tells that the text starts a name, whose dot `*` does not
take. -/
inductive Matches : Bool → List Item → List Char → Prop
  | nil {start : Bool} : Matches start [] []
  /-- An item takes a character. -/
  | one {start : Bool} {item : Item} {rest : List Item} {c : Char} {cs : List Char}
      (h : item.accepts start c = true) (hrest : Matches false rest cs) :
      Matches start (item :: rest) (c :: cs)
  /-- A `*` takes no character. -/
  | skip {start : Bool} {rest : List Item} {cs : List Char} (h : Matches start rest cs) :
      Matches start (.sequence :: rest) cs
  /-- A `*` takes a character, and maybe more. -/
  | more {start : Bool} {rest : List Item} {c : Char} {cs : List Char}
      (h : (start && c == '.') = false) (hrest : Matches false (.sequence :: rest) cs) :
      Matches start (.sequence :: rest) (c :: cs)

variable {start : Bool} {item : Item} {rest items : List Item} {c : Char} {cs : List Char}

lemma char_ne_sequence (c : Char) : Item.char c ≠ .sequence := nofun

/-- Without items only the empty text is matched. -/
lemma matches_nil_iff : Matches start [] cs ↔ cs = [] := by
  constructor
  · intro h
    cases h
    rfl
  · rintro rfl
    exact .nil

/-- An item that is no `*` needs a character. -/
lemma not_matches_cons_nil (h : item ≠ .sequence) : ¬ Matches start (item :: rest) [] := by
  rintro (_ | _ | _ | _)
  exact h rfl

/-- An item that is no `*` takes the first character. -/
lemma matches_cons_iff (h : item ≠ .sequence) :
    Matches start (item :: rest) (c :: cs) ↔
      item.accepts start c = true ∧ Matches false rest cs := by
  constructor
  · rintro (_ | ⟨haccepts, hrest⟩ | _ | _)
    · exact ⟨haccepts, hrest⟩
    · exact absurd rfl h
    · exact absurd rfl h
  · rintro ⟨haccepts, hrest⟩
    exact .one haccepts hrest

/-- A `*` takes nothing from the empty text. -/
lemma matches_sequence_nil_iff :
    Matches start (.sequence :: rest) [] ↔ Matches start rest [] := by
  constructor
  · rintro (_ | _ | h | _)
    exact h
  · exact .skip

/-- A `*` takes nothing, or the first character and maybe more. -/
lemma matches_sequence_cons_iff :
    Matches start (.sequence :: rest) (c :: cs) ↔
      Matches start rest (c :: cs) ∨
        (start && c == '.') = false ∧ Matches false (.sequence :: rest) cs := by
  constructor
  · rintro (_ | ⟨haccepts, _⟩ | h | ⟨h, hrest⟩)
    · cases haccepts
    · exact .inl h
    · exact .inr ⟨h, hrest⟩
  · rintro (h | ⟨h, hrest⟩)
    · exact .skip h
    · exact .more h hrest

/-- Behind the first character, what a `*` leaves to the rest is an end of the text. -/
lemma exists_suffix_of_matches_sequence (h : Matches false (.sequence :: rest) cs) :
    ∃ front back, cs = front ++ back ∧ Matches false rest back := by
  induction cs with
  | nil => exact ⟨[], [], rfl, matches_sequence_nil_iff.mp h⟩
  | cons c cs ih =>
    obtain h | ⟨-, h⟩ := matches_sequence_cons_iff.mp h
    · exact ⟨[], c :: cs, rfl, h⟩
    · obtain ⟨front, back, rfl, hback⟩ := ih h
      exact ⟨c :: front, back, rfl, hback⟩

/-! ## The search -/

/-- A search is right about a text: it finds a match exactly if there is one, and once it has run
out of text there is no match in any later part of the text either. -/
structure RightAbout (found : Fit) (start : Bool) (items : List Item) (cs : List Char) : Prop where
  matched : found = .matched ↔ Matches start items cs
  exhausted : found = .exhausted → ∀ c back, c :: back <:+ cs → ¬ Matches false items back

/-- Part of a text that comes behind its first character. -/
lemma exists_cons_suffix {front back : List Char} (h : c :: (front ++ back) <:+ cs) :
    ∃ d, d :: back <:+ cs := by
  obtain ⟨first, rfl⟩ := h
  cases front using List.reverseRecOn with
  | nil => exact ⟨c, first, rfl⟩
  | append_singleton front d => exact ⟨d, first ++ c :: front, by simp⟩

/-- An item that is no `*` finds no character in the empty text. -/
lemma matchItems_cons_nil (h : item ≠ .sequence) :
    matchItems (item :: rest) start [] = .exhausted := by
  rw [matchItems]
  exact h

/-- An item that is no `*` looks at the first character. -/
lemma matchItems_cons_cons (h : item ≠ .sequence) :
    matchItems (item :: rest) start (c :: cs) =
      if item.accepts start c then matchItems rest (c == '/') cs else .mismatch := by
  rw [matchItems]
  exact h

/-- Where the rest of a pattern runs out of text, it matches no later part behind any text. -/
lemma RightAbout.not_matches_sequence {start : Bool} {rest : List Item} {cs : List Char}
    (h : RightAbout .exhausted start rest cs) {d : Char} {back : List Char}
    (hback : d :: back <:+ cs) : ¬ Matches false (.sequence :: rest) back := by
  intro hmatches
  obtain ⟨front, back', rfl, hback'⟩ := exists_suffix_of_matches_sequence hmatches
  obtain ⟨d', hd'⟩ := exists_cons_suffix hback
  exact h.exhausted rfl d' back' hd' hback'

/-- The search behind a `*` is right if the search for the rest is. -/
lemma rightAbout_matchSequence (hslash : '/' ∉ cs)
    (hrest : ∀ start cs, '/' ∉ cs →
      RightAbout (matchItems rest start cs) start rest cs) :
    RightAbout (matchSequence (matchItems rest) start cs) start (.sequence :: rest) cs := by
  induction cs generalizing start with
  | nil =>
    refine ⟨?_, fun _ c back h => absurd (List.suffix_nil.mp h) (List.cons_ne_nil c back)⟩
    rw [matchSequence, matches_sequence_nil_iff]
    exact (hrest start [] hslash).matched
  | cons c cs ih =>
    obtain ⟨hc, hcs⟩ := not_or.mp (List.mem_cons.not.mp hslash)
    have hstart : (c == '/') = false := beq_eq_false_iff_ne.mpr (Ne.symm hc)
    have hhere := hrest start (c :: cs) hslash
    have hlater := @ih false hcs
    rw [matchSequence]
    cases hfit : matchItems rest start (c :: cs) with
    | matched =>
      exact ⟨⟨fun _ => .skip (hhere.matched.mp hfit), fun _ => rfl⟩, nofun⟩
    | exhausted =>
      -- the rest matches neither here nor in any later part
      rw [hfit] at hhere
      refine ⟨⟨nofun, fun h => ?_⟩, fun _ d back hback => hhere.not_matches_sequence hback⟩
      obtain h | ⟨-, h⟩ := matches_sequence_cons_iff.mp h
      · cases hhere.matched.mpr h
      · exact (hhere.not_matches_sequence (List.suffix_refl _) h).elim
    | mismatch =>
      have hnot : ¬ Matches start rest (c :: cs) := fun h => by
        cases hfit.symm.trans (hhere.matched.mpr h)
      dsimp only
      split_ifs with hdot
      · refine ⟨⟨nofun, fun h => ?_⟩, nofun⟩
        obtain h | ⟨hdot', -⟩ := matches_sequence_cons_iff.mp h
        · exact (hnot h).elim
        · cases hdot.symm.trans hdot'
      · rw [hstart]
        have hdot' : (start && c == '.') = false := by simpa using hdot
        refine ⟨?_, fun hout d back hback => ?_⟩
        · rw [hlater.matched, matches_sequence_cons_iff]
          simp [hnot, hdot']
        · obtain heq | hback := List.suffix_cons_iff.mp hback
          · obtain ⟨-, rfl⟩ := List.cons.inj heq
            intro h
            cases hout.symm.trans (hlater.matched.mpr h)
          · exact hlater.exhausted hout d back hback

/-- **The search is right** about every text without a slash.

**Proof sketch.** Induction on the items.  The rest of the items may run out of text only where no
match is left: an item that takes one character passes on what it knows of the rest, one character
later; a `*` gives up at the first place where the rest runs out of text, and the rest matches
neither there nor at a later place, nor at an earlier one, which has been tried. -/
lemma rightAbout_matchItems (items : List Item) (start : Bool) (cs : List Char)
    (hslash : '/' ∉ cs) : RightAbout (matchItems items start cs) start items cs := by
  induction items generalizing start cs with
  | nil =>
    cases cs with
    | nil => exact ⟨⟨fun _ => .nil, fun _ => rfl⟩, nofun⟩
    | cons c cs => exact ⟨⟨nofun, fun h => (List.cons_ne_nil c cs (matches_nil_iff.mp h)).elim⟩, nofun⟩
  | cons item rest ih =>
    by_cases hitem : item = .sequence
    · subst hitem
      rw [matchItems]
      exact rightAbout_matchSequence hslash ih
    cases cs with
    | nil =>
      rw [matchItems_cons_nil hitem]
      exact ⟨⟨nofun, fun h => (not_matches_cons_nil hitem h).elim⟩,
        fun _ c back h => absurd (List.suffix_nil.mp h) (List.cons_ne_nil c back)⟩
    | cons c cs =>
      obtain ⟨hc, hcs⟩ := not_or.mp (List.mem_cons.not.mp hslash)
      have hstart : (c == '/') = false := beq_eq_false_iff_ne.mpr (Ne.symm hc)
      have hrest := ih false cs hcs
      rw [matchItems_cons_cons hitem, hstart]
      split_ifs with haccepts
      · refine ⟨by rw [hrest.matched, matches_cons_iff hitem, and_iff_right haccepts], ?_⟩
        rintro hout d (_ | ⟨e, back⟩) hback h
        · exact not_matches_cons_nil hitem h
        · -- the rest goes on behind the first character of what is left
          have hbehind : e :: back <:+ cs := by
            obtain heq | hback := List.suffix_cons_iff.mp hback
            · exact (List.cons.inj heq).2 ▸ List.suffix_refl _
            · exact (List.suffix_cons d (e :: back)).trans hback
          exact hrest.exhausted hout e back hbehind ((matches_cons_iff hitem).mp h).2
      · refine ⟨⟨nofun, fun h => ?_⟩, nofun⟩
        exact absurd ((matches_cons_iff hitem).mp h).1 haccepts

/-- **The search finds a match exactly if there is one.** -/
lemma matchItems_eq_matched_iff (hslash : '/' ∉ cs) :
    matchItems items start cs = .matched ↔ Matches start items cs :=
  (rightAbout_matchItems items start cs hslash).matched

/-- The pattern of a component matches a name if its items do. -/
lemma matches_items_iff {name : String} (hslash : '/' ∉ name.toList) :
    (Component.items items).matches name = true ↔ Matches true items name.toList := by
  rw [Component.matches, beq_iff_eq, matchItems_eq_matched_iff hslash]

/-! ## Text that stands for itself -/

/-- How a character that stands for itself is read. -/
def literalItem (c : Char) : Item :=
  if c ∈ ['?', '*', '[', ']'] then .bracket false [.single c] else .char c

/-- A character that stands for itself is no `*`. -/
lemma literalItem_ne_sequence (c : Char) : literalItem c ≠ .sequence := by
  rw [literalItem]
  split_ifs <;> exact nofun

/-- A character that stands for itself takes itself, also at the start of a name. -/
lemma accepts_literalItem (start : Bool) (c d : Char) :
    (literalItem c).accepts start d = (d == c) := by
  rw [literalItem]
  split_ifs with hc
  · by_cases hd : d = c
    · subst hd
      have hdot : (d == '.') = false := by
        rw [beq_eq_false_iff_ne]
        rintro rfl
        exact absurd hc (by decide)
      simp [Item.accepts, Range.contains, hdot]
    · simp [Item.accepts, Range.contains, hd]
  · rfl

/-- Items that take one character each match a text, and the rest matches what is behind it. -/
lemma matches_map_append {f : Char → Item} (hne : ∀ c, f c ≠ .sequence)
    (hf : ∀ start c d, (f c).accepts start d = (d == c)) (text : List Char) :
    Matches start (text.map f ++ rest) cs ↔
      ∃ back, cs = text ++ back ∧ Matches (start && text.isEmpty) rest back := by
  induction text generalizing start cs with
  | nil => simp
  | cons c text ih =>
    rw [List.map_cons, List.cons_append]
    cases cs with
    | nil => exact ⟨fun h => (not_matches_cons_nil (hne c) h).elim, fun ⟨_, h, _⟩ => nomatch h⟩
    | cons d cs =>
      rw [matches_cons_iff (hne c), hf, beq_iff_eq, ih]
      simp only [List.cons_append, List.cons.injEq, List.isEmpty_cons, Bool.and_false,
        Bool.false_and]
      constructor
      · rintro ⟨rfl, back, rfl, h⟩
        exact ⟨back, ⟨rfl, rfl⟩, h⟩
      · rintro ⟨back, ⟨rfl, rfl⟩, h⟩
        exact ⟨rfl, back, rfl, h⟩

/-! ## Reading -/

/-- A character without a meaning of its own is read as itself. -/
lemma items?_char (hc : c ∉ ['[', '*', '?']) :
    items? none (c :: cs) = (items? none cs).map (.char c :: ·) := by
  simp only [List.mem_cons, List.not_mem_nil, or_false, not_or] at hc
  rw [items?]
  all_goals simp_all

/-- A special character is read as itself behind an open bracket that holds nothing else. -/
lemma items?_bracketed (hc : c ∈ ['?', '*', '[', ']']) :
    items? none ('[' :: c :: ']' :: cs) =
      (items? none cs).map (.bracket false [.single c] :: ·) := by
  simp only [List.mem_cons, List.not_mem_nil, or_false] at hc
  obtain rfl | rfl | rfl | rfl := hc <;> simp [items?, ranges]

/-- **A text that stands for itself is read character by character.** -/
lemma items?_escape (text cs : List Char) :
    items? none (escape text ++ cs) = (items? none cs).map (text.map literalItem ++ ·) := by
  induction text with
  | nil => simp [escape]
  | cons c text ih =>
    have hcons : escape (c :: text) =
        (if c ∈ ['?', '*', '[', ']'] then ['[', c, ']'] else [c]) ++ escape text := rfl
    rw [hcons, List.map_cons, literalItem]
    split_ifs with hc
    · simp only [List.cons_append, List.nil_append]
      rw [items?_bracketed hc, ih, Option.map_map]
      rfl
    · have hplain : c ∉ ['[', '*', '?'] := by
        simp only [List.mem_cons, List.not_mem_nil, or_false, not_or] at hc ⊢
        exact ⟨hc.2.2.1, hc.2.1, hc.1⟩
      simp only [List.cons_append, List.nil_append]
      rw [items?_char hplain, ih, Option.map_map]
      rfl

/-- What is read behind an open bracket starts with the bracket. -/
lemma items?_open {read : Bool × List Char} (h : items? (some read) cs = some items) :
    ∃ negated list rest, items = .bracket negated list :: rest := by
  induction cs generalizing read with
  | nil => simp [items?] at h
  | cons c cs ih =>
    obtain ⟨negated, read⟩ := read
    cases read with
    | nil => exact ih h
    | cons d read =>
      by_cases hc : c = ']'
      · subst hc
        rw [items?, Option.map_eq_some_iff] at h
        · obtain ⟨rest, -, rfl⟩ := h
          exact ⟨_, _, rest, rfl⟩
        · exact List.cons_ne_nil d read
      · rw [items?] at h
        · exact ih h
        · exact List.cons_ne_nil d read
        · exact hc

/-- How the first item of a pattern is read. -/
inductive FirstItem : Char → List Char → Item → List Item → Prop
  | char {c : Char} {cs : List Char} {rest : List Item} (hc : c ∉ ['[', '*', '?'])
      (h : items? none cs = some rest) : FirstItem c cs (.char c) rest
  | any {cs : List Char} {rest : List Item} (h : items? none cs = some rest) :
      FirstItem '?' cs .any rest
  /-- No second `*` stands behind a `*`. -/
  | sequence {cs : List Char} {rest : List Item} (hcs : ∀ back, cs ≠ '*' :: back)
      (h : items? none cs = some rest) : FirstItem '*' cs .sequence rest
  | bracket {cs : List Char} (negated : Bool) (list : List Range) (rest : List Item) :
      FirstItem '[' cs (.bracket negated list) rest

/-- A pattern that is not empty starts with an item. -/
lemma firstItem_of_items? (h : items? none (c :: cs) = some items) :
    ∃ item rest, items = item :: rest ∧ FirstItem c cs item rest := by
  by_cases hc : c ∈ ['[', '*', '?']
  · simp only [List.mem_cons, List.not_mem_nil, or_false] at hc
    obtain rfl | rfl | rfl := hc
    · have hopen : ∃ read back, items? (some read) back = some items := by
        cases cs with
        | nil => exact ⟨_, _, h⟩
        | cons d cs =>
          by_cases hd : d = '!'
          · subst hd
            exact ⟨_, _, h⟩
          · refine ⟨(false, []), d :: cs, ?_⟩
            rwa [items?] at h
            rintro cs' ⟨⟩
            exact hd rfl
      obtain ⟨read, back, hopen⟩ := hopen
      obtain ⟨negated, list, rest, rfl⟩ := items?_open hopen
      exact ⟨_, rest, rfl, .bracket negated list rest⟩
    · have hcs : ∀ back, cs ≠ '*' :: back := by
        rintro back rfl
        simp [items?] at h
      rw [items?, Option.map_eq_some_iff] at h
      · obtain ⟨rest, hrest, rfl⟩ := h
        exact ⟨_, rest, rfl, .sequence hcs hrest⟩
      · exact hcs
    · rw [items?, Option.map_eq_some_iff] at h
      obtain ⟨rest, hrest, rfl⟩ := h
      exact ⟨_, rest, rfl, .any hrest⟩
  · rw [items?_char hc, Option.map_eq_some_iff] at h
    obtain ⟨rest, hrest, rfl⟩ := h
    exact ⟨_, rest, rfl, .char hc hrest⟩

/-- **A wildcard is not read as a character.** -/
lemma exists_not_char (h : items? none cs = some items) (hc : c ∈ cs)
    (hwild : c ∈ ['[', '*', '?']) : ∃ item ∈ items, ∀ d, item ≠ .char d := by
  induction cs generalizing items with
  | nil => cases hc
  | cons d cs ih =>
    obtain ⟨item, rest, rfl, hfirst⟩ := firstItem_of_items? h
    cases hfirst with
    | char hd hrest =>
      obtain rfl | hc := List.mem_cons.mp hc
      · exact absurd hwild hd
      · obtain ⟨item, hitem, hne⟩ := ih hrest hc
        exact ⟨item, List.mem_cons_of_mem _ hitem, hne⟩
    | any => exact ⟨_, List.mem_cons_self, nofun⟩
    | sequence => exact ⟨_, List.mem_cons_self, nofun⟩
    | bracket => exact ⟨_, List.mem_cons_self, nofun⟩

/-- A pattern starts with a dot exactly if it is read so. -/
lemma startsWithDot_iff (h : items? none cs = some items) :
    (Component.items items).startsWithDot = true ↔
      ∃ back rest, cs = '.' :: back ∧ items = .char '.' :: rest ∧ items? none back = some rest := by
  constructor
  · intro hdotted
    cases cs with
    | nil =>
      obtain rfl := Option.some.inj h
      cases hdotted
    | cons c cs =>
      obtain ⟨item, rest, rfl, hfirst⟩ := firstItem_of_items? h
      cases hfirst with
      | char hc hrest =>
        obtain rfl : c = '.' := by
          unfold Component.startsWithDot at hdotted
          split at hdotted
          case h_1 heq => cases heq; rfl
          case h_2 => cases hdotted
        exact ⟨cs, rest, rfl, rfl, hrest⟩
      | any => cases hdotted
      | sequence => cases hdotted
      | bracket => cases hdotted
  · rintro ⟨back, rest, -, rfl, -⟩
    rfl

/-- Only the empty pattern and `*` match the empty text. -/
lemma of_matches_nil (h : items? none cs = some items) (hmatches : Matches start items []) :
    cs = [] ∨ cs = ['*'] := by
  induction cs generalizing items with
  | nil => exact .inl rfl
  | cons c cs ih =>
    obtain ⟨item, rest, rfl, hfirst⟩ := firstItem_of_items? h
    cases hfirst with
    | char => exact absurd hmatches (not_matches_cons_nil nofun)
    | any => exact absurd hmatches (not_matches_cons_nil nofun)
    | bracket => exact absurd hmatches (not_matches_cons_nil nofun)
    | sequence hcs hrest =>
      obtain rfl | rfl := ih hrest (matches_sequence_nil_iff.mp hmatches)
      · exact .inr rfl
      · exact absurd rfl (hcs [])

/-! ## Patterns without wildcards -/

/-- A character in front of a pattern comes in front of the text that it matches. -/
lemma literal?_char_cons (c : Char) (rest : List Item) :
    (Component.items (.char c :: rest)).literal? =
      (Component.items rest).literal?.map fun name => String.ofList (c :: name.toList) := by
  simp only [Component.literal?, List.mapM_cons]
  generalize List.mapM (m := Option) _ rest = chars
  cases chars with
  | none => rfl
  | some cs => simp

/-- Only characters are read as a text. -/
lemma literal?_eq_none (h : ∃ item ∈ items, ∀ d, item ≠ .char d) :
    (Component.items items).literal? = none := by
  induction items with
  | nil => 
    obtain ⟨_, hitem, _⟩ := h
    cases hitem
  | cons first rest ih =>
    obtain ⟨item, hitem, hne⟩ := h
    by_cases hfirst : ∃ c, first = .char c
    · obtain ⟨c, rfl⟩ := hfirst
      obtain rfl | hitem := List.mem_cons.mp hitem
      · exact absurd rfl (hne c)
      · rw [literal?_char_cons, ih ⟨item, hitem, hne⟩, Option.map_none]
    · cases first with
      | char c => exact absurd ⟨c, rfl⟩ hfirst
      | any => rfl
      | sequence => rfl
      | bracket negated list => rfl

/-- If a text that stands for itself is read as a name, this is the text. -/
lemma literal?_literalItem {part : List Char} {name : String}
    (h : (Component.items (part.map literalItem)).literal? = some name) :
    name = String.ofList part := by
  induction part generalizing name with
  | nil => exact (Option.some.inj h).symm
  | cons c part ih =>
    rw [List.map_cons, literalItem] at h
    split_ifs at h
    · cases h
    · rw [literal?_char_cons, Option.map_eq_some_iff] at h
      obtain ⟨name', hname', rfl⟩ := h
      rw [ih hname', String.toList_ofList]

/-- A text that is not read as a name has a special character. -/
lemma exists_special_of_literal? {part : List Char}
    (h : (Component.items (part.map literalItem)).literal? = none) :
    ∃ c ∈ part, c ∈ ['?', '*', '[', ']'] := by
  induction part with
  | nil => cases h
  | cons c part ih =>
    rw [List.map_cons, literalItem] at h
    split_ifs at h with hc
    · exact ⟨c, List.mem_cons_self, hc⟩
    · rw [literal?_char_cons, Option.map_eq_none_iff] at h
      obtain ⟨d, hd, hspecial⟩ := ih h
      exact ⟨d, List.mem_cons_of_mem c hd, hspecial⟩

/-- A text that stands for itself matches itself only. -/
lemma matches_literalItem_iff {part : List Char} {name : String} (hname : '/' ∉ name.toList) :
    (Component.items (part.map literalItem)).matches name = true ↔ name = String.ofList part := by
  have htext : Matches true (part.map literalItem ++ []) name.toList ↔
      ∃ back, name.toList = part ++ back ∧ Matches (true && part.isEmpty) [] back :=
    matches_map_append literalItem_ne_sequence accepts_literalItem part
  rw [List.append_nil] at htext
  rw [matches_items_iff hname, htext, ← String.toList_inj, String.toList_ofList]
  constructor
  · rintro ⟨back, hback, hnil⟩
    rw [hback, matches_nil_iff.mp hnil, List.append_nil]
  · intro heq
    exact ⟨[], by rw [heq, List.append_nil], .nil⟩

end Conch.Pattern
