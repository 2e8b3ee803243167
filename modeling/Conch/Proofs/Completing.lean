import Mathlib
import Conch.Editor
import Conch.Proofs.LastWord
import Conch.Proofs.Relative

/-!
# Completing a word only makes it longer

Completion splits the word in front of the cursor into a directory and the start of a name, looks
up names, glues them to the directory again, sorts them, and puts what they have in common in the
place of the word.  This module follows the word through all of this: whatever the file tree and the
search path are, every candidate starts with the word, and so does what is put in its place.  Two
slashes in a row are the exception, of which only one comes back.

## Main definitions

* `Completion.IsCommonPrefix` — the longest text that some words start with.
* `Editor.Replacement` — what comes in the place of a word with several candidates or with one.

## Main results

* `Completion.isPrefix_of_mem_candidates` — a candidate starts with its word.
* `Completion.isCommonPrefix_commonPrefix` — what several candidates have in common.
* `Editor.complete_extends` — **completion only makes the word longer.**
-/

set_option autoImplicit false

namespace Conch

open Text

namespace Completion

/-! ## Sorting -/

/-- Inserting a word adds this word and no other. -/
lemma mem_insertWord {word w : String} {words : List String} :
    w ∈ insertWord word words ↔ w = word ∨ w ∈ words := by
  induction words with
  | nil => simp [insertWord]
  | cons v rest ih =>
    rw [insertWord]
    split_ifs with hlt heq
    · simp
    · simp [heq]
    · simp [ih, or_left_comm]

/-- Inserting a word keeps a list strictly increasing. -/
lemma pairwise_insertWord (word : String) {words : List String} (h : words.Pairwise (· < ·)) :
    (insertWord word words).Pairwise (· < ·) := by
  induction words with
  | nil => exact List.pairwise_singleton ..
  | cons v rest ih =>
    obtain ⟨hv, hrest⟩ := List.pairwise_cons.mp h
    rw [insertWord]
    split_ifs with hlt heq
    · refine List.pairwise_cons.mpr ⟨fun w hw => ?_, h⟩
      obtain rfl | hw := List.mem_cons.mp hw
      · exact hlt
      · exact hlt.trans (hv w hw)
    · exact h
    · refine List.pairwise_cons.mpr ⟨fun w hw => ?_, ih hrest⟩
      obtain rfl | hw := mem_insertWord.mp hw
      · exact lt_of_le_of_ne (not_lt.mp hlt) (Ne.symm heq)
      · exact hv w hw

/-- Sorting loses no word and adds none. -/
lemma mem_sortWords {w : String} {words : List String} : w ∈ sortWords words ↔ w ∈ words := by
  induction words with
  | nil => rfl
  | cons v rest ih =>
    have hcons : sortWords (v :: rest) = insertWord v (sortWords rest) := rfl
    rw [hcons, mem_insertWord, ih, List.mem_cons]

/-- Sorted words are strictly increasing. -/
lemma pairwise_sortWords (words : List String) : (sortWords words).Pairwise (· < ·) := by
  induction words with
  | nil => exact List.Pairwise.nil
  | cons v rest ih => exact pairwise_insertWord v ih

/-! ## Sources -/

/-- Entries of a directory start with what was asked for, also behind their slash. -/
lemma isPrefix_of_mem_entriesWith {t : FileTree} {dir stem entry : String}
    (h : entry ∈ entriesWith t dir stem) : stem.toList <+: entry.toList := by
  obtain ⟨name, hname, rfl⟩ := List.mem_map.mp h
  have hstem : stem.toList <+: name.toList := by
    have hshown := (List.mem_filter.mp hname).2
    rw [Bool.and_eq_true] at hshown
    exact String.startsWith_string_iff.mp hshown.1
  split_ifs
  · rw [String.toList_append]
    exact hstem.trans (List.prefix_append ..)
  · exact hstem

/-- Programs start with what was asked for. -/
lemma isPrefix_of_mem_programsWith {src : Sources} {stem program : String}
    (h : program ∈ programsWith src stem) : stem.toList <+: program.toList := by
  obtain ⟨dir, -, hprogram⟩ := List.mem_flatMap.mp h
  have hfound := (List.mem_filter.mp hprogram).2
  rw [Bool.and_eq_true] at hfound
  exact String.startsWith_string_iff.mp hfound.1

/-! ## Directories in a word -/

/-- A word with a slash is its directory, a slash unless the directory is the root, and the start
of a name. -/
lemma splitDirectory_eq_some {word dir stem : String} (h : splitDirectory word = some (dir, stem)) :
    dir = "/" ∧ word.toList = '/' :: stem.toList ∨
      word.toList = dir.toList ++ '/' :: stem.toList := by
  rw [splitDirectory, List.span_eq_takeWhile_dropWhile] at h
  have hword : word.toList = (word.toList.reverse.dropWhile (· ≠ '/')).reverse ++
      (word.toList.reverse.takeWhile (· ≠ '/')).reverse := by
    rw [← List.reverse_append, List.takeWhile_append_dropWhile, List.reverse_reverse]
  generalize word.toList.reverse.takeWhile (· ≠ '/') = name at h hword
  cases hfront : word.toList.reverse.dropWhile (· ≠ '/') with
  | nil =>
    rw [hfront] at h
    cases h
  | cons c front =>
    -- the first character that is not dropped is the last slash
    obtain rfl : c = '/' := by
      have hhead := List.head?_dropWhile_not (· ≠ '/') word.toList.reverse
      rw [hfront] at hhead
      simpa using hhead
    rw [hfront] at h hword
    cases front with
    | nil =>
      obtain ⟨rfl, rfl⟩ := Prod.mk.inj (Option.some.inj h)
      exact .inl ⟨rfl, by rw [hword, String.toList_ofList]; rfl⟩
    | cons d dir' =>
      obtain ⟨rfl, rfl⟩ := Prod.mk.inj (Option.some.inj h)
      refine .inr ?_
      rw [hword, String.toList_ofList, String.toList_ofList, List.reverse_cons,
        List.append_assoc]
      rfl

/-- A directory and the start of a name, glued together again, are the word, unless it has two
slashes in a row. -/
lemma glue_splitDirectory {word dir stem : String} (h : splitDirectory word = some (dir, stem))
    (hslash : ¬ ['/', '/'] <:+: word.toList) :
    dir.toList ++ (if dir.endsWith "/" then "" else "/").toList ++ stem.toList = word.toList := by
  obtain ⟨rfl, hword⟩ | hword := splitDirectory_eq_some h
  · have hroot : ("/" : String).endsWith "/" = true :=
      (Path.endsWith_slash_iff "/").mpr (List.suffix_refl _)
    rw [if_pos hroot, hword]
    rfl
  · have hdir : ¬ dir.endsWith "/" = true := by
      rw [Path.endsWith_slash_iff]
      rintro ⟨front, hfront⟩
      exact hslash ⟨front, stem.toList, by rw [hword, ← hfront]; simp⟩
    rw [if_neg hdir, hword]
    simp

/-! ## Candidates -/

/-- **A candidate starts with its word**, if no two slashes of the word stand in a row. -/
lemma isPrefix_of_mem_candidates {src : Sources} {word candidate : String} {first : Bool}
    (hslash : ¬ ['/', '/'] <:+: word.toList) (h : candidate ∈ candidates src word first) :
    word.toList <+: candidate.toList := by
  rw [candidates, mem_sortWords] at h
  cases hsplit : splitDirectory word with
  | some split =>
    obtain ⟨dir, stem⟩ := split
    rw [hsplit] at h
    obtain ⟨entry, hentry, rfl⟩ := List.mem_map.mp h
    obtain ⟨rest, hrest⟩ := isPrefix_of_mem_entriesWith hentry
    refine ⟨rest, ?_⟩
    rw [← glue_splitDirectory hsplit hslash, String.toList_append, String.toList_append, ← hrest]
    simp
  | none =>
    rw [hsplit] at h
    cases first with
    | true =>
      rw [if_pos rfl] at h
      obtain h | h := List.mem_append.mp h
      · exact String.startsWith_string_iff.mp (List.mem_filter.mp h).2
      · exact isPrefix_of_mem_programsWith h
    | false => exact isPrefix_of_mem_entriesWith h

/-! ## What words have in common -/

/-- The longest text that all the words start with. -/
structure IsCommonPrefix (p : List Char) (words : List String) : Prop where
  isPrefix : ∀ w ∈ words, p <+: w.toList
  longest : ∀ q, (∀ w ∈ words, q <+: w.toList) → q <+: p

/-- What two texts have in common is the longest text that both start with. -/
lemma prefix_common_iff {q as bs : List Char} :
    q <+: common as bs ↔ q <+: as ∧ q <+: bs := by
  induction as generalizing q bs with
  | nil =>
    have hnil : common [] bs = [] := by cases bs <;> rfl
    rw [hnil]
    exact ⟨fun h => ⟨h, List.prefix_nil.mp h ▸ List.nil_prefix⟩, And.left⟩
  | cons a as ih =>
    cases bs with
    | nil => exact ⟨fun h => ⟨List.prefix_nil.mp h ▸ List.nil_prefix, h⟩, And.right⟩
    | cons b bs =>
      cases q with
      | nil => simp
      | cons c q =>
        rw [common]
        split_ifs with hab
        · rw [List.cons_prefix_cons, List.cons_prefix_cons, List.cons_prefix_cons, ih, ← hab]
          tauto
        · rw [List.cons_prefix_cons, List.cons_prefix_cons]
          constructor
          · intro h
            cases List.prefix_nil.mp h
          · rintro ⟨⟨rfl, -⟩, rfl, -⟩
            exact absurd rfl hab

/-- What is left of a text when it is cut down to what it has in common with each of some words. -/
lemma prefix_foldl_common_iff {q cs : List Char} {words : List String} :
    q <+: words.foldl (fun acc w => common acc w.toList) cs ↔
      q <+: cs ∧ ∀ w ∈ words, q <+: w.toList := by
  induction words generalizing cs with
  | nil => simp
  | cons w words ih => rw [List.foldl_cons, ih, prefix_common_iff, List.forall_mem_cons, and_assoc]

/-- **What several words have in common.** -/
lemma isCommonPrefix_commonPrefix {words : List String} (h : words ≠ []) :
    IsCommonPrefix (commonPrefix words).toList words := by
  cases words with
  | nil => exact absurd rfl h
  | cons w rest =>
    have hiff : ∀ q, q <+: (commonPrefix (w :: rest)).toList ↔ ∀ v ∈ w :: rest, q <+: v.toList := by
      intro q
      rw [commonPrefix, String.toList_ofList, prefix_foldl_common_iff, List.forall_mem_cons]
    exact ⟨(hiff _).mp (List.prefix_refl _), fun q => (hiff q).mpr⟩

end Completion

namespace Editor

open Completion

/-- What comes in the place of a word: its only candidate, with a blank behind it unless it is a
directory, or else what its candidates have in common. -/
inductive Replacement (candidates : List String) : String → Prop
  | only {c : String} (h : candidates = [c]) :
    Replacement candidates (if c.endsWith "/" then c else c ++ " ")
  | common {r : String} (h : 2 ≤ candidates.length) (hr : IsCommonPrefix r.toList candidates) :
    Replacement candidates r

/-- What comes in the place of a word starts with it, if its candidates do. -/
lemma Replacement.isPrefix {candidates : List String} {r word : String}
    (h : Replacement candidates r) (hword : ∀ c ∈ candidates, word.toList <+: c.toList) :
    word.toList <+: r.toList := by
  cases h with
  | only hc =>
    have hpre := hword _ (hc ▸ List.mem_singleton_self _)
    split_ifs
    · exact hpre
    · rw [String.toList_append]
      exact hpre.trans (List.prefix_append ..)
  | common _ hr => exact hr.longest _ hword

/-- The candidates of a word that starts at a position of a line. -/
def candidatesAt (src : Sources) (b : LineBuffer) (start : Nat) (word : String) : List String :=
  candidates src word ((b.chars.take start).all isBlank)

variable {prompt : String} {src : Sources} {b : LineBuffer} {start : Nat} {word : String}

/-- There is nothing to complete in front of the first word, and nothing without candidates. -/
lemma complete_eq_nothing (hword : b.currentWord? = some (start, word))
    (h : (word.isEmpty && (b.chars.take start).all isBlank) = true ∨
      candidatesAt src b start word = []) :
    complete prompt src b = .nothing := by
  rw [complete, hword]
  obtain h | h := h
  · simp only [h, if_true]
  · rw [candidatesAt] at h
    simp only [h]
    split_ifs <;> rfl

/-- Where there is a word, completion leaves the line as it is or puts a text in the place of the
word. -/
lemma complete_cases (hword : b.currentWord? = some (start, word)) :
    complete prompt src b = .nothing ∨
      ∃ b' listed again, complete prompt src b = .edit b' listed again ∧
        (b' = b ∨ ∃ r : String, b' =
          ⟨b.chars.take start ++ r.toList ++ b.chars.drop b.cursor, start + r.toList.length⟩) := by
  have hhas := b.hasWord_of_currentWord? hword
  -- a text that is shorter than the word does not come in its place
  have hfinish : ∀ (r listed : String) (again : Bool), ∃ b' again',
      (if r.length < word.length then Completed.edit b listed again
        else .edit ⟨b.chars.take start ++ r.toList ++ b.chars.drop b.cursor,
          start + r.toList.length⟩ listed true) = .edit b' listed again' ∧
        (b' = b ∨ ∃ r : String, b' =
          ⟨b.chars.take start ++ r.toList ++ b.chars.drop b.cursor, start + r.toList.length⟩) := by
    intro r listed again
    split_ifs
    · exact ⟨_, _, rfl, .inl rfl⟩
    · exact ⟨_, _, rfl, .inr ⟨r, rfl⟩⟩
  rw [complete, hword]
  simp only [hhas.replaceWord?]
  split_ifs
  · exact .inl rfl
  match candidates src word ((b.chars.take start).all isBlank) with
  | [] => exact .inl rfl
  | [only] =>
    obtain ⟨b', again, hedit, hb'⟩ := hfinish (if only.endsWith "/" then only else only ++ " ") "" false
    exact .inr ⟨b', _, again, hedit, hb'⟩
  | c :: d :: rest =>
    obtain ⟨b', again, hedit, hb'⟩ :=
      hfinish (commonPrefix (c :: d :: rest)) (listing prompt (c :: d :: rest)) true
    exact .inr ⟨b', _, again, hedit, hb'⟩

variable (prompt) in
/-- A word with candidates gives way to what comes in its place. -/
lemma complete_eq_edit (hword : b.currentWord? = some (start, word))
    (hblank : ¬ (word.isEmpty && (b.chars.take start).all isBlank) = true)
    (hne : candidatesAt src b start word ≠ [])
    (hpre : ∀ c ∈ candidatesAt src b start word, word.toList <+: c.toList) :
    ∃ r, Replacement (candidatesAt src b start word) r ∧
      complete prompt src b =
        .edit ⟨b.chars.take start ++ r.toList ++ b.chars.drop b.cursor, start + r.toList.length⟩
          (if (candidatesAt src b start word).length = 1 then ""
            else listing prompt (candidatesAt src b start word)) true := by
  have hhas := b.hasWord_of_currentWord? hword
  -- what comes in the place of the word is not shorter, so the word is replaced
  have hlong : ∀ r, Replacement (candidatesAt src b start word) r → ¬ r.length < word.length := by
    intro r hr
    have hle := (hr.isPrefix hpre).length_le
    rwa [String.length_toList, String.length_toList, ← not_lt] at hle
  rw [complete, hword]
  simp only [if_neg hblank]
  rw [candidatesAt] at hne hlong ⊢
  match hcands : candidates src word ((b.chars.take start).all isBlank) with
  | [] => exact absurd hcands hne
  | [only] =>
    rw [hcands] at hlong
    have hr := Replacement.only (rfl : [only] = [only])
    refine ⟨_, hr, ?_⟩
    simp only [if_neg (hlong _ hr), hhas.replaceWord?, List.length_singleton, if_true]
  | c :: d :: rest =>
    rw [hcands] at hlong
    have hr : Replacement (c :: d :: rest) (commonPrefix (c :: d :: rest)) :=
      .common (by simp) (isCommonPrefix_commonPrefix (by simp))
    refine ⟨_, hr, ?_⟩
    simp only [if_neg (hlong _ hr), hhas.replaceWord?]
    rfl

/-- **Completion only makes the word longer.**  Let a word without two slashes in a row end at the
cursor.

* Its candidates are strictly increasing, and each of them starts with the word.
* Without candidates, and in front of the first word, nothing changes.
* Otherwise the line becomes what is in front of the word, a text that starts with the word, and
  what is behind the cursor; the cursor stands right behind that text.  The text is the only
  candidate, followed by a blank unless it ends in a slash, or the longest text that all candidates
  start with; several candidates are listed below the line.

**Proof sketch.** A candidate is a name from one of the sources, which start with what was asked
for, behind the directory of the word; directory and rest of the word glued together give the word
again (`glue_splitDirectory`).  So what comes in the place of the word is not shorter, and the word,
which reaches up to the cursor, is replaced. -/
theorem complete_extends (prompt : String) (src : Sources)
    (hword : b.currentWord? = some (start, word))
    (hslash : ¬ ['/', '/'] <:+: word.toList) :
    (candidatesAt src b start word).Pairwise (· < ·) ∧
      (∀ c ∈ candidatesAt src b start word, word.toList <+: c.toList) ∧
      if word = "" ∧ (∀ c ∈ b.chars.take start, isBlank c = true) ∨
          candidatesAt src b start word = [] then
        complete prompt src b = .nothing
      else ∃ r, Replacement (candidatesAt src b start word) r ∧ word.toList <+: r.toList ∧
        complete prompt src b =
          .edit ⟨b.chars.take start ++ r.toList ++ b.chars.drop b.cursor,
              (b.chars.take start ++ r.toList).length⟩
            (if (candidatesAt src b start word).length = 1 then ""
              else listing prompt (candidatesAt src b start word)) true := by
  have hpre : ∀ c ∈ candidatesAt src b start word, word.toList <+: c.toList :=
    fun c hc => isPrefix_of_mem_candidates hslash hc
  have hblank : (word = "" ∧ ∀ c ∈ b.chars.take start, isBlank c = true) ↔
      (word.isEmpty && (b.chars.take start).all isBlank) = true := by
    rw [Bool.and_eq_true, String.isEmpty_iff, List.all_eq_true]
  refine ⟨pairwise_sortWords _, hpre, ?_⟩
  by_cases h : (word = "" ∧ ∀ c ∈ b.chars.take start, isBlank c = true) ∨
      candidatesAt src b start word = []
  · rw [if_pos h]
    exact complete_eq_nothing hword (h.imp_left hblank.mp)
  · rw [if_neg h]
    obtain ⟨hfirst, hne⟩ := not_or.mp h
    obtain ⟨r, hr, hedit⟩ := complete_eq_edit prompt hword (mt hblank.mpr hfirst) hne hpre
    have hlength : (b.chars.take start ++ r.toList).length = start + r.toList.length := by
      rw [List.length_append, List.length_take_of_le (b.hasWord_of_currentWord? hword).start_le]
    exact ⟨r, hr, hr.isPrefix hpre, by rw [hlength]; exact hedit⟩

/-- The working directory `/w` with three files, and no other sources. -/
def threeFiles : Sources where
  tree := ⟨#[.directory 0 [("w", 1)], .directory 0 [(".se", 2), ("setup.rs", 3), ("setup.sh", 4)],
    .file "" false, .file "" false, .file "" false]⟩
  builtins := []
  cwd := "/w"
  path := none
  start := "/"

/-- A word in the middle of a line, in a directory that holds two files it could become. -/
theorem complete_extends_listed :
    (⟨"cat ./se;é".toList, 8⟩ : LineBuffer).currentWord? = some (4, "./se") ∧
      ¬ ['/', '/'] <:+: "./se".toList ∧
      candidatesAt threeFiles ⟨"cat ./se;é".toList, 8⟩ 4 "./se" = ["./setup.rs", "./setup.sh"] ∧
      ∃ r, Replacement ["./setup.rs", "./setup.sh"] r ∧ "./se".toList <+: r.toList ∧
        complete "> " threeFiles ⟨"cat ./se;é".toList, 8⟩ =
          .edit ⟨"cat ".toList ++ r.toList ++ ";é".toList, ("cat ".toList ++ r.toList).length⟩
            (listing "> " ["./setup.rs", "./setup.sh"]) true := by
  have hword : (⟨"cat ./se;é".toList, 8⟩ : LineBuffer).currentWord? = some (4, "./se") := by decide
  have hslash : ¬ ['/', '/'] <:+: "./se".toList := by decide
  have hcands : candidatesAt threeFiles ⟨"cat ./se;é".toList, 8⟩ 4 "./se" =
      ["./setup.rs", "./setup.sh"] := by decide +kernel
  have h := (complete_extends "> " threeFiles hword hslash).2.2
  rw [hcands, if_neg (by decide)] at h
  exact ⟨hword, hslash, hcands, h⟩

end Editor

end Conch
