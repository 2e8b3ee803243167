import Mathlib.Data.List.Induction
import Mathlib.Data.List.TakeDrop
import Mathlib.Data.String.Basic
import Conch.Path

/-!
# Paths seen from a directory

Whoever goes down from the root, part by part, ends at a path with the names of these parts.  The
path of an entry there, seen from any path with the same names, is the name of the entry again.
Only `.` is no name: it leaves nothing.

## Main definitions

* `Path.counted` — the parts of a path that count.
* `Path.Spells` — a path from the root, part by part.

## Main results

* `Path.Spells.join` — going down one part.
* `Path.stripPrefix?_join` — **an entry, seen from its directory, is its name.**
-/

set_option autoImplicit false

namespace Conch.Path

/-! ## First and last characters -/

/-- A path is absolute exactly if its first character is a slash. -/
lemma isAbsolute_iff (path : String) : isAbsolute path = true ↔ ['/'] <+: path.toList := by
  rw [isAbsolute, String.startsWith_string_iff]
  rfl

/-- A text ends in a slash exactly if its last character is one. -/
lemma endsWith_slash_iff (s : String) : s.endsWith "/" = true ↔ ['/'] <:+ s.toList := by
  rw [String.endsWith_eq_endsWith_toSlice, String.Slice.endsWith_string_iff]
  simp

/-- What ends in a text without a slash does not end in a slash. -/
lemma not_slash_suffix {front back : List Char} (hne : back ≠ []) (h : '/' ∉ back) :
    ¬ ['/'] <:+ front ++ back := by
  obtain ⟨init, last, rfl⟩ := (List.eq_nil_or_concat back).resolve_left hne
  rintro ⟨rest, hrest⟩
  have hlast : rest ++ ['/'] = front ++ init ++ [last] := by
    rw [hrest, List.concat_eq_append, List.append_assoc]
  obtain ⟨-, heq⟩ := List.append_inj' hlast rfl
  obtain ⟨rfl, -⟩ := List.cons.inj heq
  exact h (by simp)

/-- A text without a slash is no absolute path. -/
lemma isAbsolute_eq_false {name : String} (h : '/' ∉ name.toList) : isAbsolute name = false := by
  rw [← Bool.not_eq_true, isAbsolute_iff]
  rintro ⟨rest, hrest⟩
  exact h (hrest ▸ List.mem_append_left rest List.mem_cons_self)

/-! ## Parts -/

/-- The parts between slashes, as the library splits lists. -/
lemma splitSlash_eq_splitOn (cs : List Char) : splitSlash cs = cs.splitOn '/' := by
  induction cs with
  | nil => rfl
  | cons c cs ih =>
    by_cases hc : c = '/'
    · subst hc
      rw [splitSlash, ih, List.splitOn_cons_eq_if_modifyHead]
      rfl
    · rw [splitSlash, ih, List.splitOn_cons_eq_if_modifyHead, if_neg (by simpa using hc)]
      · obtain ⟨part, parts, hsplit⟩ := List.exists_cons_of_ne_nil (List.splitOn_ne_nil '/' cs)
        rw [hsplit]
        rfl
      · exact hc

lemma splitSlash_ne_nil (cs : List Char) : splitSlash cs ≠ [] := by
  rw [splitSlash_eq_splitOn]
  exact List.splitOn_ne_nil '/' cs

/-- A character that is no slash belongs to the first part. -/
lemma splitSlash_cons {c : Char} (hc : c ≠ '/') (cs : List Char) :
    splitSlash (c :: cs) = (splitSlash cs).modifyHead (List.cons c) := by
  simp only [splitSlash_eq_splitOn]
  rw [List.splitOn_cons_eq_if_modifyHead, if_neg (by simpa using hc)]

/-- A text without a slash belongs to the first part. -/
lemma splitSlash_append {as : List Char} (h : '/' ∉ as) (bs : List Char) :
    splitSlash (as ++ bs) = (splitSlash bs).modifyHead (as ++ ·) := by
  induction as with
  | nil =>
    cases hsplit : splitSlash bs with
    | nil => exact absurd hsplit (splitSlash_ne_nil bs)
    | cons part parts => exact hsplit
  | cons c as ih =>
    obtain ⟨hc, has⟩ := not_or.mp (List.mem_cons.not.mp h)
    rw [List.cons_append, splitSlash_cons (Ne.symm hc), ih has, List.modifyHead_modifyHead]
    rfl

/-- A slash ends a part. -/
lemma splitSlash_append_slash (as bs : List Char) :
    splitSlash (as ++ '/' :: bs) = splitSlash as ++ splitSlash bs := by
  simp only [splitSlash_eq_splitOn, List.splitOn_append_cons_self]

/-- A text without a slash is one part. -/
lemma splitSlash_of_not_mem {cs : List Char} (h : '/' ∉ cs) : splitSlash cs = [cs] := by
  rw [splitSlash_eq_splitOn, List.splitOn_eq_singleton h]

/-- No part has a slash. -/
lemma not_mem_of_mem_splitSlash {cs part : List Char} (h : part ∈ splitSlash cs) : '/' ∉ part := by
  induction cs generalizing part with
  | nil =>
    obtain rfl := List.mem_singleton.mp h
    exact List.not_mem_nil
  | cons c cs ih =>
    by_cases hc : c = '/'
    · subst hc
      obtain rfl | h := List.mem_cons.mp h
      · exact List.not_mem_nil
      · exact ih h
    · rw [splitSlash_cons hc] at h
      cases hsplit : splitSlash cs with
      | nil => exact absurd hsplit (splitSlash_ne_nil cs)
      | cons first parts =>
        rw [hsplit] at h ih
        obtain rfl | h := List.mem_cons.mp h
        · exact List.mem_cons.not.mpr (not_or.mpr ⟨Ne.symm hc, ih List.mem_cons_self⟩)
        · exact ih (List.mem_cons_of_mem _ h)

/-- The parts with a slash behind each of them. -/
def slashed (parts : List (List Char)) : List Char := parts.flatMap (· ++ ['/'])

@[simp]
lemma slashed_nil : slashed [] = [] := rfl

@[simp]
lemma slashed_cons (part : List Char) (parts : List (List Char)) :
    slashed (part :: parts) = part ++ '/' :: slashed parts := by
  simp [slashed]

@[simp]
lemma slashed_append (parts parts' : List (List Char)) :
    slashed (parts ++ parts') = slashed parts ++ slashed parts' :=
  List.flatMap_append

/-- What stands behind parts with slashes, or behind the root, stands behind a slash. -/
lemma suffix_slashed (parts : List (List Char)) : ['/'] <:+ '/' :: slashed parts := by
  obtain rfl | ⟨front, last, rfl⟩ := List.eq_nil_or_concat parts
  · exact List.suffix_refl _
  · exact ⟨'/' :: (slashed front ++ last), by simp⟩

/-- Parts with slashes behind them are split into these parts. -/
lemma splitSlash_slashed {parts : List (List Char)} (h : ∀ part ∈ parts, '/' ∉ part)
    (cs : List Char) : splitSlash (slashed parts ++ cs) = parts ++ splitSlash cs := by
  induction parts with
  | nil => rfl
  | cons part parts ih =>
    obtain ⟨hpart, hparts⟩ := List.forall_mem_cons.mp h
    rw [slashed_cons, List.append_assoc, List.cons_append, splitSlash_append_slash,
      splitSlash_of_not_mem hpart, ih hparts]
    rfl

/-- The parts that count as names. -/
def counted (parts : List (List Char)) : List (List Char) :=
  parts.filter fun part => part ≠ [] ∧ part ≠ ['.']

@[simp]
lemma counted_nil : counted [] = [] := rfl

@[simp]
lemma counted_append (parts parts' : List (List Char)) :
    counted (parts ++ parts') = counted parts ++ counted parts' :=
  List.filter_append ..

/-- The names of a path are the parts that count. -/
lemma names_eq (path : String) :
    names path = (counted (splitSlash path.toList)).map String.ofList := by
  have hcounts : (fun part : String => decide (part ≠ "" ∧ part ≠ ".")) ∘ String.ofList =
      fun part : List Char => decide (part ≠ [] ∧ part ≠ ['.']) := by
    funext part
    have hempty : String.ofList part = "" ↔ part = [] := by
      rw [← String.toList_inj, String.toList_ofList]; rfl
    have hdot : String.ofList part = "." ↔ part = ['.'] := by
      rw [← String.toList_inj, String.toList_ofList]; rfl
    simp only [Function.comp_apply, ne_eq, hempty, hdot]
  rw [names, List.filter_map, hcounts, counted]

/-! ## Behind the names of a directory -/

/-- What is left behind some names depends on what is in front of them only by what is skipped
there. -/
lemma map_skipFront_afterNames {cs cs' : List Char} (h : skipFront cs = skipFront cs')
    (ns : List String) : (afterNames ns cs).map skipFront = (afterNames ns cs').map skipFront := by
  cases ns with
  | nil => exact congrArg some h
  | cons n ns => rw [afterNames, afterNames, h]

/-- Nothing in front of a part that counts is skipped. -/
lemma skipFront_of_counts {part : List Char} (hne : part ≠ []) (hdot : part ≠ ['.'])
    (hslash : '/' ∉ part) (cs : List Char) :
    skipFront (part ++ '/' :: cs) = part ++ '/' :: cs ∧ skipFront part = part := by
  obtain ⟨c, part, rfl⟩ := List.exists_cons_of_ne_nil hne
  obtain ⟨hc, hpart⟩ := not_or.mp (List.mem_cons.not.mp hslash)
  have hkeep : ∀ back, (c = '.' → back ≠ []) → (∀ back', c = '.' → back ≠ '/' :: back') →
      skipFront (c :: back) = c :: back := by
    intro back hnil hcons
    rw [skipFront]
    · rintro back' ⟨⟩
      exact hc rfl
    · rintro ⟨⟩
      exact hnil rfl rfl
    · rintro back' ⟨⟩
      exact hcons back' rfl rfl
  constructor
  · refine hkeep _ (fun _ => by simp) ?_
    cases part with
    | nil =>
      rintro back' rfl
      exact absurd rfl hdot
    | cons d part =>
      rintro back' - ⟨⟩
      exact hpart List.mem_cons_self
  · refine hkeep _ ?_ ?_
    · rintro rfl rfl
      exact hdot rfl
    · rintro back' - rfl
      exact hpart List.mem_cons_self

/-- A text without a slash is kept at both ends, unless it is `.`. -/
lemma trim_of_not_mem {cs : List Char} (h : '/' ∉ cs) :
    (skipBack (skipFront cs).reverse).reverse = if cs = ['.'] then [] else cs := by
  have hback : ∀ back : List Char, '/' ∉ back → skipBack back = back := by
    intro back hslash
    rw [skipBack]
    · rintro back' rfl
      exact hslash List.mem_cons_self
    · rintro back' rfl
      exact hslash (List.mem_cons_of_mem _ List.mem_cons_self)
  by_cases hne : cs = []
  · subst hne
    rfl
  split_ifs with hdot
  · subst hdot
    rfl
  · rw [(skipFront_of_counts hne hdot h []).2, hback _ (by simpa using h), List.reverse_reverse]

/-- Behind the names of some parts is what comes behind the parts. -/
lemma afterNames_slashed {parts : List (List Char)} (h : ∀ part ∈ parts, '/' ∉ part)
    (cs : List Char) :
    (afterNames ((counted parts).map String.ofList) (slashed parts ++ cs)).map skipFront =
      some (skipFront cs) := by
  induction parts with
  | nil => rfl
  | cons part parts ih =>
    obtain ⟨hpart, hparts⟩ := List.forall_mem_cons.mp h
    have hslash : skipFront ('/' :: (slashed parts ++ cs)) = skipFront (slashed parts ++ cs) := rfl
    rw [slashed_cons, List.append_assoc, List.cons_append]
    by_cases hne : part = []
    · subst hne
      exact (map_skipFront_afterNames hslash _).trans (ih hparts)
    by_cases hdot : part = ['.']
    · subst hdot
      have hskip : skipFront (['.'] ++ '/' :: (slashed parts ++ cs)) =
          skipFront (slashed parts ++ cs) := by
        rfl
      exact (map_skipFront_afterNames hskip _).trans (ih hparts)
    · have hcounted : counted (part :: parts) = part :: counted parts := by
        simp [counted, hne, hdot]
      have hspan : (part ++ '/' :: (slashed parts ++ cs)).span (· ≠ '/') =
          (part, '/' :: (slashed parts ++ cs)) := by
        have hall : ∀ c ∈ part, decide (c ≠ '/') = true := fun c hc =>
          decide_eq_true fun heq => hpart (heq ▸ hc)
        rw [List.span_eq_takeWhile_dropWhile, List.takeWhile_append_of_pos hall,
          List.dropWhile_append_of_pos hall]
        simp
      rw [hcounted, List.map_cons, afterNames, (skipFront_of_counts hne hdot hpart _).1, hspan]
      simp only [if_true]
      rw [map_skipFront_afterNames hslash, ih hparts]

/-! ## Going down -/

/-- A text without a slash is appended to a path, behind a slash if the path does not end in one. -/
lemma toList_join {base name : String} (hname : '/' ∉ name.toList) :
    (join base name).toList = base.toList ++
      (if base = "" ∨ ['/'] <:+ base.toList then [] else ['/']) ++ name.toList := by
  rw [join, if_neg (by simp [isAbsolute_eq_false hname])]
  by_cases h : base = "" ∨ ['/'] <:+ base.toList
  · rw [if_pos h, if_pos (by simpa [endsWith_slash_iff] using h)]
    simp
  · rw [if_neg h, if_neg (by simpa [endsWith_slash_iff] using h)]
    simp

/-- The path goes from the root through the parts. -/
structure Spells (path : String) (parts : List (List Char)) : Prop where
  noSlash : ∀ part ∈ parts, '/' ∉ part
  toList_join : ∀ name : String, '/' ∉ name.toList →
    (join path name).toList = '/' :: (slashed parts ++ name.toList)

/-- The root is reached through no part. -/
lemma spells_root : Spells "/" [] where
  noSlash := nofun
  toList_join name hname := by
    have hroot : ("/" : String).toList = ['/'] := rfl
    rw [Path.toList_join hname, if_pos (.inr (hroot ▸ List.suffix_refl _)), hroot]
    rfl

/-- **Going down one part** adds its name, if it has one. -/
lemma Spells.join {path : String} {parts : List (List Char)} (h : Spells path parts)
    {part : List Char} (hpart : '/' ∉ part) :
    ∃ parts', Spells (Path.join path (String.ofList part)) parts' ∧
      counted parts' = counted parts ++ counted [part] := by
  have hpath := h.toList_join (String.ofList part) (by rwa [String.toList_ofList])
  rw [String.toList_ofList] at hpath
  have hne : Path.join path (String.ofList part) ≠ "" := by
    rw [ne_eq, ← String.toList_eq_nil_iff, hpath]
    exact List.cons_ne_nil _ _
  by_cases hempty : part = []
  · -- an empty part leaves a slash at the end
    subst hempty
    have hslash : ['/'] <:+ (Path.join path (String.ofList [])).toList := by
      rw [hpath, List.append_nil]
      exact suffix_slashed parts
    refine ⟨parts, ⟨h.noSlash, fun name hname => ?_⟩, by simp [counted]⟩
    rw [Path.toList_join hname, if_pos (.inr hslash), hpath]
    simp
  · have hslash : ¬ ['/'] <:+ (Path.join path (String.ofList part)).toList := by
      rw [hpath, ← List.cons_append]
      exact not_slash_suffix hempty hpart
    refine ⟨parts ++ [part], ⟨?_, fun name hname => ?_⟩, counted_append ..⟩
    · simpa [or_imp, forall_and, hpart] using h.noSlash
    · rw [Path.toList_join hname, if_neg (by simp [hne, hslash]), hpath]
      simp

/-- A path that leads through some parts to a name is absolute, and goes on where a path with these
parts ends. -/
lemma components_prefix_join {cwd path name : String} {parts : List (List Char)}
    (hcwd : isAbsolute cwd = true) (hnames : names cwd = (counted parts).map String.ofList)
    (h : Spells path parts) (hname : '/' ∉ name.toList) :
    isAbsolute (join path name) = true ∧ components cwd <+: components (join path name) := by
  have hjoin := h.toList_join name hname
  have habs : isAbsolute (join path name) = true := by
    rw [isAbsolute_iff, hjoin]
    exact List.prefix_append ['/'] _
  have hparts : splitSlash (join path name).toList = [] :: (parts ++ [name.toList]) := by
    rw [hjoin, splitSlash, splitSlash_slashed h.noSlash, splitSlash_of_not_mem hname]
  have hcounted : counted ([] :: (parts ++ [name.toList])) =
      counted parts ++ counted [name.toList] := counted_append parts [name.toList]
  refine ⟨habs, ?_⟩
  rw [components, components, if_pos hcwd, if_pos habs, List.prefix_cons_inj, hnames, names_eq,
    hparts, hcounted, List.map_append]
  exact List.prefix_append _ _

/-- Behind the parts of such a path, what is left begins with the name. -/
lemma afterNames_join {cwd path name : String} {parts : List (List Char)}
    (hnames : names cwd = (counted parts).map String.ofList) (h : Spells path parts)
    (hname : '/' ∉ name.toList) :
    (afterNames (names cwd) (join path name).toList).map skipFront =
      some (skipFront name.toList) := by
  rw [hnames, h.toList_join name hname]
  have hslash : skipFront ('/' :: (slashed parts ++ name.toList)) =
      skipFront (slashed parts ++ name.toList) := rfl
  exact (map_skipFront_afterNames hslash _).trans (afterNames_slashed h.noSlash name.toList)

/-- **An entry, seen from a directory with the same names, is its name**; `.` is nothing. -/
lemma stripPrefix?_join {cwd path name : String} {parts : List (List Char)}
    (hcwd : isAbsolute cwd = true) (hnames : names cwd = (counted parts).map String.ofList)
    (h : Spells path parts) (hname : '/' ∉ name.toList) :
    stripPrefix? cwd (join path name) = some (if name = "." then "" else name) := by
  obtain ⟨habs, hpre⟩ := components_prefix_join hcwd hnames h hname
  obtain ⟨rest, hafter, hskip⟩ := Option.map_eq_some_iff.mp (afterNames_join hnames h hname)
  have hstart : (!(if isAbsolute cwd then isAbsolute (join path name)
      else !isAbsolute (join path name)) ||
      !(components cwd).isPrefixOf (components (join path name))) = false := by
    simp [hcwd, habs, List.isPrefixOf_iff_prefix.mpr hpre]
  rw [stripPrefix?, hafter]
  simp only [hstart, Bool.false_eq_true, if_false, Option.map_some, hskip]
  rw [trim_of_not_mem hname]
  have hdot : name.toList = ['.'] ↔ name = "." := by
    rw [← String.toList_inj]
    rfl
  split_ifs with h₁ h₂ h₂
  · rfl
  · exact absurd (hdot.mp h₁) h₂
  · exact absurd (hdot.mpr h₂) h₁
  · rw [String.ofList_toList]

end Conch.Path
