import Mathlib.Data.List.DropRight
import Conch.Proofs.Reaching
import Conch.Word

/-!
# What a wildcard finds

A word with a wildcard and without a slash is tried against the names of one directory, the current
one.  The pattern that is searched for starts with the path of this directory, in which every
special character stands for itself, and what is found is seen from there again.  So, whatever
the path and the names are made of, the fields are names of the directory in order, each matching
the word: its wildcards and the text from its quotations, escapes and parameters, which stands for
itself.

Two kinds of words are exceptions.  A `.*` finds the directory itself, which as a path seen from
itself is the empty text.  And behind a bare `[` it is not only bare text that is read: what was
escaped for the pattern is read as part of the bracket.

## Main definitions

* `Piece.asked` — what a piece of a word asks for.
* `Word.visible` — the names that are searched.
* `Word.Answers` — the fields that a pattern asks for.

## Main results

* `Word.matchFiles_eq` — the fields are the names that are found, seen from the directory.
* `Word.visible_ofNames` — the directory that is searched is the current one.
* `Word.matches_asked` — a pattern without a bracket matches what the word asks for.
* `Word.expand_glob` — **what the fields of a word with a wildcard are.**
-/

set_option autoImplicit false

namespace Conch.Word

open Pattern

/-! ## The path of the current directory -/

/-- Slashes at the end, taken off. -/
lemma trimSlashes_append_singleton (cs : List Char) (c : Char) :
    trimSlashes (cs ++ [c]) = if c = '/' then trimSlashes cs else cs ++ [c] := by
  have htrim : ∀ cs : List Char, trimSlashes cs = cs.rdropWhile (· = '/') := fun _ => rfl
  rw [htrim, List.rdropWhile_concat, htrim]
  simp only [decide_eq_true_eq]

lemma trimSlashes_of_not_suffix {cs : List Char} (h : ¬ ['/'] <:+ cs) : trimSlashes cs = cs := by
  obtain rfl | ⟨front, last, rfl⟩ := List.eq_nil_or_concat cs
  · rfl
  · rw [List.concat_eq_append] at h ⊢
    refine (trimSlashes_append_singleton front last).trans (if_neg ?_)
    rintro rfl
    exact h (List.suffix_append front ['/'])

/-- Slashes at the end of a text that stands for itself are the slashes at the end of the text. -/
lemma trimSlashes_escape (cs : List Char) : trimSlashes (escape cs) = escape (trimSlashes cs) := by
  induction cs using List.reverseRecOn with
  | nil => rfl
  | append_singleton cs c ih =>
    rw [trimSlashes_append_singleton, escape_append]
    split_ifs with hc
    · subst hc
      rw [← ih]
      exact (trimSlashes_append_singleton (escape cs) '/').trans (if_pos rfl)
    · obtain ⟨front, last, hlast⟩ : ∃ front last, escape [c] = front ++ [last] := by
        obtain hnil | ⟨front, last, hlast⟩ := List.eq_nil_or_concat (escape [c])
        · exact absurd hnil (escape_singleton_ne_nil c)
        · exact ⟨front, last, hlast.trans List.concat_eq_append⟩
      have hne : last ≠ '/' := by
        rintro rfl
        exact not_mem_escape_singleton hc (hlast ▸ List.mem_append_right _ List.mem_cons_self)
      rw [hlast, ← List.append_assoc, trimSlashes_append_singleton, if_neg hne, List.append_assoc,
        ← hlast, escape_append]

/-- Slashes at the end add no name. -/
lemma counted_trimSlashes (cs : List Char) :
    Path.counted (Path.splitSlash (trimSlashes cs)) = Path.counted (Path.splitSlash cs) := by
  induction cs using List.reverseRecOn with
  | nil => rfl
  | append_singleton cs c ih =>
    rw [trimSlashes_append_singleton]
    split_ifs with hc
    · subst hc
      rw [ih, Path.splitSlash_append_slash, Path.counted_append]
      exact (List.append_nil _).symm
    · rfl

/-- The parts of an absolute path, without slashes at its end. -/
def parts (cwd : String) : List (List Char) :=
  match trimSlashes cwd.toList with
  | [] => []
  | _ :: path => Path.splitSlash path

lemma not_mem_of_mem_parts {cwd : String} {part : List Char} (h : part ∈ parts cwd) :
    '/' ∉ part := by
  unfold parts at h
  split at h
  case h_1 => cases h
  case h_2 => exact Path.not_mem_of_mem_splitSlash h

/-- An absolute path without slashes at its end is empty, or it is a slash and its parts. -/
lemma trimSlashes_cases {cwd : String} (h : Path.isAbsolute cwd = true) :
    trimSlashes cwd.toList = [] ∧ parts cwd = [] ∨
      ∃ path, trimSlashes cwd.toList = '/' :: path ∧ parts cwd = Path.splitSlash path := by
  rw [parts]
  cases htrim : trimSlashes cwd.toList with
  | nil => exact .inl ⟨rfl, rfl⟩
  | cons c path =>
    obtain ⟨rest, hrest⟩ := (Path.isAbsolute_iff cwd).mp h
    have hpre : trimSlashes cwd.toList <+: cwd.toList := List.rdropWhile_prefix _ _
    obtain rfl : c = '/' := by
      rw [htrim, ← hrest] at hpre
      exact (List.cons_prefix_cons.mp hpre).1
    exact .inr ⟨path, rfl, rfl⟩

/-- The parts have the names of the path. -/
lemma names_eq_parts {cwd : String} (h : Path.isAbsolute cwd = true) :
    Path.names cwd = (Path.counted (parts cwd)).map String.ofList := by
  rw [Path.names_eq, ← counted_trimSlashes]
  obtain ⟨htrim, hparts⟩ | ⟨path, htrim, hparts⟩ := trimSlashes_cases h
  · rw [htrim, hparts]
    rfl
  · rw [htrim, hparts]
    rfl

/-! ## The directory that is searched -/

/-- The spot at a path. -/
def reach (t : FileTree) (cwd : String) : Option Glob.Spot :=
  (parts cwd).foldlM (Glob.descend t) (.at t "/")

/-- The names that a component matches in the directory at a path. -/
def found (t : FileTree) (cwd : String) (items : List Item) : List String :=
  (reach t cwd).elim [] fun s => Glob.found t s (.items items)

/-- The names that the directory at a path shows. -/
def visible (t : FileTree) (cwd : String) : List String :=
  (reach t cwd).elim [] fun s => if s.isDirectory then (Glob.children t s).map Prod.fst else []

variable {t : FileTree} {cwd : String} {pattern : List Char} {items : List Item}

/-- How a name is seen from its directory: `.` is the directory itself. -/
def seen (name : String) : String := if name = "." then "" else name

/-- The components of what is searched for: the parts of the path, and the pattern. -/
lemma splitComponents_full (hcwd : Path.isAbsolute cwd = true) (hslash : '/' ∉ pattern)
    (hne : pattern ≠ []) :
    splitComponents ((trimSlashes (escape cwd.toList) ++ '/' :: pattern).drop 1) =
      (parts cwd).map escape ++ [pattern] := by
  have hpattern := splitComponents_of_not_mem hne hslash
  rw [trimSlashes_escape]
  obtain ⟨htrim, hparts⟩ | ⟨path, htrim, hparts⟩ := trimSlashes_cases hcwd
  · rw [htrim, hparts]
    exact hpattern
  · rw [htrim, hparts, escape_slash_cons]
    simp only [List.cons_append, List.drop_one, List.tail_cons]
    rw [splitComponents_append_slash, splitSlash_escape, hpattern]

/-- What is found at a spot, seen from a path with its names. -/
lemma stripPrefix?_of_mem_found (ht : t.WellNamed) (hcwd : Path.isAbsolute cwd = true)
    {s : Glob.Spot} (hs : reach t cwd = some s) {p : Component} {name : String}
    (h : name ∈ Glob.found t s p) :
    Path.stripPrefix? cwd (Path.join s.path name) = some (seen name) := by
  obtain ⟨parts', hspells, hcounted⟩ := Glob.spells_of_descend ht
    Path.spells_root (fun _ => not_mem_of_mem_parts) hs
  have hnames : Path.names cwd = (Path.counted parts').map String.ofList := by
    rw [names_eq_parts hcwd, hcounted]
    rfl
  exact Path.stripPrefix?_join hcwd hnames hspells (Glob.not_mem_of_mem_found ht h)

/-- What the path and the pattern find: names of the directory, behind its path. -/
lemma expand?_full (ht : t.WellNamed) (hcwd : Path.isAbsolute cwd = true)
    (hslash : '/' ∉ pattern) (hstars : pattern ≠ ['*', '*'])
    (hwild : ∃ c ∈ pattern, c ∈ ['[', '*', '?']) :
    Glob.expand? t (String.ofList (trimSlashes (escape cwd.toList) ++ '/' :: pattern)) =
      (items? none pattern).map fun items => (reach t cwd).elim [] fun s =>
        (Glob.found t s (.items items)).map (Path.join s.path) := by
  have hne : pattern ≠ [] := by
    rintro rfl
    obtain ⟨c, hc, -⟩ := hwild
    cases hc
  have hfull := splitComponents_full hcwd hslash hne
  have hend : (String.ofList (trimSlashes (escape cwd.toList) ++ '/' :: pattern)).endsWith "/" =
      false := by
    rw [← Bool.not_eq_true, Path.endsWith_slash_iff, String.toList_ofList, List.append_cons]
    exact Path.not_slash_suffix hne hslash
  rw [← String.toList_ofList (l := trimSlashes (escape cwd.toList) ++ '/' :: pattern)] at hfull
  exact Glob.expand?_escaped ht hfull hend hstars hwild

/-- What is found in the directory at the end of a path, seen from there. -/
lemma map_stripPrefix?_found (ht : t.WellNamed) (hcwd : Path.isAbsolute cwd = true)
    {s : Glob.Spot} (hs : reach t cwd = some s) (p : Component) :
    ((Glob.found t s p).map (Path.join s.path)).map
      (fun path => (Path.stripPrefix? cwd path).getD path) = (Glob.found t s p).map seen := by
  rw [List.map_map]
  refine List.map_congr_left fun name hname => ?_
  rw [Function.comp_apply, stripPrefix?_of_mem_found ht hcwd hs hname, Option.getD_some]

/-- **What is found by a pattern** without a slash. -/
lemma matchFiles_eq (ht : t.WellNamed) (hcwd : Path.isAbsolute cwd = true)
    (hslash : '/' ∉ pattern) (hstars : pattern ≠ ['*', '*'])
    (hwild : ∃ c ∈ pattern, c ∈ ['[', '*', '?']) :
    matchFiles cwd t pattern = match (items? none pattern).elim [] (found t cwd) with
      | [] => none
      | names => some (names.map seen) := by
  have hrelative : ¬ pattern.head? = some '/' := fun hhead => hslash (List.mem_of_head? hhead)
  rw [matchFiles]
  simp only [hrelative, if_false, expand?_full ht hcwd hslash hstars hwild]
  cases items? none pattern with
  | none => rfl
  | some items =>
    simp only [Option.map_some, Option.elim_some, found]
    cases hreach : reach t cwd with
    | none => rfl
    | some s =>
      have hseen := map_stripPrefix?_found ht hcwd hreach (.items items)
      simp only [Option.elim_some]
      cases hfound : Glob.found t s (.items items) with
      | nil => rfl
      | cons name names =>
        rw [hfound] at hseen
        exact congrArg some hseen

/-- The parts of a path with names are these names. -/
lemma parts_ofNames {names : List String} (h : ∀ name ∈ names, FileTree.IsEntryName name) :
    parts (Path.ofNames names) = names.map String.toList := by
  by_cases hne : names = []
  · subst hne
    rw [Path.ofNames_nil]
    decide
  · have hsuffix := Path.not_slash_suffix_ofNames h hne
    have htrim := trimSlashes_of_not_suffix hsuffix
    have hsplit := Path.splitSlash_ofNames h hne
    rw [Path.toList_ofNames] at htrim hsplit
    rw [parts, Path.toList_ofNames, htrim]
    exact (List.cons.inj hsplit).2

/-- **The directory that is searched is the one to which the path leads.** -/
lemma visible_ofNames {names : List String} (h : ∀ name ∈ names, FileTree.IsEntryName name)
    (hhidden : ∀ name ∈ names, (∃ c ∈ name.toList, c ∈ ['?', '*', '[', ']']) →
      ¬ ['.'] <+: name.toList) {dir : NodeId} {entries : List (String × NodeId)}
    (hfind : t.find (Path.ofNames names) true = .ok dir) (hentries : t.entries? dir = some entries) :
    visible t (Path.ofNames names) = (Glob.unhidden entries).map Prod.fst := by
  obtain ⟨parent, hnode⟩ := FileTree.entries?_eq_some.mp hentries
  have hat : (Glob.Spot.at t (Path.ofNames names)).isDirectory = true := by
    rw [Glob.Spot.at, FileTree.pathIsDirectory, FileTree.node?, hfind]
    simp only [hnode]
  rw [visible, reach, parts_ofNames h, Glob.reach_ofNames h hhidden hfind, Option.elim_some,
    if_pos hat, Glob.children_of_find hfind, hentries, Option.getD_some, List.map_map]
  rfl

/-! ## The names that are found -/

/-- What a directory shows are names in order, none of them hidden. -/
lemma visible_spec (ht : t.WellNamed) (cwd : String) :
    (visible t cwd).Pairwise (· < ·) ∧
      ∀ name ∈ visible t cwd, FileTree.IsEntryName name ∧ ¬ ['.'] <+: name.toList := by
  unfold visible
  cases reach t cwd with
  | none => exact ⟨List.Pairwise.nil, nofun⟩
  | some s =>
    have hshown := Glob.shown_children ht s
    simp only [Option.elim_some]
    split_ifs
    · refine ⟨hshown.ordered, fun name hname => ?_⟩
      obtain ⟨e, he, rfl⟩ := List.mem_map.mp hname
      exact ⟨hshown.named e he, hshown.visible e he⟩
    · exact ⟨List.Pairwise.nil, nofun⟩

/-- What is found are dots, if the pattern starts with one, and names that the directory shows. -/
lemma found_eq (t : FileTree) (cwd : String) (items : List Item) :
    found t cwd items =
      (if (Component.items items).startsWithDot && (reach t cwd).any Glob.Spot.isDirectory then
          ["..", "."] else []).filter (Component.items items).matches ++
        (visible t cwd).filter (Component.items items).matches := by
  unfold found visible
  cases reach t cwd with
  | none => simp
  | some s =>
    have hoffered : (Glob.offered t s (Component.items items).startsWithDot).map Prod.fst =
        (if (Component.items items).startsWithDot then ["..", "."] else []) ++
          (Glob.children t s).map Prod.fst := by
      rw [Glob.offered, List.map_append]
      cases (Component.items items).startsWithDot <;> rfl
    simp only [Option.elim_some, Glob.found, Option.any_some]
    by_cases hdirectory : s.isDirectory = true
    · simp only [hdirectory, Bool.and_true, if_true, hoffered, List.filter_append]
    · simp [hdirectory]

/-- Where nothing is found, no name that the directory shows matches. -/
lemma not_matches_of_found_eq_nil (ht : t.WellNamed) (h : found t cwd items = []) {name : String}
    (hname : name ∈ visible t cwd) : ¬ Matches true items name.toList := by
  rw [found_eq, List.append_eq_nil_iff, List.filter_eq_nil_iff, List.filter_eq_nil_iff] at h
  rw [← matches_items_iff ((visible_spec ht cwd).2 name hname).1.noSlash]
  exact h.2 name hname

/-- A directory shows no name with a dot in front. -/
lemma not_matches_visible (ht : t.WellNamed) {rest : List Item} {name : String}
    (h : name ∈ visible t cwd) : ¬ Matches true (.char '.' :: rest) name.toList := by
  have hvisible := ((visible_spec ht cwd).2 name h).2
  cases hname : name.toList with
  | nil => exact not_matches_cons_nil (char_ne_sequence '.')
  | cons c cs =>
    rw [hname] at hvisible
    rw [matches_cons_iff (char_ne_sequence '.')]
    rintro ⟨hc, -⟩
    obtain rfl : c = '.' := eq_of_beq hc
    exact hvisible ⟨cs, rfl⟩

/-- With a dot in front, a pattern finds dots only. -/
lemma found_of_dotted (ht : t.WellNamed) (cwd : String) (rest : List Item) :
    found t cwd (.char '.' :: rest) = [] ∨ found t cwd (.char '.' :: rest) =
      ["..", "."].filter (Component.items (.char '.' :: rest)).matches := by
  have hvisible : (visible t cwd).filter (Component.items (.char '.' :: rest)).matches = [] := by
    rw [List.filter_eq_nil_iff]
    intro name hname
    rw [matches_items_iff ((visible_spec ht cwd).2 name hname).1.noSlash]
    exact not_matches_visible ht hname
  rw [found_eq, hvisible, List.append_nil]
  split_ifs
  · exact .inr rfl
  · exact .inl rfl

/-- A pattern with a dot in front and a wildcard behind matches `.` only if it is `.*`. -/
lemma matches_dot_iff {back : List Char} {rest : List Item} (hback : items? none back = some rest)
    (hne : back ≠ []) :
    (Component.items (.char '.' :: rest)).matches "." = true ↔ back = ['*'] := by
  have hdot : (".".toList : List Char) = ['.'] := rfl
  rw [matches_items_iff (by decide), hdot, matches_cons_iff (char_ne_sequence '.')]
  constructor
  · rintro ⟨-, hrest⟩
    exact (of_matches_nil hback hrest).resolve_left hne
  · rintro rfl
    obtain rfl : rest = [.sequence] := (Option.some.inj hback).symm
    exact ⟨rfl, .skip .nil⟩

/-- The pattern `.*` finds both dots. -/
lemma seen_found_of_dot (ht : t.WellNamed) (hitems : items? none ['.', '*'] = some items)
    (hfound : found t cwd items ≠ []) : (found t cwd items).map seen = ["..", ""] := by
  obtain rfl : items = [.char '.', .sequence] := (Option.some.inj hitems).symm
  rw [(found_of_dotted ht cwd [.sequence]).resolve_left hfound]
  decide

/-- The fields that a pattern asks for: names in order that match, among them all that the directory
shows. -/
structure Answers (t : FileTree) (cwd : String) (asked : List Char → Prop)
    (fields : List String) : Prop where
  ordered : fields.Pairwise (· < ·)
  ne_empty : "" ∉ fields
  matched : ∀ field ∈ fields, asked field.toList
  named : ∀ field ∈ fields, field = ".." ∨ field ∈ visible t cwd
  complete : ∀ name ∈ visible t cwd, asked name.toList → name ∈ fields

/-- No field, where no name matches. -/
lemma Answers.nil {asked : List Char → Prop}
    (h : ∀ name ∈ visible t cwd, ¬ asked name.toList) : Answers t cwd asked [] where
  ordered := List.Pairwise.nil
  ne_empty := nofun
  matched := nofun
  named := nofun
  complete name hname hasked := (h name hname hasked).elim

/-- A pattern without a dot in front finds the names that match. -/
lemma answers_of_not_dotted (ht : t.WellNamed)
    (hdotted : (Component.items items).startsWithDot = false) :
    Answers t cwd (Matches true items) ((found t cwd items).map seen) := by
  obtain ⟨hordered, hnames⟩ := visible_spec ht cwd
  have hmatches : ∀ name ∈ visible t cwd,
      ((Component.items items).matches name = true ↔ Matches true items name.toList) :=
    fun name hname => matches_items_iff (hnames name hname).1.noSlash
  have hseen : (found t cwd items).map seen =
      (visible t cwd).filter (Component.items items).matches := by
    rw [found_eq, hdotted, Bool.false_and, if_neg Bool.false_ne_true, List.filter_nil,
      List.nil_append]
    refine (List.map_congr_left fun name hname => ?_).trans (List.map_id _)
    exact if_neg (hnames name (List.mem_filter.mp hname).1).1.ne_dot
  rw [hseen]
  refine ⟨hordered.filter _, fun hempty => ?_, fun name hname => ?_, fun name hname => ?_,
    fun name hname hasked => ?_⟩
  · exact (hnames "" (List.mem_filter.mp hempty).1).1.ne_empty rfl
  · obtain ⟨hvisible, hmatched⟩ := List.mem_filter.mp hname
    exact (hmatches name hvisible).mp hmatched
  · exact .inr (List.mem_filter.mp hname).1
  · exact List.mem_filter.mpr ⟨hname, (hmatches name hname).mpr hasked⟩

/-- A pattern with a dot in front that does not match `.` finds `..` or nothing. -/
lemma answers_of_dotted (ht : t.WellNamed) {rest : List Item}
    (hself : (Component.items (.char '.' :: rest)).matches "." = false) :
    Answers t cwd (Matches true (.char '.' :: rest))
      ((found t cwd (.char '.' :: rest)).map seen) := by
  have hnone : ∀ name ∈ visible t cwd, ¬ Matches true (.char '.' :: rest) name.toList :=
    fun _ => not_matches_visible ht
  obtain hfound | hfound := found_of_dotted ht cwd rest
  · rw [hfound]
    exact .nil hnone
  cases habove : (Component.items (.char '.' :: rest)).matches ".." with
  | false =>
    have hfields : (["..", "."].filter (Component.items (.char '.' :: rest)).matches).map seen =
        [] := by
      simp [habove, hself]
    rw [hfound, hfields]
    exact .nil hnone
  | true =>
    have hfields : (["..", "."].filter (Component.items (.char '.' :: rest)).matches).map seen =
        [".."] := by
      simp [habove, hself, seen]
    rw [hfound, hfields]
    refine ⟨List.pairwise_singleton .., by decide, fun field hfield => ?_, fun field hfield => ?_,
      fun name hname hasked => (hnone name hname hasked).elim⟩
    · obtain rfl := List.mem_singleton.mp hfield
      exact (matches_items_iff (by decide)).mp habove
    · exact .inl (List.mem_singleton.mp hfield)

/-- **What is found is what the pattern asks for**, unless the pattern is `.*`. -/
lemma answers_found (ht : t.WellNamed) (hitems : items? none pattern = some items)
    (hwild : ∃ c ∈ pattern, c ∈ ['[', '*', '?']) (hdot : pattern ≠ ['.', '*']) :
    Answers t cwd (Matches true items) ((found t cwd items).map seen) := by
  cases hdotted : (Component.items items).startsWithDot with
  | false => exact answers_of_not_dotted ht hdotted
  | true =>
    obtain ⟨back, rest, rfl, rfl, hback⟩ := (startsWithDot_iff hitems).mp hdotted
    have hne : back ≠ [] := by
      rintro rfl
      simp at hwild
    refine answers_of_dotted ht ?_
    rw [← Bool.not_eq_true, matches_dot_iff hback hne]
    rintro rfl
    exact hdot rfl

/-- What a pattern finds, seen from the directory. -/
lemma seen_found (ht : t.WellNamed) (hitems : items? none pattern = some items)
    (hwild : ∃ c ∈ pattern, c ∈ ['[', '*', '?']) (hfound : found t cwd items ≠ []) :
    if pattern = ['.', '*'] then (found t cwd items).map seen = ["..", ""]
    else Answers t cwd (Matches true items) ((found t cwd items).map seen) := by
  split_ifs with hdot
  · exact seen_found_of_dot ht (hdot ▸ hitems) hfound
  · exact answers_found ht hitems hwild hdot

/-! ## Pieces -/

/-- Only `*`, `?` and `[` are wildcards. -/
lemma mem_of_wildcard_mem_pieces {s : Session} {self : Pid} {skip : Nat} {q : Quoting}
    {cs : List Char} {c : Char} (h : .wildcard c ∈ pieces s self skip q cs) :
    c ∈ ['*', '?', '['] := by
  fun_induction pieces s self skip q cs with
  | case15 d cs _ _ _ _ hd ih =>
    obtain heq | h := List.mem_cons.mp h
    · exact Piece.wildcard.inj heq ▸ hd
    · exact ih h
  | _ => simp_all

/-- The home directory has no wildcards. -/
lemma wildcard_not_mem_tilde (s : Session) (cs : List Char) (c : Char) :
    .wildcard c ∉ (tilde s cs).1 := by
  unfold tilde
  split
  · split_ifs
    · exact fun h => nomatch List.mem_singleton.mp h
    · exact List.not_mem_nil
  · exact List.not_mem_nil

/-- The wildcards of a word are `*`, `?` and `[`. -/
lemma mem_of_wildcard_mem {s : Session} {self : Pid} {word : String} {c : Char}
    (h : .wildcard c ∈ allPieces s self word) : c ∈ ['*', '?', '['] := by
  have hall : allPieces s self word =
      (tilde s word.toList).1 ++ pieces s self 0 .bare (tilde s word.toList).2 := rfl
  obtain h | h := List.mem_append.mp (hall ▸ h)
  · exact (wildcard_not_mem_tilde s word.toList c h).elim
  · exact mem_of_wildcard_mem_pieces h

/-- What a piece asks for: its text, which stands for itself, or what its wildcard stands for.  A
bracket is no piece of its own. -/
def Piece.asked : Piece → List Item
  | .literal text => text.map .char
  | .wildcard c => if c = '*' then [.sequence] else [.any]
  | .quoted => []

/-- Items in front of others that match the same texts match the same texts. -/
lemma matches_cons_congr {rest rest' : List Item}
    (h : ∀ start cs, Matches start rest cs ↔ Matches start rest' cs) (item : Item) (start : Bool)
    (cs : List Char) : Matches start (item :: rest) cs ↔ Matches start (item :: rest') cs := by
  by_cases hitem : item = .sequence
  · subst hitem
    induction cs generalizing start with
    | nil => rw [matches_sequence_nil_iff, matches_sequence_nil_iff, h]
    | cons c cs ih => rw [matches_sequence_cons_iff, matches_sequence_cons_iff, h, ih]
  · cases cs with
    | nil => exact iff_of_false (not_matches_cons_nil hitem) (not_matches_cons_nil hitem)
    | cons c cs => rw [matches_cons_iff hitem, matches_cons_iff hitem, h]

/-- **Without a bracket, the pattern of a word matches what its pieces ask for.** -/
lemma matches_asked {ps : List Piece} (hps : ∀ c, .wildcard c ∈ ps → c ∈ ['*', '?'])
    (hitems : items? none (ps.flatMap Piece.pattern) = some items) (start : Bool)
    (cs : List Char) : Matches start items cs ↔ Matches start (ps.flatMap Piece.asked) cs := by
  induction ps generalizing items start cs with
  | nil =>
    obtain rfl := Option.some.inj hitems
    rfl
  | cons p ps ih =>
    have hrest := fun c hc => hps c (List.mem_cons_of_mem p hc)
    rw [List.flatMap_cons] at hitems ⊢
    cases p with
    | quoted => exact ih hrest hitems start cs
    | literal text =>
      rw [Piece.pattern, items?_escape, Option.map_eq_some_iff] at hitems
      obtain ⟨rest, hread, rfl⟩ := hitems
      rw [Piece.asked, matches_map_append literalItem_ne_sequence accepts_literalItem,
        matches_map_append char_ne_sequence fun _ _ _ => rfl]
      simp only [ih hrest hread]
    | wildcard c =>
      obtain ⟨item, rest, rfl, hfirst⟩ := firstItem_of_items? hitems
      have hc := hps c List.mem_cons_self
      cases hfirst with
      | char hplain => simp_all
      | any hread => exact matches_cons_congr (fun start cs => ih hrest hread start cs) .any start cs
      | sequence _ hread =>
        exact matches_cons_congr (fun start cs => ih hrest hread start cs) .sequence start cs
      | bracket => simp at hc

/-! ## Words with wildcards -/

/-- The pattern of a word has a slash only if its text has one. -/
lemma slash_not_mem_pattern {ps : List Piece} (h : '/' ∉ ps.flatMap Piece.text) :
    '/' ∉ ps.flatMap Piece.pattern := by
  intro hmem
  obtain ⟨p, hp, hslash⟩ := List.mem_flatMap.mp hmem
  refine h (List.mem_flatMap.mpr ⟨p, hp, ?_⟩)
  cases p with
  | quoted => exact hslash
  | wildcard c => exact hslash
  | literal text =>
    obtain ⟨c, hc, hescaped⟩ := List.mem_flatMap.mp hslash
    obtain rfl : c = '/' := by
      by_contra hne
      exact not_mem_escape_singleton hne (escape_singleton c ▸ hescaped)
    exact hc

/-- A wildcard of a word is a wildcard of its pattern, and a character of its text. -/
lemma exists_wildcard {s : Session} {self : Pid} {word : String}
    (h : (allPieces s self word).any Piece.isWildcard = true) :
    (∃ c ∈ (allPieces s self word).flatMap Piece.pattern, c ∈ ['[', '*', '?']) ∧
      (allPieces s self word).flatMap Piece.text ≠ [] := by
  obtain ⟨p, hp, hwild⟩ := List.any_eq_true.mp h
  cases p with
  | literal text => cases hwild
  | quoted => cases hwild
  | wildcard c =>
    have hc : c ∈ ['[', '*', '?'] := by
      have hc := mem_of_wildcard_mem hp
      simp only [List.mem_cons, List.not_mem_nil, or_false] at hc ⊢
      tauto
    refine ⟨⟨c, List.mem_flatMap.mpr ⟨_, hp, List.mem_singleton_self c⟩, hc⟩, ?_⟩
    exact List.ne_nil_of_mem (List.mem_flatMap.mpr ⟨_, hp, List.mem_singleton_self c⟩)

/-- **The fields of a word with a wildcard** and without a slash: its text, if nothing is found, and
what is found otherwise. -/
lemma expand_eq {s : Session} (ht : t.WellNamed) (hcwd : Path.isAbsolute s.cwd = true) {self : Pid}
    {word : String} (hwild : (allPieces s self word).any Piece.isWildcard = true)
    (hslash : '/' ∉ (allPieces s self word).flatMap Piece.text)
    (hstars : (allPieces s self word).flatMap Piece.pattern ≠ ['*', '*']) :
    expand s t self word =
      match (items? none ((allPieces s self word).flatMap Piece.pattern)).elim [] (found t s.cwd) with
      | [] => [String.ofList ((allPieces s self word).flatMap Piece.text)]
      | names => names.map seen := by
  obtain ⟨hpattern, htext⟩ := exists_wildcard hwild
  rw [expand]
  simp only [hwild, if_true, matchFiles_eq ht hcwd (slash_not_mem_pattern hslash) hstars hpattern]
  cases (items? none ((allPieces s self word).flatMap Piece.pattern)).elim [] (found t s.cwd) with
  | nil => simp [htext]
  | cons name names => rfl

/-- The fields of a word with a wildcard are its own text, or they answer its pattern. -/
lemma expand_cases {s : Session} (ht : t.WellNamed) (hcwd : Path.isAbsolute s.cwd = true)
    {self : Pid} {word : String} (hwild : (allPieces s self word).any Piece.isWildcard = true)
    (hslash : '/' ∉ (allPieces s self word).flatMap Piece.text)
    (hstars : (allPieces s self word).flatMap Piece.pattern ≠ ['*', '*']) :
    (expand s t self word = [String.ofList ((allPieces s self word).flatMap Piece.text)] ∧
        (∀ items, items? none ((allPieces s self word).flatMap Piece.pattern) = some items →
          ∀ name ∈ visible t s.cwd, ¬ Matches true items name.toList) ∨
      ∃ items, items? none ((allPieces s self word).flatMap Piece.pattern) = some items ∧
        expand s t self word ≠ [] ∧
        if (allPieces s self word).flatMap Piece.pattern = ['.', '*'] then
          expand s t self word = ["..", ""]
        else Answers t s.cwd (Matches true items) (expand s t self word)) := by
  rw [expand_eq ht hcwd hwild hslash hstars]
  cases hitems : items? none ((allPieces s self word).flatMap Piece.pattern) with
  | none => exact .inl ⟨rfl, nofun⟩
  | some items =>
    rw [Option.elim_some]
    cases hfound : found t s.cwd items with
    | nil =>
      refine .inl ⟨rfl, ?_⟩
      rintro items' ⟨⟩ name
      exact not_matches_of_found_eq_nil ht hfound
    | cons name names =>
      have hne : found t s.cwd items ≠ [] := hfound ▸ List.cons_ne_nil name names
      have hseen := seen_found ht hitems (exists_wildcard hwild).1 hne
      rw [hfound] at hseen
      exact .inr ⟨items, rfl, List.cons_ne_nil (seen name) _, hseen⟩

/-- Without a bare `[`, the wildcards of a word are `*` and `?`. -/
lemma mem_of_wildcard_mem_of_not_bracket {s : Session} {self : Pid} {word : String}
    (hbracket : .wildcard '[' ∉ allPieces s self word) {c : Char}
    (h : .wildcard c ∈ allPieces s self word) : c ∈ ['*', '?'] := by
  have hcases := mem_of_wildcard_mem h
  simp only [List.mem_cons, List.not_mem_nil, or_false] at hcases ⊢
  obtain hc | hc | rfl := hcases
  · exact .inl hc
  · exact .inr hc
  · exact absurd h hbracket

/-- **What a wildcard finds.**  A word with a wildcard whose text has no slash, and whose pattern is
not `**`, has its own text as its only field if its pattern is malformed or matches no name that the
directory shows; otherwise its fields are the names that match, in order, or `..`.  Only `.*` also
finds the directory itself, as an empty field in front of which `..` stands.  The pattern is what the
word asks for if it has no bare `[`, and the names are those of the current directory. -/
theorem expand_glob {s : Session} {self : Pid} {word : String} {ps : List Piece}
    (hps : allPieces s self word = ps) (ht : t.WellNamed) (hcwd : Path.isAbsolute s.cwd = true)
    (hwild : ps.any Piece.isWildcard = true) (hslash : '/' ∉ ps.flatMap Piece.text)
    (hstars : ps.flatMap Piece.pattern ≠ ['*', '*']) :
    (expand s t self word = [String.ofList (ps.flatMap Piece.text)] ∧
        (∀ items, items? none (ps.flatMap Piece.pattern) = some items →
          ∀ name ∈ visible t s.cwd, ¬ Matches true items name.toList) ∨
      ∃ items, items? none (ps.flatMap Piece.pattern) = some items ∧ expand s t self word ≠ [] ∧
        if ps.flatMap Piece.pattern = ['.', '*'] then expand s t self word = ["..", ""]
        else Answers t s.cwd (Matches true items) (expand s t self word)) ∧
    (.wildcard '[' ∉ ps → ∀ items, items? none (ps.flatMap Piece.pattern) = some items →
      ∀ text, Matches true items text ↔ Matches true (ps.flatMap Piece.asked) text) ∧
    ∀ names dir entries, s.cwd = Path.ofNames names →
      (∀ name ∈ names, FileTree.IsEntryName name ∧
        ((∃ c ∈ name.toList, c ∈ ['?', '*', '[', ']']) → ¬ ['.'] <+: name.toList)) →
      t.find s.cwd true = .ok dir → t.entries? dir = some entries →
      visible t s.cwd = (Glob.unhidden entries).map Prod.fst := by
  subst hps
  refine ⟨expand_cases ht hcwd hwild hslash hstars, fun hbracket items hitems => ?_,
    fun names dir entries hnames h hfind hentries => ?_⟩
  · exact matches_asked (fun c => mem_of_wildcard_mem_of_not_bracket hbracket) hitems true
  · rw [hnames] at hfind ⊢
    exact visible_ofNames (fun name hname => (h name hname).1) (fun name hname => (h name hname).2)
      hfind hentries

/-- A directory with a special name. -/
def starred : FileTree :=
  ⟨#[.directory 0 [("*", 1)], .directory 0 [("*x", 2), (".c", 3), ("a.c", 4), ("b.c", 5)],
    .file "" false, .file "" false, .file "" false, .file "" false]⟩

/-- In a directory with a special name, a wildcard and a quotation find the names that match. -/
theorem expand_glob_starred :
    starred.WellNamed ∧ expand (.new "/*" .empty) starred 1 "?*'.c'" = ["a.c", "b.c"] ∧
      Answers starred "/*" (Matches true [.any, .sequence, .char '.', .char 'c'])
        ["a.c", "b.c"] := by
  have htree : starred.WellNamed := by decide +kernel
  have hfields : expand (.new "/*" .empty) starred 1 "?*'.c'" = ["a.c", "b.c"] := by
    decide +kernel
  have hps : allPieces (.new "/*" .empty) 1 "?*'.c'" =
      [.wildcard '?', .wildcard '*', .quoted, .literal ['.'], .literal ['c']] := by
    decide +kernel
  obtain ⟨hanswers, -⟩ := expand_glob hps htree (by decide +kernel) (by decide) (by decide)
    (by decide)
  rw [hfields] at hanswers
  obtain ⟨htext, -⟩ | ⟨items, hitems, -, hanswers⟩ := hanswers
  · exact absurd htext (by decide)
  · obtain rfl : items = [.any, .sequence, .char '.', .char 'c'] := (Option.some.inj hitems).symm
    rw [if_neg (by decide)] at hanswers
    exact ⟨htree, hfields, hanswers⟩

/-- Two files, one of them with a bracket at the end of its name. -/
def bracketed : FileTree :=
  ⟨#[.directory 0 [("a", 1), ("a]", 2)], .file "" false, .file "" false]⟩

/-- The directory itself is found as an empty field, behind a greater one; and the bare `]` does not
close a bracket, but belongs to it and stands behind it once more. -/
theorem expand_dot_star :
    expand (.new "/" .empty) .empty 1 ".*" = ["..", ""] ∧
      ¬ ["..", ""].Pairwise (· < ·) ∧
      expand (.new "/" .empty) bracketed 1 "[ab]" = ["a]"] ∧
      ¬ Matches true [.bracket false [.single 'a', .single 'b']] "a]".toList := by
  refine ⟨by decide +kernel, by decide, by decide +kernel, ?_⟩
  rw [← matches_items_iff (by decide)]
  decide

end Conch.Word
