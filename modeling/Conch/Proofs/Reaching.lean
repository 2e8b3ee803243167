import Mathlib.Data.List.Induction
import Mathlib.Data.String.Basic
import Conch.Proofs.Searching

/-!
# The directory at a path is reached

A path that leads to a directory, written without superfluous slashes and dots, leads a search to
the same directory, part by part: what is in front of a name on the way is a directory, and the
name is among its entries.  Only a part that is hidden and has a special character is not found,
since it is looked for among the names that are shown.

## Main definitions

* `Path.ofNames` — the path with these names.

## Main results

* `FileTree.walk_append` — what leads through a path leads to its front.
* `Glob.reach_ofNames` — **a search reaches the directory to which a path leads.**
-/

set_option autoImplicit false

namespace Conch

namespace FileTree

variable {t : FileTree}

/-! ## The front of a path -/

/-- One step, and behind a link the steps of its target. -/
lemma walkWith_cons {through : NodeId → List String → Except Errno NodeId} {dir k : NodeId}
    {name : String} (henter : t.enter dir name = .ok k) (rest : List String) :
    t.walkWith true through dir (name :: rest) = match t.nodes[k]? with
      | some (.link target) =>
        through (if Path.isAbsolute target then root else dir) (steps target ++ rest)
      | _ => t.walkWith true through k rest := by
  cases hk : t.nodes[k]? with
  | none => simp [walkWith, henter, hk, bind, Except.bind]
  | some n => cases n <;> simp [walkWith, henter, hk, bind, Except.bind]

/-- Following some steps and further ones leads through the end of the first ones. -/
lemma walkWith_append {through : NodeId → List String → Except Errno NodeId}
    (hleads : ∀ dir names i, through dir names = .ok i → t.Leads dir names i)
    (hthrough : ∀ dir names rest j, through dir (names ++ rest) = .ok j →
      ∃ i, through dir names = .ok i ∧ t.Leads i rest j)
    {names rest : List String} {dir j : NodeId}
    (h : t.walkWith true through dir (names ++ rest) = .ok j) :
    ∃ i, t.walkWith true through dir names = .ok i ∧ t.Leads i rest j := by
  induction names generalizing dir with
  | nil => exact ⟨dir, rfl, walkWith_leads hleads h⟩
  | cons name names ih =>
    obtain ⟨k, henter, -⟩ := exists_of_bind_ok h
    rw [List.cons_append, walkWith_cons henter] at h
    rw [walkWith_cons henter]
    split at h
    case h_1 target _ =>
      rw [← List.append_assoc] at h
      exact hthrough _ _ _ _ h
    case h_2 => exact ih h

/-- **What leads through a path leads to its front.** -/
lemma walk_append {links : Nat} {names rest : List String} {dir j : NodeId}
    (h : t.walk true links dir (names ++ rest) = .ok j) :
    ∃ i, t.walk true links dir names = .ok i ∧ t.Leads i rest j := by
  induction links generalizing names rest dir j with
  | zero => exact walkWith_append (by simp) (by simp) h
  | succ links ih => exact walkWith_append (fun _ _ _ => walk_leads) (fun _ _ _ _ => ih) h

/-- Where a single name leads. -/
lemma exists_enter_of_leads {i j : NodeId} {name : String} (h : t.Leads i [name] j) :
    ∃ k, t.enter i name = .ok k ∧ ((∀ target, t.nodes[k]? ≠ some (.link target)) → k = j) := by
  cases h with
  | step henter hnode hrest =>
    cases hrest
    exact ⟨_, henter, fun _ => rfl⟩
  | link henter hlink => exact ⟨_, henter, fun hnode => absurd hlink (hnode _)⟩

end FileTree

/-! ## Paths with names -/

/-- The path from the root with these names. -/
def Path.ofNames (names : List String) : String := "/" ++ "/".intercalate names

namespace Path

open FileTree (IsEntryName)

variable {names : List String} {name : String}

lemma ofNames_nil : ofNames [] = "/" := by
  rw [ofNames, String.intercalate_nil, String.append_empty]

lemma toList_ofNames (names : List String) :
    (ofNames names).toList = '/' :: ['/'].intercalate (names.map String.toList) := by
  rw [ofNames, String.toList_append, String.toList_intercalate]
  rfl

/-- A path with names ends in its last name. -/
lemma ofNames_append (h : names ≠ []) (name : String) :
    ofNames (names ++ [name]) = ofNames names ++ "/" ++ name := by
  rw [ofNames, ofNames, String.intercalate_append_of_ne_nil h (List.cons_ne_nil name []),
    String.intercalate_singleton]
  simp only [String.append_assoc]

lemma ofNames_ne_empty (names : List String) : ofNames names ≠ "" := by
  rw [ne_eq, ← String.toList_eq_nil_iff, toList_ofNames]
  exact List.cons_ne_nil _ _

/-- A path with one more name is longer. -/
lemma utf8ByteSize_ofNames_le (names : List String) (name : String) :
    (ofNames names).utf8ByteSize ≤ (ofNames (names ++ [name])).utf8ByteSize := by
  by_cases hne : names = []
  · subst hne
    rw [ofNames_nil, List.nil_append, ofNames, String.utf8ByteSize_append]
    exact Nat.le_add_right _ _
  · rw [ofNames_append hne, String.append_assoc, String.utf8ByteSize_append]
    exact Nat.le_add_right _ _

/-- A path with names does not end in a slash. -/
lemma not_slash_suffix_ofNames (h : ∀ name ∈ names, IsEntryName name) (hne : names ≠ []) :
    ¬ ['/'] <:+ (ofNames names).toList := by
  obtain ⟨front, last, rfl⟩ := (List.eq_nil_or_concat names).resolve_left hne
  rw [List.concat_eq_append] at h ⊢
  have hlast := h last (List.mem_append_right front List.mem_cons_self)
  have hchars : last.toList ≠ [] := String.toList_eq_nil_iff.not.mpr hlast.ne_empty
  by_cases hfront : front = []
  · subst hfront
    rw [List.nil_append, ofNames, String.intercalate_singleton, String.toList_append]
    exact not_slash_suffix hchars hlast.noSlash
  · rw [ofNames_append hfront, String.toList_append]
    exact not_slash_suffix hchars hlast.noSlash

/-- Going down to a name. -/
lemma join_ofNames (h : ∀ name ∈ names, IsEntryName name) (hname : '/' ∉ name.toList) :
    join (ofNames names) name = ofNames (names ++ [name]) := by
  by_cases hne : names = []
  · subst hne
    rw [ofNames_nil, ← String.toList_inj, spells_root.toList_join name hname, List.nil_append,
      toList_ofNames]
    simp
  · rw [ofNames_append hne, ← String.toList_inj, toList_join hname,
      if_neg (not_or.mpr ⟨ofNames_ne_empty names, not_slash_suffix_ofNames h hne⟩)]
    simp

/-- The parts of a path with names. -/
lemma splitSlash_ofNames (h : ∀ name ∈ names, IsEntryName name) (hne : names ≠ []) :
    splitSlash (ofNames names).toList = [] :: names.map String.toList := by
  have hparts : ∀ part ∈ names.map String.toList, '/' ∉ part :=
    List.forall_mem_map.mpr fun name hname => (h name hname).noSlash
  rw [toList_ofNames, splitSlash, splitSlash_eq_splitOn,
    List.splitOn_intercalate '/' hparts (by simpa using hne)]

/-- The steps of a path with names. -/
lemma steps_ofNames (h : ∀ name ∈ names, IsEntryName name) (hne : names ≠ []) :
    FileTree.steps (ofNames names) = names := by
  have hend : ¬ (ofNames names).endsWith "/" = true := by
    rw [endsWith_slash_iff]
    exact not_slash_suffix_ofNames h hne
  have hnames : (names.map String.toList).map String.ofList = names := by
    rw [List.map_map]
    exact (List.map_congr_left fun name _ => String.ofList_toList).trans (List.map_id names)
  have hkept : names.filter (· ≠ "") = names :=
    List.filter_eq_self.mpr fun name hname => decide_eq_true (h name hname).ne_empty
  rw [FileTree.steps, splitSlash_ofNames h hne, if_neg hend, List.append_nil, List.map_cons, hnames]
  exact hkept

end Path

namespace FileTree

variable {t : FileTree} {names : List String} {name : String}

/-- A name is entered where a directory has an entry of that name. -/
lemma exists_entries_of_enter {i k : NodeId} (h : t.enter i name = .ok k)
    (hname : IsEntryName name) : ∃ parent entries,
      t.nodes[i]? = some (.directory parent entries) ∧ entries.lookup name = some k := by
  unfold enter at h
  split at h
  case h_1 parent entries hnode =>
    rw [if_neg hname.ne_dot, if_neg hname.ne_dots] at h
    split_ifs at h
    split at h
    case h_1 k' hlookup => exact ⟨parent, entries, hnode, Except.ok.inj h ▸ hlookup⟩
    case h_2 => cases h
  case h_2 => cases h

/-- A path that leads somewhere is found step by step. -/
lemma find_ofNames_append (h : ∀ n ∈ names ++ [name], IsEntryName n) {j : NodeId}
    (hfind : t.find (Path.ofNames (names ++ [name])) true = .ok j) :
    ∃ i k, t.find (Path.ofNames names) true = .ok i ∧ t.enter i name = .ok k ∧
      ((∀ target, t.nodes[k]? ≠ some (.link target)) → k = j) := by
  rw [find] at hfind
  split_ifs at hfind with hempty hlong
  rw [Path.steps_ofNames h (by simp)] at hfind
  obtain ⟨i, hwalk, hleads⟩ := walk_append hfind
  obtain ⟨k, henter, hnode⟩ := exists_enter_of_leads hleads
  refine ⟨i, k, ?_, henter, hnode⟩
  obtain ⟨hnames, hname⟩ := List.forall_mem_append.mp h
  have hlong' : ¬ maxPath < (Path.ofNames names).utf8ByteSize := by
    have hle := Path.utf8ByteSize_ofNames_le names name
    omega
  rw [find, if_neg (by simpa using Path.ofNames_ne_empty names), if_neg hlong']
  by_cases hne : names = []
  · -- the root is found by a `.`, which a directory has
    subst hne
    obtain rfl : root = i := Except.ok.inj hwalk
    obtain ⟨parent, entries, hroot, -⟩ :=
      exists_entries_of_enter henter (hname name List.mem_cons_self)
    have hdot : t.enter root "." = .ok root := by
      rw [enter, hroot]
      exact if_pos rfl
    have hsteps : steps (Path.ofNames []) = ["."] := by
      rw [Path.ofNames_nil]
      decide +kernel
    rw [hsteps, maxLinks, walk, walkWith_cons hdot, hroot]
    rfl
  · rw [Path.steps_ofNames hnames hne, hwalk]

end FileTree

namespace Glob

open Pattern

variable {t : FileTree}

/-- An entry that is not hidden is shown. -/
lemma lookup_unhidden {entries : List (String × NodeId)} {name : String} {k : NodeId}
    (h : entries.lookup name = some k) (hvisible : ¬ ['.'] <+: name.toList)
    (f : String × NodeId → Spot) :
    ((unhidden entries).map fun e => (e.1, f e)).lookup name = some (f (name, k)) := by
  induction entries with
  | nil => cases h
  | cons e entries ih =>
    rw [List.lookup_cons] at h
    by_cases heq : name = e.1
    · obtain rfl : e.2 = k := by simpa [heq] using h
      have hshown : (!e.1.startsWith ".") = true := by
        rw [Bool.not_eq_true', ← Bool.not_eq_true, String.startsWith_string_iff, ← heq]
        exact hvisible
      rw [unhidden, List.filter_cons, if_pos hshown, List.map_cons, heq, List.lookup_cons_self]
    · have hne : (name == e.1) = false := beq_eq_false_iff_ne.mpr heq
      rw [hne] at h
      rw [unhidden, List.filter_cons]
      split_ifs
      · rw [List.map_cons, List.lookup_cons, hne]
        exact ih h
      · exact ih h

/-- A node is at its path, unless it is a link. -/
lemma entrySpot_of_find {path : String} {j k : NodeId} (hfind : t.find path true = .ok j)
    (hnode : (∀ target, t.nodes[k]? ≠ some (.link target)) → k = j) :
    entrySpot t path k = .at t path := by
  rw [Spot.at, FileTree.pathIsDirectory, FileTree.node?, hfind, entrySpot]
  split
  case h_1 hdirectory =>
    obtain rfl := hnode (by simp [hdirectory])
    simp only [hdirectory]
  case h_2 => rw [Spot.at, FileTree.pathIsDirectory, FileTree.node?, hfind]
  case h_3 hdirectory hlink =>
    obtain rfl := hnode hlink
    simp only

/-- A directory is searched for a name, where it is. -/
lemma descend_at {path name : String} {i j k : NodeId} (hname : FileTree.IsEntryName name)
    (hhidden : (∃ c ∈ name.toList, c ∈ ['?', '*', '[', ']']) → ¬ ['.'] <+: name.toList)
    (hpath : t.find path true = .ok i) (henter : t.enter i name = .ok k)
    (hnext : t.find (Path.join path name) true = .ok j)
    (hnode : (∀ target, t.nodes[k]? ≠ some (.link target)) → k = j) :
    descend t (.at t path) name.toList = some (.at t (Path.join path name)) := by
  unfold descend
  split
  case h_1 name' hliteral =>
    obtain rfl : name' = name := by
      rw [literal?_literalItem hliteral, String.ofList_toList]
    have hpresent : present t (Path.join path name') = true := by
      rw [present, hnext]
      exact Bool.or_true _
    simp only [named, hname.ne_dot, hname.ne_dots, decide_false, Bool.or_false, Bool.false_eq_true,
      if_false]
    exact if_pos hpresent
  case h_2 hliteral =>
    obtain ⟨parent, entries, hdirectory, hlookup⟩ := FileTree.exists_entries_of_enter henter hname
    have hat : (Spot.at t path).isDirectory = true := by
      rw [Spot.at, FileTree.pathIsDirectory, FileTree.node?, hpath]
      simp only [hdirectory]
    have hentries : t.entries? i = some entries :=
      FileTree.entries?_eq_some.mpr ⟨parent, hdirectory⟩
    rw [if_pos hat, children_of_find hpath, hentries, Option.getD_some, String.ofList_toList,
      lookup_unhidden hlookup (hhidden (exists_special_of_literal? hliteral))]
    exact congrArg some (entrySpot_of_find hnext hnode)

/-- **A search reaches the directory to which a path leads.** -/
lemma reach_ofNames {names : List String} (h : ∀ name ∈ names, FileTree.IsEntryName name)
    (hhidden : ∀ name ∈ names, (∃ c ∈ name.toList, c ∈ ['?', '*', '[', ']']) →
      ¬ ['.'] <+: name.toList) {j : NodeId}
    (hfind : t.find (Path.ofNames names) true = .ok j) :
    (names.map String.toList).foldlM (descend t) (.at t "/") =
      some (.at t (Path.ofNames names)) := by
  induction names using List.reverseRecOn generalizing j with
  | nil =>
    rw [Path.ofNames_nil]
    rfl
  | append_singleton names name ih =>
    obtain ⟨i, k, hpath, henter, hnode⟩ := FileTree.find_ofNames_append h hfind
    obtain ⟨hnames, hname⟩ := List.forall_mem_append.mp h
    obtain ⟨hhiddens, hlast⟩ := List.forall_mem_append.mp hhidden
    have hjoin := Path.join_ofNames hnames (hname name List.mem_cons_self).noSlash
    rw [List.map_append, List.foldlM_append, ih hnames hhiddens hpath]
    rw [← hjoin] at hfind ⊢
    rw [← descend_at (hname name List.mem_cons_self) (hlast name List.mem_cons_self) hpath henter
      hfind hnode]
    simp

end Glob

end Conch
