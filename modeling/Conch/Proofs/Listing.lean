import Mathlib.Data.String.Basic
import Conch.Program.Executable
import Conch.Proofs.Growth
import Conch.Proofs.Relative
import Conch.Proofs.Storing

/-!
# The names in a directory

A directory lists its names in order, each once, and each of them can stand for an entry in a path:
it is not empty, has no slash and is neither `.` nor `..`.  This holds of the tree that has only a
root and of the one with the installed programs, and no change of a tree ends it.

## Main definitions

* `FileTree.IsEntryName` — a name under which a directory can hold something.
* `FileTree.WellNamed` — every directory lists such names in order.

## Main results

* `FileTree.WellNamed.apply` — **changes of a tree keep the names in order.**
* `FileTree.wellNamed_installed` — the tree with the installed programs.
-/

set_option autoImplicit false

namespace Conch

open Text (Octets)

namespace FileTree

/-- A name under which a directory can hold something. -/
structure IsEntryName (name : String) : Prop where
  ne_empty : name ≠ ""
  noSlash : '/' ∉ name.toList
  ne_dot : name ≠ "."
  ne_dots : name ≠ ".."

/-- The entries are in the order of their names, and each name is one that an entry can have. -/
structure Listed (entries : List (String × NodeId)) : Prop where
  ordered : (entries.map Prod.fst).Pairwise (· < ·)
  named : ∀ name ∈ entries.map Prod.fst, IsEntryName name

/-- Every directory lists names in order. -/
def WellNamed (t : FileTree) : Prop :=
  ∀ dir entries, t.entries? dir = some entries → Listed entries

instance (name : String) : Decidable (IsEntryName name) :=
  decidable_of_iff (name ≠ "" ∧ '/' ∉ name.toList ∧ name ≠ "." ∧ name ≠ "..")
    ⟨fun ⟨hempty, hslash, hdot, hdots⟩ => ⟨hempty, hslash, hdot, hdots⟩,
      fun h => ⟨h.ne_empty, h.noSlash, h.ne_dot, h.ne_dots⟩⟩

instance (entries : List (String × NodeId)) : Decidable (Listed entries) :=
  decidable_of_iff ((entries.map Prod.fst).Pairwise (· < ·) ∧
      ∀ name ∈ entries.map Prod.fst, IsEntryName name)
    ⟨fun ⟨hordered, hnamed⟩ => ⟨hordered, hnamed⟩, fun h => ⟨h.ordered, h.named⟩⟩

variable {t t' : FileTree} {name : String} {entries : List (String × NodeId)}

/-! ## One directory -/

/-- A directory without entries. -/
lemma Listed.nil : Listed [] := ⟨List.Pairwise.nil, nofun⟩

/-- Leaving out entries keeps the order. -/
lemma Listed.filter (h : Listed entries) (p : String × NodeId → Bool) :
    Listed (entries.filter p) where
  ordered := h.ordered.sublist (List.filter_sublist.map _)
  named _ hname := h.named _ ((List.filter_sublist.map _).subset hname)

/-- The names behind a new one are that one and those before. -/
lemma mem_names_insertEntry {i : NodeId} {name' : String} :
    name' ∈ (insertEntry name i entries).map Prod.fst ↔
      name' = name ∨ name' ∈ entries.map Prod.fst := by
  induction entries with
  | nil => simp [insertEntry]
  | cons entry rest ih =>
    rw [insertEntry]
    split_ifs with hlt heq
    · simp
    · simp [heq]
    · rw [List.map_cons, List.mem_cons, ih, List.map_cons, List.mem_cons, or_left_comm]

/-- A new name is put where it belongs. -/
lemma Listed.insertEntry (h : Listed entries) (hname : IsEntryName name) (i : NodeId) :
    Listed (insertEntry name i entries) where
  ordered := by
    obtain ⟨hordered, -⟩ := h
    induction entries with
    | nil => exact List.pairwise_singleton ..
    | cons entry rest ih =>
      obtain ⟨hentry, hrest⟩ := List.pairwise_cons.mp hordered
      rw [FileTree.insertEntry]
      split_ifs with hlt heq
      · refine List.pairwise_cons.mpr ⟨fun name' hname' => ?_, hordered⟩
        obtain rfl | hname' := List.mem_cons.mp hname'
        · exact hlt
        · exact hlt.trans (hentry name' hname')
      · exact List.pairwise_cons.mpr ⟨heq ▸ hentry, hrest⟩
      · refine List.pairwise_cons.mpr ⟨fun name' hname' => ?_, ih hrest⟩
        obtain rfl | hname' := mem_names_insertEntry.mp hname'
        · exact lt_of_le_of_ne (not_lt.mp hlt) (Ne.symm heq)
        · exact hentry name' hname'
  named name' hname' := by
    obtain rfl | hname' := mem_names_insertEntry.mp hname'
    · exact hname
    · exact h.named name' hname'

/-! ## Every directory -/

/-- The entries of a directory node. -/
lemma entries?_eq_some {dir : NodeId} :
    t.entries? dir = some entries ↔ ∃ parent, t.nodes[dir]? = some (.directory parent entries) := by
  unfold entries?
  split
  case h_1 parent entries' hnode => simp [hnode]
  case h_2 hnode =>
    refine iff_of_false nofun ?_
    rintro ⟨parent, hnode'⟩
    exact hnode parent entries hnode'

instance (t : FileTree) : Decidable t.WellNamed :=
  decidable_of_iff (∀ dir < t.nodes.size, ∀ entries ∈ t.entries? dir, Listed entries)
    ⟨fun h dir entries hentries => by
      obtain ⟨parent, hnode⟩ := entries?_eq_some.mp hentries
      exact h dir (Array.getElem?_eq_some_iff.mp hnode).1 entries hentries,
    fun h dir _ entries hentries => h dir entries hentries⟩

/-! ## Changes of a tree -/

/-- The tree that has only a root. -/
lemma wellNamed_empty : empty.WellNamed := by
  intro dir entries h
  obtain ⟨parent, hnode⟩ := entries?_eq_some.mp h
  rw [empty, List.getElem?_toArray, List.getElem?_singleton] at hnode
  split_ifs at hnode
  cases hnode
  exact .nil

lemma WellNamed.updateEntries (h : t.WellNamed) (dir : NodeId)
    {f : List (String × NodeId) → List (String × NodeId)}
    (hf : ∀ entries, Listed entries → Listed (f entries)) : (t.updateEntries dir f).WellNamed := by
  unfold FileTree.updateEntries
  split
  case h_2 => exact h
  case h_1 parent entries hnode =>
    intro i entries' hi
    obtain ⟨parent', hi⟩ := entries?_eq_some.mp hi
    rw [Array.getElem?_setIfInBounds] at hi
    split_ifs at hi
    · cases hi
      exact hf _ (h dir entries (entries?_eq_some.mpr ⟨parent, hnode⟩))
    · exact h i entries' (entries?_eq_some.mpr ⟨parent', hi⟩)

/-- A new node under a name that an entry can have. -/
lemma WellNamed.add (h : t.WellNamed) (dir : NodeId) (hname : IsEntryName name) {n : Node}
    (hn : ∀ parent entries, n = .directory parent entries → Listed entries) :
    (t.add dir name n).1.WellNamed := by
  have hpush : FileTree.WellNamed ⟨t.nodes.push n⟩ := by
    intro i entries hi
    obtain ⟨parent, hi⟩ := entries?_eq_some.mp hi
    rw [Array.getElem?_push] at hi
    split_ifs at hi
    · exact hn parent entries (Option.some.inj hi)
    · exact h i entries (entries?_eq_some.mpr ⟨parent, hi⟩)
  exact hpush.updateEntries dir fun entries hentries => hentries.insertEntry hname _

lemma WellNamed.remove (h : t.WellNamed) (dir : NodeId) (name : String) :
    (t.remove dir name).WellNamed :=
  h.updateEntries dir fun _ hentries => hentries.filter _

/-- Contents have no names in them. -/
lemma WellNamed.setContents (h : t.WellNamed) (i : NodeId) (contents : Octets) :
    (t.setContents i contents).WellNamed := by
  intro dir entries hdir
  obtain ⟨parent, hnode⟩ := entries?_eq_some.mp hdir
  have hsame := t.getElem?_setContents_of_ne i dir contents
    (n := .directory parent entries) (by simp)
  exact h dir entries (entries?_eq_some.mpr ⟨parent, hsame.mp hnode⟩)

/-- The last name of a path is one of its steps; it is not empty and has no slash. -/
lemma of_lastStep {dir d : NodeId} {path : String} (h : t.lastStep dir path = .ok (d, name)) :
    name ∈ steps path ∧ name ≠ "" ∧ '/' ∉ name.toList := by
  unfold lastStep at h
  simp only at h
  split at h
  case h_1 => cases h
  case h_2 last hlast =>
    obtain ⟨d', -, hd'⟩ := exists_of_bind_ok h
    split_ifs at hd'
    obtain ⟨-, rfl⟩ := Prod.mk.inj (Except.ok.inj hd')
    obtain ⟨hmem, hne⟩ := List.mem_filter.mp (List.mem_of_getLast? hlast)
    obtain ⟨part, hpart, rfl⟩ := List.mem_map.mp hmem
    refine ⟨List.mem_append_left _ (List.mem_of_getLast? hlast), of_decide_eq_true hne, ?_⟩
    rw [String.toList_ofList]
    exact Path.not_mem_of_mem_splitSlash hpart

/-- A name that is missing at the end of a path is one that an entry can have. -/
lemma isEntryName_of_lastStep {dir d : NodeId} {path : String}
    (h : t.lastStep dir path = .ok (d, name)) (henter : t.enter d name = .error .noEntry) :
    IsEntryName name := by
  obtain ⟨-, hne, hslash⟩ := of_lastStep h
  obtain ⟨parent, entries, hnode, -⟩ := directory_of_noEntry henter
  refine ⟨hne, hslash, ?_, ?_⟩
  · rintro rfl
    simp [enter, hnode] at henter
  · rintro rfl
    simp [enter, hnode] at henter

/-- The entry that is missing at a path has a name that an entry can have. -/
lemma isEntryName_of_place {path : String} {p : Place} (h : t.place path = .ok p)
    (hnode : p.node = none) : IsEntryName p.name := by
  unfold place at h
  split_ifs at h
  obtain ⟨⟨d, name⟩, hlast, hplace⟩ := exists_of_bind_ok h
  simp only at hplace
  split at hplace
  case h_1 => obtain rfl := Except.ok.inj hplace; cases hnode
  case h_2 henter =>
    obtain rfl := Except.ok.inj hplace
    exact isEntryName_of_lastStep hlast henter
  case h_3 => cases hplace

lemma WellNamed.mkdir {path : String} (h : t.WellNamed) (ht' : t.mkdir path = .ok t') :
    t'.WellNamed := by
  obtain ⟨p, hplace, hmade⟩ := exists_of_bind_ok ht'
  split at hmade
  case h_1 => cases hmade
  case h_2 hnode =>
    obtain rfl := Except.ok.inj hmade
    refine h.add p.dir (isEntryName_of_place hplace hnode) ?_
    rintro parent entries ⟨⟩
    exact .nil

lemma WellNamed.symlink {path target : String} (h : t.WellNamed)
    (ht' : t.symlink path target = .ok t') : t'.WellNamed := by
  obtain ⟨p, hplace, hmade⟩ := exists_of_bind_ok ht'
  split at hmade
  case h_1 => cases hmade
  case h_2 hnode =>
    obtain rfl := Except.ok.inj hmade
    exact h.add p.dir (isEntryName_of_place hplace hnode) nofun

lemma WellNamed.unlink {path : String} (h : t.WellNamed) (ht' : t.unlink path = .ok t') :
    t'.WellNamed := by
  obtain ⟨p, -, hgone⟩ := exists_of_bind_ok ht'
  split at hgone
  case h_1 => cases hgone
  case h_2 =>
    split_ifs at hgone
    obtain rfl := Except.ok.inj hgone
    exact h.remove p.dir p.name

lemma WellNamed.rmdir {path : String} (h : t.WellNamed) (ht' : t.rmdir path = .ok t') :
    t'.WellNamed := by
  obtain ⟨p, -, hgone⟩ := exists_of_bind_ok ht'
  split at hgone
  case h_1 => cases hgone
  case h_2 =>
    split at hgone
    case h_1 => cases hgone
    case h_2 =>
      split_ifs at hgone
      obtain rfl := Except.ok.inj hgone
      exact h.remove p.dir p.name

lemma WellNamed.createWith {through : NodeId → String → Except Errno (FileTree × NodeId)}
    (h : t.WellNamed)
    (hthrough : ∀ dir path r, through dir path = .ok r → r.1.WellNamed) {dir : NodeId}
    {path : String} {r : FileTree × NodeId} (hr : t.createWith through dir path = .ok r) :
    r.1.WellNamed := by
  obtain ⟨⟨d, name⟩, hlast, hmade⟩ := exists_of_bind_ok hr
  simp only at hmade
  split at hmade
  case isTrue => cases hmade
  case isFalse =>
  split at hmade
  case h_1 henter =>
    obtain rfl := Except.ok.inj hmade
    exact h.add d (isEntryName_of_lastStep hlast henter) nofun
  case h_2 => cases hmade
  case h_3 i _ =>
    split at hmade
    case h_1 => cases hmade
    case h_2 => cases hmade
    case h_3 => exact hthrough _ _ _ hmade
    case h_4 => exact Except.ok.inj hmade ▸ h

lemma WellNamed.create {path : String} (h : t.WellNamed) {r : FileTree × NodeId}
    (hr : t.create path = .ok r) : r.1.WellNamed := by
  have hfrom : ∀ (links : Nat) (dir : NodeId) (path : String) (r : FileTree × NodeId),
      t.createFrom links dir path = .ok r → r.1.WellNamed := by
    intro links
    induction links with
    | zero => exact fun _ _ _ => h.createWith fun _ _ _ hloop => by cases hloop
    | succ links ih => exact fun _ _ _ => h.createWith ih
  unfold FileTree.create at hr
  split_ifs at hr
  exact hfrom _ _ _ _ hr

lemma WellNamed.mkdirAllWith (h : t.WellNamed) (levels : Nat) (path : String) :
    (t.mkdirAllWith levels path).2.WellNamed := by
  induction levels generalizing path with
  | zero => exact h
  | succ levels ih =>
    unfold FileTree.mkdirAllWith
    split
    case h_1 t' hmade => exact h.mkdir hmade
    case h_3 => exact h
    case h_2 =>
      split
      case h_1 => exact h
      case h_2 above _ =>
        have habove := ih above
        cases hall : t.mkdirAllWith levels above with | mk refusal t₁ => ?_
        rw [hall] at habove
        cases refusal with
        | some e => exact habove
        | none =>
          dsimp only
          split
          case h_1 t' hmade => exact habove.mkdir hmade
          case h_2 => exact habove

/-- What is refused leaves the tree as it is. -/
lemma WellNamed.settled (h : t.WellNamed) {x : Except Errno FileTree}
    (hx : ∀ t', x = .ok t' → t'.WellNamed) : (t.settled x).2.WellNamed := by
  cases x with
  | error e => exact h
  | ok t' => exact hx t' rfl

/-- **Changes of a tree keep the names of its directories in order.** -/
lemma WellNamed.apply (h : t.WellNamed) (e : Edit) : (t.apply e).2.WellNamed := by
  unfold FileTree.apply
  split_ifs
  · exact h
  cases e with
  | mkdir path => exact h.settled fun _ => h.mkdir
  | mkdirAll path =>
    have hsame : (t.change (.mkdirAll path)).2 = (t.mkdirAll path).2 := by
      rw [change]
      cases t.mkdirAll path with | mk refusal t' => cases refusal <;> rfl
    exact hsame ▸ h.mkdirAllWith _ path
  | rmdir path => exact h.settled fun _ => h.rmdir
  | unlink path => exact h.settled fun _ => h.unlink
  | create path =>
    refine h.settled fun t' ht' => ?_
    obtain ⟨r, hr, hback⟩ := exists_of_bind_ok ht'
    exact Except.ok.inj hback ▸ h.create hr
  | append path data =>
    refine h.settled fun t' ht' => ?_
    obtain ⟨r, hr, hback⟩ := exists_of_bind_ok ht'
    exact Except.ok.inj hback ▸ (h.create hr).setContents _ _
  | replace path data =>
    refine h.settled fun t' ht' => ?_
    obtain ⟨r, hr, hback⟩ := exists_of_bind_ok ht'
    exact Except.ok.inj hback ▸ (h.create hr).setContents _ _

/-- The name at the end of a path without dots is one that an entry can have. -/
lemma isEntryName_of_place_of_not_mem {path : String} {p : Place} (h : t.place path = .ok p)
    (hdots : "." ∉ steps path ∧ ".." ∉ steps path) : IsEntryName p.name := by
  unfold place at h
  split_ifs at h
  obtain ⟨⟨d, name⟩, hlast, hplace⟩ := exists_of_bind_ok h
  obtain ⟨hmem, hne, hslash⟩ := of_lastStep hlast
  have hname : IsEntryName name :=
    ⟨hne, hslash, fun heq => hdots.1 (heq ▸ hmem), fun heq => hdots.2 (heq ▸ hmem)⟩
  simp only at hplace
  split at hplace
  case h_1 => exact Except.ok.inj hplace ▸ hname
  case h_2 => exact Except.ok.inj hplace ▸ hname
  case h_3 => cases hplace

/-- Installing something that is no directory. -/
lemma install_of_ne (t : FileTree) (path : String) {n : Node}
    (hn : ∀ parent entries, n ≠ .directory parent entries) :
    ∃ t', (t' = t ∨ ∃ above, t' = (t.apply (.mkdirAll above)).2) ∧
      t.install path n = match t'.place path with
        | .ok p => (t'.add p.dir p.name n).1
        | .error _ => t' := by
  refine ⟨(Path.parent? path).elim t fun above => (t.apply (.mkdirAll above)).2, ?_, ?_⟩
  · cases Path.parent? path with
    | some above => exact .inr ⟨above, rfl⟩
    | none => exact .inl rfl
  · cases n with
    | directory parent entries => exact absurd rfl (hn parent entries)
    | _ =>
      unfold install
      cases Path.parent? path <;> rfl

/-- **Installing something keeps the names in order**, where no dots are in its path. -/
lemma WellNamed.install (h : t.WellNamed) {path : String}
    (hdots : "." ∉ steps path ∧ ".." ∉ steps path) (n : Node) : (t.install path n).WellNamed := by
  by_cases hn : ∀ parent entries, n ≠ .directory parent entries
  · obtain ⟨t', ht', hinstall⟩ := install_of_ne t path hn
    have habove : t'.WellNamed := by
      obtain rfl | ⟨above, rfl⟩ := ht'
      · exact h
      · exact h.apply _
    rw [hinstall]
    cases hplace : t'.place path with
    | error e => exact habove
    | ok p =>
      have hname := isEntryName_of_place_of_not_mem hplace hdots
      exact habove.add p.dir hname fun parent entries heq => absurd heq (hn parent entries)
  · obtain ⟨parent, entries, rfl⟩ : ∃ parent entries, n = .directory parent entries := by
      simpa using hn
    exact h.apply _

/-- The tree that holds the installed programs. -/
lemma wellNamed_installed : Program.installed.WellNamed := by
  have hdevices : ("." ∉ steps "/dev/null" ∧ ".." ∉ steps "/dev/null") ∧
      ("." ∉ steps "/dev/full" ∧ ".." ∉ steps "/dev/full") := by
    decide +kernel
  have hprograms : ∀ name ∈ Program.names,
      "." ∉ steps ("/usr/bin/" ++ name) ∧ ".." ∉ steps ("/usr/bin/" ++ name) := by
    decide +kernel
  have hdirectories : ∀ path ∈ Program.directories, "." ∉ steps path ∧ ".." ∉ steps path := by
    decide +kernel
  unfold Program.installed
  refine List.foldlRecOn _ _ ?_ fun t ht path hpath => ht.install (hdirectories path hpath) _
  refine WellNamed.install (WellNamed.install ?_ hdevices.1 _) hdevices.2 _
  refine List.foldlRecOn _ _ ?_ fun t ht name hname => ht.install (hprograms name hname) _
  exact wellNamed_empty.install (by decide +kernel) _

end FileTree

end Conch
