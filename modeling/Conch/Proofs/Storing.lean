import Conch.FileTree.Edit
import Conch.Proofs.Growth

/-!
# What a file holds

A file that is written to at a path holds what was written when it is read at that path.  The path
is followed twice, once to write and once to read, and leads to the same file: a file that is made
takes no name away, and contents do not matter for the way.

## Main definitions

* `FileTree.Holds` — what can be read at a path, where nothing is no file.

## Main results

* `FileTree.walk_of_leads` — following steps that lead to a node finds it, unless there are too many
  links on the way.
* `FileTree.find_setContents` — paths lead where they led before a file was written.
* `FileTree.Holds.apply_append`, `FileTree.Holds.apply_replace` — **what was written is there**.
-/

set_option autoImplicit false

namespace Conch

open Text (Octets)

namespace FileTree

variable {t t' : FileTree}

/-! ## Finding what a path leads to -/

/-- Following steps that lead to a node finds it, where following them behind a link does. -/
lemma walkWith_of_leads {through : NodeId → List String → Except Errno NodeId} {i : NodeId}
    (hthrough : ∀ dir names, t.Leads dir names i →
      through dir names = .ok i ∨ through dir names = .error .loop)
    {dir : NodeId} {names : List String} (h : t.Leads dir names i) :
    t.walkWith true through dir names = .ok i ∨
      t.walkWith true through dir names = .error .loop := by
  induction h with
  | here => exact .inl rfl
  | @step dir j k name rest henter hnode _ ih =>
    have hwalk : t.walkWith true through dir (name :: rest) = t.walkWith true through j rest := by
      rw [walkWith, henter]
      simp only [bind, Except.bind]
    rw [hwalk]
    exact ih hthrough
  | @link dir j k name target rest henter hnode hleads _ =>
    have hwalk : t.walkWith true through dir (name :: rest) =
        through (if Path.isAbsolute target then root else dir) (steps target ++ rest) := by
      rw [walkWith, henter]
      simp only [bind, Except.bind, hnode, Bool.not_true, Bool.and_false, Bool.false_eq_true,
        if_false]
    rw [hwalk]
    exact hthrough _ _ hleads

/-- **Following steps that lead to a node finds it**, unless there are too many links on the
way. -/
lemma walk_of_leads (links : Nat) {dir i : NodeId} {names : List String}
    (h : t.Leads dir names i) :
    t.walk true links dir names = .ok i ∨ t.walk true links dir names = .error .loop := by
  induction links generalizing dir names with
  | zero => exact walkWith_of_leads (fun _ _ _ => .inr rfl) h
  | succ links ih => exact walkWith_of_leads (fun _ _ => ih) h

/-- A path at which a file can be made is looked up by its steps. -/
lemma find_of_create {path : String} {r : FileTree × NodeId} (h : t.create path = .ok r)
    (t₁ : FileTree) : t₁.find path true = t₁.walk true maxLinks root (steps path) := by
  unfold create at h
  split_ifs at h with hempty hlong
  rw [find, if_neg hempty, if_neg hlong]

/-! ## Making a file -/

/-- A file that is made is empty, and is no node of the tree before. -/
def Fresh (t t' : FileTree) (i : NodeId) : Prop :=
  t.nodes[i]? = none ∧ t'.nodes[i]? = some (.file "" false)

lemma createWith_self_or_fresh
    {through : NodeId → String → Except Errno (FileTree × NodeId)} {i : NodeId}
    (hthrough : ∀ dir path, through dir path = .ok (t', i) → t' = t ∨ t.Fresh t' i)
    {dir : NodeId} {path : String} (h : t.createWith through dir path = .ok (t', i)) :
    t' = t ∨ t.Fresh t' i := by
  obtain ⟨⟨d, name⟩, -, h⟩ := exists_of_bind_ok h
  simp only at h
  split at h
  case isTrue => cases h
  case isFalse =>
  split at h
  case h_2 => cases h
  case h_1 henter =>
    obtain ⟨rfl, rfl⟩ := Prod.mk.inj (Except.ok.inj h)
    exact .inr ⟨Array.getElem?_eq_none (Nat.le_refl _), nodes_add_self henter _⟩
  case h_3 j _ =>
    split at h
    case h_1 => cases h
    case h_2 => cases h
    case h_3 => exact hthrough _ _ h
    case h_4 => exact .inl (Prod.mk.inj (Except.ok.inj h)).1.symm

/-- A file that a path names was there, or it is made. -/
lemma create_self_or_fresh {path : String} {i : NodeId} (h : t.create path = .ok (t', i)) :
    t' = t ∨ t.Fresh t' i := by
  have hfrom : ∀ (links : Nat) (dir : NodeId) (path : String),
      t.createFrom links dir path = .ok (t', i) → t' = t ∨ t.Fresh t' i := by
    intro links
    induction links with
    | zero => exact fun _ _ => createWith_self_or_fresh (fun _ _ h => by cases h)
    | succ links ih => exact fun _ _ => createWith_self_or_fresh ih
  unfold create at h
  split_ifs at h
  exact hfrom _ _ _ h

/-! ## Writing to a file -/

end FileTree

/-- The node with other contents, if it is a regular file. -/
def Node.filled (contents : Octets) : Node → Node
  | .file _ executable => .file contents executable
  | n => n

namespace FileTree

variable {t t' : FileTree}

/-- Writing to a file changes its node only. -/
lemma getElem?_setContents (t : FileTree) (i j : NodeId) (contents : Octets) :
    (t.setContents i contents).nodes[j]? =
      if j = i then (t.nodes[i]?).map (Node.filled contents) else t.nodes[j]? := by
  unfold setContents
  split
  case h_1 old executable hi =>
    have hlt : i < t.nodes.size := (Array.getElem?_eq_some_iff.1 hi).1
    rw [Array.getElem?_setIfInBounds]
    by_cases heq : j = i
    · rw [if_pos heq.symm, if_pos hlt, if_pos heq, hi, Option.map_some, Node.filled]
    · rw [if_neg (Ne.symm heq), if_neg heq]
  case h_2 hi =>
    have hself : (t.nodes[i]?).map (Node.filled contents) = t.nodes[i]? := by
      cases hn : t.nodes[i]? with
      | none => rfl
      | some n => cases n <;> first | rfl | exact absurd hn (hi _ _)
    by_cases heq : j = i
    · rw [if_pos heq, hself, heq]
    · rw [if_neg heq]

/-- What is no regular file is not written to. -/
lemma getElem?_setContents_of_ne (t : FileTree) (i j : NodeId) (contents : Octets) {n : Node}
    (hn : ∀ contents executable, n ≠ .file contents executable) :
    (t.setContents i contents).nodes[j]? = some n ↔ t.nodes[j]? = some n := by
  rw [getElem?_setContents]
  by_cases heq : j = i
  · rw [if_pos heq, heq]
    cases t.nodes[i]? with
    | none => exact Iff.rfl
    | some n' =>
      cases n' <;> simp only [Option.map_some, Node.filled, Option.some.injEq]
      exact iff_of_false (fun h => hn _ _ h.symm) (fun h => hn _ _ h.symm)
  · rw [if_neg heq]

/-- Names do not depend on contents. -/
lemma enter_setContents (t : FileTree) (i dir : NodeId) (contents : Octets) (name : String) :
    (t.setContents i contents).enter dir name = t.enter dir name := by
  have hdir (parent : NodeId) (entries : List (String × NodeId)) :=
    t.getElem?_setContents_of_ne i dir contents (n := .directory parent entries) (by simp)
  unfold enter
  split
  case h_1 parent entries hnode => rw [(hdir parent entries).mp hnode]
  case h_2 hnode =>
    split
    case h_1 parent entries hnode' =>
      exact absurd ((hdir parent entries).mpr hnode') (hnode parent entries)
    case h_2 => rfl

/-- Following steps does not depend on contents, where going on behind a link does not. -/
lemma walkWith_setContents (t : FileTree) (i : NodeId) (contents : Octets) (last : Bool)
    (through : NodeId → List String → Except Errno NodeId) (dir : NodeId) (names : List String) :
    (t.setContents i contents).walkWith last through dir names =
      t.walkWith last through dir names := by
  induction names generalizing dir with
  | nil => rfl
  | cons name rest ih =>
    rw [walkWith, walkWith, enter_setContents]
    cases t.enter dir name with
    | error e => rfl
    | ok j =>
      have hlink (target : String) :=
        t.getElem?_setContents_of_ne i j contents (n := .link target) (by simp)
      simp only [bind, Except.bind, ih]
      split
      case h_1 target hnode => rw [(hlink target).mp hnode]
      case h_2 hnode =>
        split
        case h_1 target hnode' => exact absurd ((hlink target).mpr hnode') (hnode target)
        case h_2 => rfl

/-- **Paths lead where they led before a file was written.** -/
lemma find_setContents (t : FileTree) (i : NodeId) (contents : Octets) (path : String)
    (follow : Bool) : (t.setContents i contents).find path follow = t.find path follow := by
  have hwalk (links : Nat) :
      (t.setContents i contents).walk follow links = t.walk follow links := by
    funext dir names
    induction links generalizing dir names with
    | zero => exact t.walkWith_setContents i contents follow _ dir names
    | succ links ih =>
      have hsame : (t.setContents i contents).walk follow links = t.walk follow links := by
        funext dir names
        exact ih dir names
      rw [walk, walk, hsame]
      exact t.walkWith_setContents i contents follow _ dir names
  rw [find, find, hwalk]

/-! ## Reading what was written -/

/-- What a regular file at a path holds; nothing if there is no such file. -/
inductive Holds (t : FileTree) (path : String) : Option Octets → Prop where
  | missing : t.find path true = .error .noEntry → Holds t path none
  | file {i : NodeId} {contents : Octets} {executable : Bool} : t.find path true = .ok i →
      t.nodes[i]? = some (.file contents executable) → Holds t path (some contents)

/-- What is held is read. -/
lemma Holds.read? {path : String} {c : Option Octets} (h : t.Holds path c) :
    t.read? path = c := by
  cases h with
  | missing hfind => simp only [FileTree.read?, node?, hfind]
  | file hfind hnode => simp only [FileTree.read?, node?, hfind, hnode]

/-- A path that can be looked up behind making a file leads to that file, and the file holds what
was held before. -/
lemma Holds.create {path : String} {c : Option Octets} {i : NodeId} (h : t.Holds path c)
    (hcreate : t.create path = .ok (t', i)) (hloop : t'.find path true ≠ .error .loop) :
    t'.find path true = .ok i ∧
      ∃ executable, t'.nodes[i]? = some (.file (c.getD "") executable) := by
  obtain ⟨hcreates, hleads⟩ := create_leads hcreate
  have hfind (t₁ : FileTree) := find_of_create hcreate t₁
  have hok : ∀ j, t'.Leads root (steps path) j → t'.find path true = .ok j := fun j hj => by
    rw [hfind] at hloop ⊢
    exact (walk_of_leads maxLinks hj).resolve_right hloop
  refine ⟨hok i hleads, ?_⟩
  cases h with
  | missing hmissing =>
    rcases create_self_or_fresh hcreate with rfl | ⟨-, hfresh⟩
    · rw [hok i hleads] at hmissing
      cases hmissing
    · exact ⟨false, hfresh⟩
  | @file j contents executable hfile hnode =>
    -- the path still leads to the old file, and to the one that can be written to
    rw [hfind] at hfile
    have hold := hok j ((walk_leads hfile).mono hcreates.grows)
    rw [hok i hleads] at hold
    obtain rfl := Except.ok.inj hold
    obtain ⟨n', hn', hgrows⟩ := hcreates.grows.node i _ hnode
    have hsame := hcreates.contents i
    rw [FileTree.contents, FileTree.contents, hnode, hn'] at hsame
    cases hgrows with
    | same => exact ⟨executable, hn'⟩
    | emptied =>
      obtain rfl : "" = contents := hsame
      exact ⟨executable, hn'⟩

/-- What is written to a file that was made ready for it is there. -/
lemma Holds.write {path : String} {c : Option Octets} {i : NodeId} (h : t.Holds path c)
    (hcreate : t.create path = .ok (t', i)) {contents : Octets}
    (hloop : (t'.setContents i contents).find path true ≠ .error .loop) :
    t'.contents i = c.getD "" ∧ (t'.setContents i contents).Holds path (some contents) := by
  rw [find_setContents] at hloop
  obtain ⟨hfind, executable, hnode⟩ := h.create hcreate hloop
  have hfind' : (t'.setContents i contents).find path true = .ok i := by
    rw [find_setContents, hfind]
  have hnode' : (t'.setContents i contents).nodes[i]? = some (.file contents executable) := by
    rw [getElem?_setContents, if_pos rfl, hnode, Option.map_some, Node.filled]
  exact ⟨by rw [FileTree.contents, hnode], .file hfind' hnode'⟩

/-- A change that is made leaves the tree that it leads to. -/
lemma settled_ok {x : Except Errno FileTree} (h : t.settled x = (.ok (), t')) : x = .ok t' := by
  cases x with
  | error e => cases h
  | ok t₁ => exact congrArg Except.ok (congrArg Prod.snd h)

/-- A change that is made has a path that can be named. -/
lemma change_of_apply {e : Edit} (h : t.apply e = (.ok (), t')) : t.change e = (.ok (), t') := by
  rw [apply] at h
  split_ifs at h with hnul
  · cases h
  · exact h

/-- **What was added is there**, behind what was there before. -/
theorem Holds.apply_append {path : String} {c : Option Octets} {data : Octets}
    (h : t.Holds path c) (happly : t.apply (.append path data) = (.ok (), t'))
    (hloop : t'.find path true ≠ .error .loop) : t'.Holds path (some (c.getD "" ++ data)) := by
  obtain ⟨⟨t₁, i⟩, hcreate, hset⟩ := exists_of_bind_ok (settled_ok (change_of_apply happly))
  obtain rfl := Except.ok.inj hset
  obtain ⟨hcontents, hholds⟩ := h.write hcreate hloop
  rw [← hcontents]
  exact hholds

/-- **What was written is there**, and nothing else. -/
theorem Holds.apply_replace {path : String} {c : Option Octets} {data : Octets}
    (h : t.Holds path c) (happly : t.apply (.replace path data) = (.ok (), t'))
    (hloop : t'.find path true ≠ .error .loop) : t'.Holds path (some data) := by
  obtain ⟨⟨t₁, i⟩, hcreate, hset⟩ := exists_of_bind_ok (settled_ok (change_of_apply happly))
  obtain rfl := Except.ok.inj hset
  exact (h.write hcreate hloop).2

end FileTree

end Conch
