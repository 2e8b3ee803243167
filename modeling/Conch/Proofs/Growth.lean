import Conch.FileTree
import Mathlib.Data.List.Basic
import Mathlib.Tactic.Common

/-!
# Trees of files that grow

Directories that are made and files that are made and emptied leave every name of a tree in its
place.  So what a path has led to, it still leads to behind such changes.

## Main definitions

* `FileTree.Leads` — the meaning of a path: the node to which its steps lead.
* `FileTree.Grows` — a tree in which names have been added and files emptied.
* `Path.Above` — the paths of the directories above a path.
* `FileTree.Raises`, `FileTree.Creates` — directories have been made at some paths; a file has been
  made.
* `FileTree.Supplies` — a file has been made ready for writing.

## Main results

* `FileTree.Leads.mono` — **paths lead where they led before**.
* `FileTree.mkdirAll_raises` — directories are made at a path and above it, whether or not that
  succeeds.
* `FileTree.create_leads` — the path of a file that has been made leads to it.
-/

set_option autoImplicit false

namespace Conch

/-! ## Where paths lead -/

namespace FileTree

/-- The steps lead from a directory to a node, through links. -/
inductive Leads (t : FileTree) : NodeId → List String → NodeId → Prop where
  | here (i : NodeId) : Leads t i [] i
  | step {dir i j : NodeId} {name : String} {rest : List String} : t.enter dir name = .ok i →
      (∀ target, t.nodes[i]? ≠ some (.link target)) → Leads t i rest j →
      Leads t dir (name :: rest) j
  | link {dir i j : NodeId} {name target : String} {rest : List String} :
      t.enter dir name = .ok i → t.nodes[i]? = some (.link target) →
      Leads t (if Path.isAbsolute target then root else dir) (steps target ++ rest) j →
      Leads t dir (name :: rest) j

lemma Leads.append {t : FileTree} {i j k : NodeId} {names names' : List String}
    (h : t.Leads i names j) (h' : t.Leads j names' k) : t.Leads i (names ++ names') k := by
  induction h with
  | here => exact h'
  | step henter hnode _ ih => exact .step henter hnode (ih h')
  | link henter hnode _ ih => exact .link henter hnode (List.append_assoc .. ▸ ih h')

/-- Following steps finds the node to which they lead. -/
lemma walkWith_leads {t : FileTree} {through : NodeId → List String → Except Errno NodeId}
    (hthrough : ∀ dir names i, through dir names = .ok i → t.Leads dir names i)
    {names : List String} {dir i : NodeId} (h : t.walkWith true through dir names = .ok i) :
    t.Leads dir names i := by
  induction names generalizing dir with
  | nil =>
    obtain rfl := Except.ok.inj h
    exact .here _
  | cons name rest ih =>
    unfold walkWith at h
    cases henter : t.enter dir name with
    | error e => simp [henter, bind, Except.bind] at h
    | ok j =>
      simp only [henter, bind, Except.bind] at h
      split at h
      case h_1 target hlink =>
        rw [if_neg (by simp)] at h
        exact .link henter hlink (hthrough _ _ _ h)
      case h_2 hnode => exact .step henter hnode (ih h)

lemma walk_leads {t : FileTree} {links : Nat} {names : List String} {dir i : NodeId}
    (h : t.walk true links dir names = .ok i) : t.Leads dir names i := by
  induction links generalizing dir names i with
  | zero => exact walkWith_leads (by simp) h
  | succ links ih => exact walkWith_leads (fun _ _ _ => ih) h

end FileTree

/-! ## Trees that grow -/

/-- What may become of a node when files are opened: a directory gets more names, and a file may
lose what is in it. -/
inductive Node.Grows : Node → Node → Prop where
  | same (n : Node) : Grows n n
  | emptied (contents : Text.Octets) (executable : Bool) :
      Grows (.file contents executable) (.file "" executable)
  | extended {parent : NodeId} {entries entries' : List (String × NodeId)} :
      (∀ name i, entries.lookup name = some i → entries'.lookup name = some i) →
      Grows (.directory parent entries) (.directory parent entries')

lemma Node.Grows.trans {n n₁ n₂ : Node} (h : n.Grows n₁) (h' : n₁.Grows n₂) : n.Grows n₂ := by
  cases h with
  | same => exact h'
  | emptied contents executable => cases h' <;> exact .emptied ..
  | extended hlookup =>
    cases h' with
    | same => exact .extended hlookup
    | extended hlookup' => exact .extended fun name i hi => hlookup' _ _ (hlookup name i hi)

/-- The node is a new file or a directory. -/
inductive Node.IsNew : Node → Prop where
  | file : IsNew (.file "" false)
  | directory (parent : NodeId) (entries : List (String × NodeId)) :
      IsNew (.directory parent entries)

lemma Node.IsNew.grows {n n' : Node} (h : n.IsNew) (hn : n.Grows n') : n'.IsNew := by
  cases h <;> cases hn <;> constructor

/-- The node is a directory in which the name stands for a node. -/
def Node.Names (n : Node) (name : String) (i : NodeId) : Prop :=
  ∃ parent entries, n = .directory parent entries ∧ entries.lookup name = some i

lemma Node.not_names_file (contents : Text.Octets) (executable : Bool) (name : String)
    (i : NodeId) : ¬(Node.file contents executable).Names name i := by
  rintro ⟨_, _, heq, -⟩
  cases heq

lemma Node.not_names_nil (parent : NodeId) (name : String) (i : NodeId) :
    ¬(Node.directory parent []).Names name i := by
  rintro ⟨_, _, heq, hlookup⟩
  cases heq
  cases hlookup

lemma Node.Grows.directory {n : Node} {parent : NodeId} {entries : List (String × NodeId)}
    (h : (Node.directory parent entries).Grows n) : ∃ entries', n = .directory parent entries' := by
  cases h with
  | same => exact ⟨entries, rfl⟩
  | extended => exact ⟨_, rfl⟩

lemma Node.Grows.empty {n : Node} {executable : Bool} (h : (Node.file "" executable).Grows n) :
    n = .file "" executable := by
  cases h <;> rfl

namespace FileTree

/-- Names have been added to directories, and files may have been emptied. -/
structure Grows (t t' : FileTree) : Prop where
  node : ∀ (i : NodeId) (n : Node), t.nodes[i]? = some n → ∃ n', t'.nodes[i]? = some n' ∧ n.Grows n'
  isNew : ∀ (i : NodeId) (n : Node), t.nodes[i]? = none → t'.nodes[i]? = some n → n.IsNew
  /-- A new name stands for a new node. -/
  names : ∀ (dir i : NodeId) (n' : Node) (name : String), t'.nodes[dir]? = some n' →
    n'.Names name i → t.nodes[i]? = none ∨ ∃ n, t.nodes[dir]? = some n ∧ n.Names name i

variable {t t₁ t' : FileTree}

lemma Grows.refl (t : FileTree) : t.Grows t :=
  ⟨fun _ n h => ⟨n, h, .same n⟩, fun _ _ hnone hsome => by simp [hnone] at hsome,
    fun _ _ n _ hn hname => .inr ⟨n, hn, hname⟩⟩

/-- What is missing in the grown tree was missing before. -/
lemma Grows.none_of_none (h : t.Grows t') {i : NodeId} (hnone : t'.nodes[i]? = none) :
    t.nodes[i]? = none := by
  cases hn : t.nodes[i]? with
  | none => rfl
  | some n =>
    obtain ⟨n', hn', -⟩ := h.node i n hn
    rw [hnone] at hn'
    cases hn'

lemma Grows.trans (h : t.Grows t₁) (h' : t₁.Grows t') : t.Grows t' where
  node i n hn := by
    obtain ⟨n₁, hn₁, hgrows⟩ := h.node i n hn
    obtain ⟨n', hn', hgrows'⟩ := h'.node i n₁ hn₁
    exact ⟨n', hn', hgrows.trans hgrows'⟩
  isNew i n hnone hn := by
    cases hn₁ : t₁.nodes[i]? with
    | none => exact h'.isNew i n hn₁ hn
    | some n₁ =>
      obtain ⟨n', hn', hgrows⟩ := h'.node i n₁ hn₁
      rw [hn] at hn'
      exact Option.some.inj hn' ▸ (h.isNew i n₁ hnone hn₁).grows hgrows
  names dir i n' name hn' hname := by
    rcases h'.names dir i n' name hn' hname with hnone | ⟨n₁, hn₁, hname₁⟩
    · exact .inl (h.none_of_none hnone)
    · exact h.names dir i n₁ name hn₁ hname₁

/-- Links are neither made nor changed. -/
lemma Grows.link_iff (h : t.Grows t') {i : NodeId} {target : String} :
    t'.nodes[i]? = some (.link target) ↔ t.nodes[i]? = some (.link target) := by
  constructor
  · intro hlink
    cases hn : t.nodes[i]? with
    | none => cases h.isNew i _ hn hlink
    | some n =>
      obtain ⟨n', hn', hgrows⟩ := h.node i n hn
      rw [hlink] at hn'
      obtain rfl := Option.some.inj hn'
      cases hgrows
      rfl
  · intro hlink
    obtain ⟨n', hn', hgrows⟩ := h.node i _ hlink
    cases hgrows
    exact hn'

/-- Names stay. -/
lemma Grows.enter (h : t.Grows t') {dir i : NodeId} {name : String}
    (henter : t.enter dir name = .ok i) : t'.enter dir name = .ok i := by
  unfold FileTree.enter at henter
  split at henter
  case h_2 => cases henter
  case h_1 parent entries hdir =>
    obtain ⟨n', hn', hgrows⟩ := h.node dir _ hdir
    have hentries : ∃ entries', n' = .directory parent entries' ∧
        ∀ name i, entries.lookup name = some i → entries'.lookup name = some i := by
      cases hgrows with
      | same => exact ⟨entries, rfl, fun _ _ => id⟩
      | extended hlookup => exact ⟨_, rfl, hlookup⟩
    obtain ⟨entries', rfl, hlookup⟩ := hentries
    simp only [FileTree.enter, hn']
    cases hname : entries.lookup name with
    | none => simp only [hname] at henter; grind
    | some j => simp only [hname, hlookup _ _ hname] at henter ⊢; grind

/-- **Paths lead where they led before.** -/
lemma Leads.mono {dir i : NodeId} {names : List String} (h : t.Leads dir names i)
    (hgrows : t.Grows t') : t'.Leads dir names i := by
  induction h with
  | here => exact .here _
  | step henter hnode _ ih =>
    refine .step (hgrows.enter henter) (fun target htarget => ?_) ih
    exact hnode target (hgrows.link_iff.1 htarget)
  | link henter hnode _ ih => exact .link (hgrows.enter henter) (hgrows.link_iff.2 hnode) ih

/-- A refusal ends what would follow. -/
lemma exists_of_bind_ok {α β : Type} {x : Except Errno α} {f : α → Except Errno β} {b : β}
    (h : (x >>= f) = .ok b) : ∃ a, x = .ok a ∧ f a = .ok b := by
  cases x with
  | error e => cases h
  | ok a => exact ⟨a, rfl, h⟩

/-! ## New names -/

lemma lookup_insertEntry (name name' : String) (i : NodeId) (entries : List (String × NodeId)) :
    (insertEntry name i entries).lookup name' =
      if name' = name then some i else entries.lookup name' := by
  induction entries with
  | nil => grind [insertEntry]
  | cons entry rest ih => grind [insertEntry]

/-- A name is missing in a directory only if it can be put there. -/
lemma directory_of_noEntry {dir : NodeId} {name : String}
    (h : t.enter dir name = .error .noEntry) : ∃ parent entries,
      t.nodes[dir]? = some (.directory parent entries) ∧ entries.lookup name = none ∧
      ∀ t' : FileTree, ∀ entries' i, t'.nodes[dir]? = some (.directory parent entries') →
        entries'.lookup name = some i → t'.enter dir name = .ok i := by
  unfold FileTree.enter at h
  split at h
  case h_2 => cases h
  case h_1 parent entries hdir =>
    refine ⟨parent, entries, hdir, by grind, fun t' entries' i hdir' hlookup => ?_⟩
    simp only [FileTree.enter, hdir', hlookup]
    grind

section Add

variable {dir : NodeId} {name : String} {n : Node}

/-- The nodes behind a new one: the directory has one more name, and the others are as before. -/
lemma nodes_add {parent : NodeId} {entries : List (String × NodeId)}
    (hdir : t.nodes[dir]? = some (.directory parent entries)) (name : String) (n : Node)
    (i : NodeId) :
    (t.add dir name n).1.nodes[i]? =
      if i = dir then some (.directory parent (insertEntry name t.nodes.size entries))
      else if i = t.nodes.size then some n else t.nodes[i]? := by
  have hlt : dir < t.nodes.size := (Array.getElem?_eq_some_iff.1 hdir).1
  have hpush : (t.nodes.push n)[dir]? = some (.directory parent entries) := by
    rw [Array.getElem?_push, if_neg (Nat.ne_of_lt hlt), hdir]
  simp only [add, updateEntries, hpush]
  rw [Array.getElem?_setIfInBounds, Array.getElem?_push]
  grind

lemma grows_add (h : t.enter dir name = .error .noEntry) (hn : n.IsNew)
    (hempty : ∀ name i, ¬n.Names name i) : t.Grows (t.add dir name n).1 := by
  obtain ⟨parent, entries, hdir, hlookup, -⟩ := directory_of_noEntry h
  refine ⟨fun i n' hn' => ?_, fun i n' hnone hn' => ?_, fun i j n' name' hn' hname => ?_⟩
  · have hi : i < t.nodes.size := (Array.getElem?_eq_some_iff.1 hn').1
    rw [nodes_add hdir]
    by_cases heq : i = dir
    · rw [if_pos heq]
      subst heq
      rw [hdir] at hn'
      obtain rfl := Option.some.inj hn'
      refine ⟨_, rfl, .extended fun name' j hj => ?_⟩
      rw [lookup_insertEntry, if_neg, hj]
      rintro rfl
      simp [hlookup] at hj
    · rw [if_neg heq, if_neg (Nat.ne_of_lt hi)]
      exact ⟨n', hn', .same n'⟩
  · rw [nodes_add hdir] at hn'
    split at hn'
    case isTrue heq => rw [heq, hdir] at hnone; cases hnone
    case isFalse =>
      split at hn'
      case isTrue => exact Option.some.inj hn' ▸ hn
      case isFalse => rw [hnone] at hn'; cases hn'
  · rw [nodes_add hdir] at hn'
    split at hn'
    case isTrue heq =>
      obtain rfl := Option.some.inj hn'
      obtain ⟨parent', entries', heq', hlookup'⟩ := hname
      cases heq'
      rw [lookup_insertEntry] at hlookup'
      split at hlookup'
      case isTrue =>
        obtain rfl := Option.some.inj hlookup'
        exact .inl (by simp)
      case isFalse => exact .inr ⟨_, heq ▸ hdir, parent, entries, rfl, hlookup'⟩
    case isFalse =>
      split at hn'
      case isTrue => exact absurd (Option.some.inj hn' ▸ hname) (hempty name' j)
      case isFalse => exact .inr ⟨n', hn', hname⟩

/-- The new name leads to the new node. -/
lemma enter_add (h : t.enter dir name = .error .noEntry) (n : Node) :
    (t.add dir name n).1.enter dir name = .ok (t.add dir name n).2 := by
  obtain ⟨parent, entries, hdir, -, henter⟩ := directory_of_noEntry h
  refine henter _ (insertEntry name t.nodes.size entries) _ ?_ ?_
  · rw [nodes_add hdir, if_pos rfl]
  · rw [lookup_insertEntry, if_pos rfl]
    rfl

lemma nodes_add_self (h : t.enter dir name = .error .noEntry) (n : Node) :
    (t.add dir name n).1.nodes[(t.add dir name n).2]? = some n := by
  obtain ⟨parent, entries, hdir, -⟩ := directory_of_noEntry h
  have hlt : dir < t.nodes.size := (Array.getElem?_eq_some_iff.1 hdir).1
  have hne : t.nodes.size ≠ dir := Nat.ne_of_gt hlt
  rw [nodes_add hdir]
  simp [add, hne]

/-- No other node is new. -/
lemma eq_of_nodes_add (h : t.enter dir name = .error .noEntry) {i : NodeId} {n' : Node}
    (hnone : t.nodes[i]? = none) (hn' : (t.add dir name n).1.nodes[i]? = some n') :
    i = (t.add dir name n).2 := by
  obtain ⟨parent, entries, hdir, -⟩ := directory_of_noEntry h
  rw [nodes_add hdir] at hn'
  split at hn'
  case isTrue heq => rw [heq, hdir] at hnone; cases hnone
  case isFalse =>
    split at hn'
    case isTrue heq => exact heq
    case isFalse => rw [hnone] at hn'; cases hn'

lemma contents_add (h : t.enter dir name = .error .noEntry) (hn : n.IsNew) (i : NodeId) :
    (t.add dir name n).1.contents i = t.contents i := by
  obtain ⟨parent, entries, hdir, -⟩ := directory_of_noEntry h
  have hnone : t.nodes[t.nodes.size]? = none := by simp
  unfold contents
  rw [nodes_add hdir]
  by_cases heq : i = dir
  · simp [heq, hdir]
  · by_cases hsize : i = t.nodes.size
    · rw [if_neg heq, if_pos hsize, hsize, hnone]
      cases hn <;> rfl
    · rw [if_neg heq, if_neg hsize]

end Add

/-! ## Directories -/

/-- The last name of a path is one step behind the directory that holds it. -/
lemma lastStep_leads {dir d : NodeId} {path name : String}
    (h : t.lastStep dir path = .ok (d, name)) : ∃ names, t.Leads dir names d ∧
      steps path = names ++ [name] ++ if path.endsWith "/" then ["."] else [] := by
  unfold lastStep at h
  simp only at h
  split at h
  case h_1 => cases h
  case h_2 last hlast =>
    obtain ⟨d', hwalk, hd'⟩ := exists_of_bind_ok h
    split at hd'
    case isFalse => cases hd'
    case isTrue =>
      obtain ⟨rfl, rfl⟩ := Prod.mk.inj (Except.ok.inj hd')
      refine ⟨_, walk_leads hwalk, ?_⟩
      rw [List.dropLast_append_getLast? _ hlast]
      rfl

/-- A name that is missing at the end of a path. -/
lemma leads_of_place {path : String} {p : Place} (h : t.place path = .ok p)
    (hnode : p.node = none) : t.enter p.dir p.name = .error .noEntry ∧
      ∃ names, t.Leads root names p.dir ∧
        steps path = names ++ [p.name] ++ if path.endsWith "/" then ["."] else [] := by
  unfold place at h
  split at h
  case isTrue => cases h
  case isFalse =>
    split at h
    case isTrue => cases h
    case isFalse =>
      obtain ⟨⟨d, name⟩, hlast, hplace⟩ := exists_of_bind_ok h
      have hleads := lastStep_leads hlast
      simp only at hplace
      split at hplace
      case h_1 => obtain rfl := Except.ok.inj hplace; cases hnode
      case h_2 henter => obtain rfl := Except.ok.inj hplace; exact ⟨henter, hleads⟩
      case h_3 => cases hplace

/-- Directories have been made at some of the paths, and nothing else has changed. -/
structure Raises (t : FileTree) (paths : String → Prop) (t' : FileTree) : Prop where
  grows : t.Grows t'
  contents : ∀ i, t'.contents i = t.contents i
  isNew : ∀ (i : NodeId) (n : Node), t.nodes[i]? = none → t'.nodes[i]? = some n →
    (∃ parent entries, n = .directory parent entries) ∧
      ∃ path, paths path ∧ t'.Leads root (steps path) i

lemma Raises.refl (t : FileTree) (paths : String → Prop) : t.Raises paths t :=
  ⟨.refl t, fun _ => rfl, fun _ _ hnone hsome => by simp [hnone] at hsome⟩

lemma Raises.trans {paths : String → Prop} (h : t.Raises paths t₁) (h' : t₁.Raises paths t') :
    t.Raises paths t' where
  grows := h.grows.trans h'.grows
  contents i := (h'.contents i).trans (h.contents i)
  isNew i n hnone hn := by
    cases hn₁ : t₁.nodes[i]? with
    | none => exact h'.isNew i n hn₁ hn
    | some n₁ =>
      obtain ⟨⟨parent, entries, rfl⟩, path, hpath, hleads⟩ := h.isNew i n₁ hnone hn₁
      obtain ⟨n', hn', hgrows⟩ := h'.grows.node i _ hn₁
      rw [hn] at hn'
      obtain rfl := Option.some.inj hn'
      exact ⟨⟨parent, hgrows.directory⟩, path, hpath, hleads.mono h'.grows⟩

lemma Raises.mono {paths paths' : String → Prop} (h : t.Raises paths t')
    (hpaths : ∀ path, paths path → paths' path) : t.Raises paths' t' where
  grows := h.grows
  contents := h.contents
  isNew i n hnone hn := by
    obtain ⟨hdir, path, hpath, hleads⟩ := h.isNew i n hnone hn
    exact ⟨hdir, path, hpaths path hpath, hleads⟩

/-- A directory that has been made is where the path says. -/
lemma mkdir_raises {path : String} (h : t.mkdir path = .ok t') : t.Raises (· = path) t' := by
  obtain ⟨p, hplace, h⟩ := exists_of_bind_ok h
  split at h
  case h_1 => cases h
  case h_2 hnode =>
    obtain rfl := Except.ok.inj h
    obtain ⟨henter, names, hnames, hsteps⟩ := leads_of_place hplace hnode
    have hnew : (Node.directory p.dir []).IsNew := .directory ..
    have hgrows := grows_add henter hnew (Node.not_names_nil p.dir)
    refine ⟨hgrows, contents_add henter hnew, fun i n hnone hn => ?_⟩
    obtain rfl := eq_of_nodes_add henter hnone hn
    have hself := nodes_add_self henter (.directory p.dir [])
    rw [hself] at hn
    obtain rfl := Option.some.inj hn
    refine ⟨⟨_, _, rfl⟩, path, rfl, ?_⟩
    -- a slash at the end of the path stays in the new directory
    have hslash : (t.add p.dir p.name (.directory p.dir [])).1.Leads
        (t.add p.dir p.name (.directory p.dir [])).2 (if path.endsWith "/" then ["."] else [])
        (t.add p.dir p.name (.directory p.dir [])).2 := by
      split
      · refine .step ?_ (by simp [hself]) (.here _)
        simp [FileTree.enter, hself]
      · exact .here _
    rw [hsteps, List.append_assoc]
    refine (hnames.mono hgrows).append (.step (enter_add henter _) ?_ hslash)
    simp [hself]

end FileTree

/-- The path is that of a directory above the other: components at the end have been left out. -/
inductive Path.Above : String → String → Prop where
  | parent {above path : String} : Path.parent? path = some above → Above above path
  | further {above mid path : String} : Path.parent? path = some mid → Above above mid →
      Above above path

namespace FileTree

variable {t t₁ t' : FileTree}

/-- **Directories are made at a path and above it**, whether or not that succeeds. -/
lemma mkdirAllWith_raises (t : FileTree) (levels : Nat) (path : String) :
    t.Raises (fun p => p = path ∨ Path.Above p path) (t.mkdirAllWith levels path).2 := by
  induction levels generalizing path with
  | zero => exact .refl ..
  | succ levels ih =>
    have hmkdir {t t' : FileTree} (h : t.mkdir path = .ok t') :
        t.Raises (fun p => p = path ∨ Path.Above p path) t' :=
      (mkdir_raises h).mono fun _ => .inl
    unfold mkdirAllWith
    split
    case h_1 t' hmade => exact hmkdir hmade
    case h_3 => exact .refl ..
    case h_2 =>
      split
      case h_1 => exact .refl ..
      case h_2 above habove =>
        have hraises : t.Raises (fun p => p = path ∨ Path.Above p path)
            (t.mkdirAllWith levels above).2 := by
          refine (ih above).mono fun p hp => .inr ?_
          rcases hp with rfl | hp
          · exact .parent habove
          · exact .further habove hp
        cases hall : t.mkdirAllWith levels above with | mk refusal t₁ => ?_
        rw [hall] at hraises
        cases refusal with
        | some e => exact hraises
        | none =>
          dsimp only
          split
          case h_1 t' hmade => exact hraises.trans (hmkdir hmade)
          case h_2 => exact hraises

lemma mkdirAll_raises (t : FileTree) (path : String) :
    t.Raises (fun p => p = path ∨ Path.Above p path) (t.mkdirAll path).2 :=
  mkdirAllWith_raises ..

end FileTree

/-! ## Files -/

/-- The node is neither a directory nor a link. -/
def Node.isFile : Node → Bool
  | .directory .. | .link _ => false
  | _ => true

/-- The node without what is in it. -/
def Node.emptied : Node → Node
  | .file _ executable => .file "" executable
  | n => n

lemma Node.grows_emptied (n : Node) : n.Grows n.emptied := by
  cases n with
  | file contents executable => exact .emptied ..
  | _ => exact .same _

/-- To empty a file leaves directories alone. -/
lemma Node.names_emptied (n : Node) {name : String} {i : NodeId} :
    n.emptied.Names name i ↔ n.Names name i := by
  cases n with
  | file contents executable =>
    exact iff_of_false (Node.not_names_file "" executable name i)
      (Node.not_names_file contents executable name i)
  | _ => exact Iff.rfl

lemma Node.Grows.isFile {n n' : Node} (h : n.Grows n') (hn : n.isFile = true) :
    n'.isFile = true := by
  cases h with
  | same => exact hn
  | emptied => rfl
  | extended => cases hn

namespace FileTree

variable {t t₁ t' : FileTree}

/-- There is a file at a node, which is new if it was missing, and nothing else has changed. -/
structure Creates (t t' : FileTree) (i : NodeId) : Prop where
  grows : t.Grows t'
  contents : ∀ j, t'.contents j = t.contents j
  isFile : ∃ n : Node, t'.nodes[i]? = some n ∧ n.isFile = true
  isNew : ∀ (j : NodeId) (n : Node), t.nodes[j]? = none → t'.nodes[j]? = some n →
    j = i ∧ n = .file "" false

lemma creates_self {i : NodeId} {n : Node} (hn : t.nodes[i]? = some n) (hfile : n.isFile = true) :
    t.Creates t i :=
  ⟨.refl t, fun _ => rfl, ⟨n, hn, hfile⟩, fun _ _ hnone hsome => by simp [hnone] at hsome⟩

lemma creates_add {dir : NodeId} {name : String} (h : t.enter dir name = .error .noEntry) :
    t.Creates (t.add dir name (.file "" false)).1 (t.add dir name (.file "" false)).2 := by
  have hself := nodes_add_self h (.file "" false)
  have hgrows := grows_add h .file (Node.not_names_file "" false)
  refine ⟨hgrows, contents_add h .file, ⟨_, hself, rfl⟩, fun j n hnone hn => ?_⟩
  obtain rfl := eq_of_nodes_add h hnone hn
  rw [hself] at hn
  exact ⟨rfl, (Option.some.inj hn).symm⟩

lemma Leads.last {dir d i : NodeId} {names : List String} {name : String} {n : Node}
    (hnames : t.Leads dir names d) (henter : t.enter d name = .ok i) (hn : t.nodes[i]? = some n)
    (hfile : n.isFile = true) : t.Leads dir (names ++ [name]) i := by
  refine hnames.append (.step henter (fun target htarget => ?_) (.here _))
  rw [hn] at htarget
  cases htarget
  cases hfile

/-- The path leads to the file, where the paths of links at its end do. -/
lemma createWith_leads {through : NodeId → String → Except Errno (FileTree × NodeId)}
    {i : NodeId} (hthrough : ∀ dir path, through dir path = .ok (t', i) → t.Creates t' i ∧
      t'.Leads (if Path.isAbsolute path then root else dir) (steps path) i) {dir : NodeId}
    {path : String} (h : t.createWith through dir path = .ok (t', i)) : t.Creates t' i ∧
      t'.Leads (if Path.isAbsolute path then root else dir) (steps path) i := by
  obtain ⟨⟨d, name⟩, hlast, h⟩ := exists_of_bind_ok h
  obtain ⟨names, hnames, hsteps⟩ := lastStep_leads hlast
  simp only at h
  split at h
  case isTrue => cases h
  case isFalse hslash =>
  rw [if_neg hslash, List.append_nil] at hsteps
  rw [hsteps]
  split at h
  case h_2 => cases h
  case h_1 henter =>
    obtain ⟨rfl, rfl⟩ := Prod.mk.inj (Except.ok.inj h)
    have hcreates := creates_add henter
    exact ⟨hcreates, (hnames.mono hcreates.grows).last (enter_add henter _)
      (nodes_add_self henter _) rfl⟩
  case h_3 j henter =>
    split at h
    case h_1 => cases h
    case h_2 => cases h
    case h_3 target hlink =>
      obtain ⟨hcreates, hleads⟩ := hthrough _ _ h
      refine ⟨hcreates, (hnames.mono hcreates.grows).append ?_⟩
      have henter' := hcreates.grows.enter henter
      refine .link henter' (hcreates.grows.link_iff.2 hlink) ?_
      rwa [List.append_nil]
    case h_4 n hdirectory hlink hn =>
      obtain ⟨rfl, rfl⟩ := Prod.mk.inj (Except.ok.inj h)
      have hfile : n.isFile = true := by cases n <;> simp_all [Node.isFile]
      exact ⟨creates_self hn hfile, hnames.last henter hn hfile⟩

lemma createFrom_leads {links : Nat} {dir i : NodeId} {path : String}
    (h : t.createFrom links dir path = .ok (t', i)) : t.Creates t' i ∧
      t'.Leads (if Path.isAbsolute path then root else dir) (steps path) i := by
  induction links generalizing dir path with
  | zero => exact createWith_leads (by simp) h
  | succ links ih => exact createWith_leads (fun _ _ => ih) h

/-- **The path of a file that has been made leads to it.** -/
lemma create_leads {i : NodeId} {path : String} (h : t.create path = .ok (t', i)) :
    t.Creates t' i ∧ t'.Leads root (steps path) i := by
  unfold create at h
  split at h
  case isTrue => cases h
  case isFalse =>
  split at h
  case isTrue => cases h
  case isFalse =>
  split at h
  case isTrue => cases h
  case isFalse => simpa using createFrom_leads h

lemma nodes_setContents (t : FileTree) (i j : NodeId) :
    (t.setContents i "").nodes[j]? =
      if j = i then (t.nodes[i]?).map Node.emptied else t.nodes[j]? := by
  unfold setContents
  split
  case h_1 contents executable hi =>
    rw [Array.getElem?_setIfInBounds]
    have hlt : i < t.nodes.size := (Array.getElem?_eq_some_iff.1 hi).1
    grind [Node.emptied]
  case h_2 hi =>
    have hself : (t.nodes[i]?).map Node.emptied = t.nodes[i]? := by
      cases hn : t.nodes[i]? with
      | none => rfl
      | some n => cases n <;> first | rfl | exact absurd hn (hi _ _)
    grind

/-- A file is emptied, and nothing else changes. -/
lemma grows_setContents (t : FileTree) (i : NodeId) : t.Grows (t.setContents i "") := by
  refine ⟨fun j n hn => ?_, fun j n hnone hn => ?_, fun j k n' name hn' hname => .inr ?_⟩
  · rw [nodes_setContents]
    by_cases heq : j = i
    · subst heq
      rw [if_pos rfl, hn]
      exact ⟨_, rfl, n.grows_emptied⟩
    · rw [if_neg heq]
      exact ⟨n, hn, .same n⟩
  · rw [nodes_setContents] at hn
    grind
  · rw [nodes_setContents] at hn'
    split at hn'
    case isFalse => exact ⟨n', hn', hname⟩
    case isTrue heq =>
      obtain ⟨n, hn, rfl⟩ := Option.map_eq_some_iff.1 hn'
      exact ⟨n, heq ▸ hn, n.names_emptied.1 hname⟩

lemma contents_setContents (t : FileTree) (i j : NodeId) :
    (t.setContents i "").contents j = if j = i then "" else t.contents j := by
  unfold contents
  rw [nodes_setContents]
  by_cases heq : j = i
  · rw [if_pos heq, if_pos heq]
    cases t.nodes[i]? with
    | none => rfl
    | some n => cases n <;> rfl
  · rw [if_neg heq, if_neg heq]

/-! ## A file for writing -/

/-- The file at a node has been made ready for writing: made if it was missing, with the directories
above its path, and emptied unless what is written goes behind its contents. -/
structure Supplies (t : FileTree) (path : String) (append : Bool) (t' : FileTree) (i : NodeId) :
    Prop where
  grows : t.Grows t'
  leads : t'.Leads root (steps path) i
  isFile : ∃ n : Node, t'.nodes[i]? = some n ∧ n.isFile = true
  contents : ∀ j, t'.contents j = if append = false ∧ j = i then "" else t.contents j
  isNew : ∀ (j : NodeId) (n : Node), t.nodes[j]? = none → t'.nodes[j]? = some n →
    ((∃ parent entries, n = .directory parent entries) ∧
      ∃ above, Path.Above above path ∧ t'.Leads root (steps above) j) ∨
    (j = i ∧ n = .file "" false)

/-- A file behind new directories. -/
lemma Creates.supplies {path : String} {i : NodeId} (h : t₁.Creates t' i)
    (hraises : t.Raises (Path.Above · path) t₁) (hleads : t'.Leads root (steps path) i) :
    t.Supplies path true t' i where
  grows := hraises.grows.trans h.grows
  leads := hleads
  isFile := h.isFile
  contents j := by
    rw [h.contents, hraises.contents, if_neg (by simp)]
  isNew j n hnone hn := by
    cases hj : t₁.nodes[j]? with
    | none => exact .inr (h.isNew j n hj hn)
    | some n₁ =>
      obtain ⟨⟨parent, entries, rfl⟩, above, habove, hleads'⟩ := hraises.isNew j n₁ hnone hj
      obtain ⟨n₂, hn₂, hdir⟩ := h.grows.node j _ hj
      obtain rfl := Option.some.inj (hn₂.symm.trans hn)
      exact .inl ⟨⟨parent, hdir.directory⟩, above, habove, hleads'.mono h.grows⟩

/-- To empty the file adds nothing. -/
lemma Supplies.emptied {path : String} {i : NodeId} (h : t.Supplies path true t' i) :
    t.Supplies path false (t'.setContents i "") i where
  grows := h.grows.trans (t'.grows_setContents i)
  leads := h.leads.mono (t'.grows_setContents i)
  isFile := by
    obtain ⟨n, hn, hfile⟩ := h.isFile
    obtain ⟨n', hn', hgrows⟩ := (t'.grows_setContents i).node i n hn
    exact ⟨n', hn', hgrows.isFile hfile⟩
  contents j := by
    rw [contents_setContents, h.contents, if_neg (by simp : ¬(true = false ∧ j = i))]
    simp
  isNew j n hnone hn := by
    cases hj : t'.nodes[j]? with
    | none => rw [nodes_setContents] at hn; grind
    | some n₁ =>
      obtain ⟨n', hn', hgrows⟩ := (t'.grows_setContents i).node j n₁ hj
      obtain rfl := Option.some.inj (hn'.symm.trans hn)
      rcases h.isNew j n₁ hnone hj with ⟨⟨parent, entries, rfl⟩, above, habove, hleads⟩ | hfile
      · exact .inl ⟨⟨parent, hgrows.directory⟩, above, habove,
          hleads.mono (t'.grows_setContents i)⟩
      · obtain ⟨rfl, rfl⟩ := hfile
        exact .inr ⟨rfl, hgrows.empty⟩

end FileTree

end Conch
