import Conch.Machine.Answer
import Conch.Proofs.Growth
import Conch.Proofs.Runs

/-!
# Files that are opened

To open files is not without traces: files are made and emptied, and directories are made above
them.  Here is what requests to open files, one after the other, leave behind on a machine: every
file that has been opened is still open and where its path leads, and nothing has changed but for
the files that were opened for writing and the directories above them.

## Main definitions

* `Conch.openedFiles` — the files that a run has opened, read off its exchanges.
* `Machine.Gives` — the machine answers requests, one after the other.
* `Machine.Opens` — what requests to open files have left behind.

## Main results

* `Machine.Opens.append` — what has been opened first is still there when more has been opened.
* `Machine.opens_openInput`, `Machine.opens_openOutput` — opening one file.
* `Machine.opens_of_gives` — **what opening files leaves behind**.
-/

set_option autoImplicit false

namespace Conch

/-- The file that the exchange has opened. -/
def Exchange.openedFile : Exchange → Option FileId
  | ⟨.openInput _, .ok f⟩ => some f
  | ⟨.openOutput .., .ok f⟩ => some f
  | _ => none

/-- The files that a run has opened, in order. -/
def openedFiles (tr : List Exchange) : List FileId := tr.filterMap Exchange.openedFile

lemma openedFiles_append (tr tr' : List Exchange) :
    openedFiles (tr ++ tr') = openedFiles tr ++ openedFiles tr' := by
  simp [openedFiles]

namespace Machine

open FileTree (root steps Leads Grows)

/-- The machine answers requests, one after the other. -/
inductive Gives (body : Body → Act Int) (who : Actor) :
    Machine → List Exchange → Machine → Prop where
  | nil (m : Machine) : Gives body who m [] m
  | cons {m m₁ m' : Machine} {c : Call} {r : Reply c} {tr : List Exchange} :
      m.answer body who c = some (r, m₁) → Gives body who m₁ tr m' →
      Gives body who m (⟨c, r⟩ :: tr) m'

/-- The path leads to a file that is open for writing; it is empty, unless it was opened for
appending. -/
def HasOutput (m : Machine) (path : String) (append : Bool) (f : FileId) : Prop :=
  ∃ i n, m.files.lookup f = some ⟨i, 0, append⟩ ∧ m.tree.Leads root (steps path) i ∧
    m.tree.nodes[i]? = some n ∧ n.isFile = true ∧ (append = false → m.tree.contents i = "")

/-- What requests to open files have left behind. -/
structure Opens (m : Machine) (tr : List Exchange) (m' : Machine) : Prop where
  /-- Nothing else has changed. -/
  frame : m' = { m with tree := m'.tree, files := m'.files, fresh := m'.fresh }
  fresh : m.fresh ≤ m'.fresh ∧ ∀ f ∈ openedFiles tr, m.fresh ≤ f ∧ f < m'.fresh
  /-- The files that are open are those from before and those that the exchanges have opened. -/
  files : ∃ new, m'.files = new ++ m.files ∧ new.map Prod.fst = (openedFiles tr).reverse
  input : ∀ path f, ⟨.openInput path, .ok f⟩ ∈ tr →
    ∃ i, m'.files.lookup f = some ⟨i, 0, false⟩ ∧ m'.tree.Leads root (steps path) i
  output : ∀ path append f, ⟨.openOutput path append, .ok f⟩ ∈ tr → m'.HasOutput path append f
  grows : m.tree.Grows m'.tree
  /-- Only files that have been opened without appending have been emptied. -/
  contents : ∀ i, m'.tree.contents i = m.tree.contents i ∨ m'.tree.contents i = "" ∧
    ∃ path f, ⟨.openOutput path false, .ok f⟩ ∈ tr ∧ m'.tree.Leads root (steps path) i
  /-- New are directories above the paths of files for writing, and such files if they have been
  opened. -/
  isNew : ∀ (i : NodeId) (n : Node), m.tree.nodes[i]? = none → m'.tree.nodes[i]? = some n →
    ((∃ parent entries, n = .directory parent entries) ∧
      ∃ path append r above, ⟨.openOutput path append, r⟩ ∈ tr ∧ Path.Above above path ∧
        m'.tree.Leads root (steps above) i) ∨
    (n = .file "" false ∧ ∃ path append f, ⟨.openOutput path append, .ok f⟩ ∈ tr ∧
      m'.tree.Leads root (steps path) i)

variable {m m₁ m' : Machine}

lemma Opens.refl (m : Machine) : m.Opens [] m where
  frame := rfl
  fresh := ⟨Nat.le_refl _, by simp [openedFiles]⟩
  files := ⟨[], rfl, rfl⟩
  input := by simp
  output := by simp
  grows := .refl _
  contents _ := .inl rfl
  isNew _ _ hnone hsome := by simp [hnone] at hsome

/-- Files that were open before stay open. -/
lemma Opens.lookup {tr : List Exchange} (h : m.Opens tr m') {f : FileId} (hf : f < m.fresh) :
    m'.files.lookup f = m.files.lookup f := by
  obtain ⟨new, hfiles, hkeys⟩ := h.files
  have hnone : new.lookup f = none := by
    refine List.lookup_eq_none_iff.2 fun entry hentry => ?_
    have hopened : entry.1 ∈ openedFiles tr := by
      rw [← List.mem_reverse, ← hkeys]
      exact List.mem_map_of_mem hentry
    have hle : m.fresh ≤ entry.1 := (h.fresh.2 _ hopened).1
    exact bne_iff_ne.2 (Nat.ne_of_lt (Nat.lt_of_lt_of_le hf hle))
  rw [hfiles, List.lookup_append, hnone, Option.none_or]

lemma HasOutput.mono {path : String} {append : Bool} {f : FileId}
    (h : m.HasOutput path append f) {tr : List Exchange} (hf : f < m.fresh)
    (hopens : m.Opens tr m') : m'.HasOutput path append f := by
  obtain ⟨i, n, hlookup, hleads, hn, hfile, hcontents⟩ := h
  obtain ⟨n', hn', hgrows⟩ := hopens.grows.node i n hn
  refine ⟨i, n', by rw [hopens.lookup hf, hlookup], hleads.mono hopens.grows, hn',
    hgrows.isFile hfile, fun happend => ?_⟩
  rcases hopens.contents i with heq | ⟨hempty, -⟩
  · rw [heq, hcontents happend]
  · exact hempty

/-- What has been opened first is still there when more has been opened. -/
lemma Opens.append {tr tr' : List Exchange} (h : m.Opens tr m₁) (h' : m₁.Opens tr' m') :
    m.Opens (tr ++ tr') m' where
  frame := by
    refine h'.frame.trans ?_
    rw [h.frame]
  fresh := by
    refine ⟨Nat.le_trans h.fresh.1 h'.fresh.1, fun f hf => ?_⟩
    rw [openedFiles_append, List.mem_append] at hf
    rcases hf with hf | hf
    · exact ⟨(h.fresh.2 f hf).1, Nat.lt_of_lt_of_le (h.fresh.2 f hf).2 h'.fresh.1⟩
    · exact ⟨Nat.le_trans h.fresh.1 (h'.fresh.2 f hf).1, (h'.fresh.2 f hf).2⟩
  files := by
    obtain ⟨new, hfiles, hkeys⟩ := h.files
    obtain ⟨new', hfiles', hkeys'⟩ := h'.files
    refine ⟨new' ++ new, by rw [hfiles', hfiles, List.append_assoc], ?_⟩
    rw [List.map_append, hkeys, hkeys', openedFiles_append, List.reverse_append]
  input path f hmem := by
    rcases List.mem_append.1 hmem with hmem | hmem
    · obtain ⟨i, hlookup, hleads⟩ := h.input path f hmem
      have hf : f ∈ openedFiles tr := List.mem_filterMap.2 ⟨_, hmem, rfl⟩
      refine ⟨i, ?_, hleads.mono h'.grows⟩
      rw [h'.lookup (h.fresh.2 f hf).2, hlookup]
    · exact h'.input path f hmem
  output path append f hmem := by
    rcases List.mem_append.1 hmem with hmem | hmem
    · have hf : f ∈ openedFiles tr := List.mem_filterMap.2 ⟨_, hmem, rfl⟩
      exact (h.output path append f hmem).mono (h.fresh.2 f hf).2 h'
    · exact h'.output path append f hmem
  grows := h.grows.trans h'.grows
  contents i := by
    rcases h'.contents i with heq | ⟨hempty, path, f, hmem, hleads⟩
    · rw [heq]
      refine (h.contents i).imp_right fun ⟨hempty, path, f, hmem, hleads⟩ => ?_
      exact ⟨hempty, path, f, List.mem_append_left _ hmem, hleads.mono h'.grows⟩
    · exact .inr ⟨hempty, path, f, List.mem_append_right _ hmem, hleads⟩
  isNew i n hnone hn := by
    cases hn₁ : m₁.tree.nodes[i]? with
    | none =>
      refine (h'.isNew i n hn₁ hn).imp ?_ ?_
      · rintro ⟨hdir, path, append, r, above, hmem, habove⟩
        exact ⟨hdir, path, append, r, above, List.mem_append_right _ hmem, habove⟩
      · rintro ⟨hfile, path, append, f, hmem, hleads⟩
        exact ⟨hfile, path, append, f, List.mem_append_right _ hmem, hleads⟩
    | some n₁ =>
      obtain ⟨n', hn', hgrows⟩ := h'.grows.node i n₁ hn₁
      rw [hn] at hn'
      obtain rfl := Option.some.inj hn'
      refine (h.isNew i n₁ hnone hn₁).imp ?_ ?_
      · rintro ⟨⟨parent, entries, rfl⟩, path, append, r, above, hmem, habove, hleads⟩
        exact ⟨⟨parent, hgrows.directory⟩, path, append, r, above, List.mem_append_left _ hmem,
          habove, hleads.mono h'.grows⟩
      · rintro ⟨rfl, path, append, f, hmem, hleads⟩
        exact ⟨hgrows.empty, path, append, f, List.mem_append_left _ hmem,
          hleads.mono h'.grows⟩

/-! ## Opening one file -/

/-- An exchange that opens nothing and changes nothing. -/
lemma opens_of_openedFile_none (m : Machine) {e : Exchange} (h : e.openedFile = none) :
    m.Opens [e] m where
  frame := rfl
  fresh := ⟨Nat.le_refl _, by simp [openedFiles, h]⟩
  files := ⟨[], rfl, by simp [openedFiles, h]⟩
  input path f hmem := by
    rw [← List.mem_singleton.1 hmem] at h
    cases h
  output path append f hmem := by
    rw [← List.mem_singleton.1 hmem] at h
    cases h
  grows := .refl _
  contents _ := .inl rfl
  isNew _ _ hnone hsome := by simp [hnone] at hsome

/-- A new number has been given to the file that was opened. -/
lemma fresh_register (m : Machine) (o : Opened) {e : Exchange} (h : e.openedFile = some m.fresh) :
    m.fresh ≤ (m.register o).2.fresh ∧
      ∀ f ∈ openedFiles [e], m.fresh ≤ f ∧ f < (m.register o).2.fresh := by
  have hfresh : (m.register o).2.fresh = m.fresh + 1 := rfl
  have hopened : openedFiles [e] = [m.fresh] := by simp [openedFiles, h]
  rw [hfresh, hopened]
  refine ⟨Nat.le_succ _, fun f hf => ?_⟩
  rw [List.mem_singleton.1 hf]
  exact ⟨Nat.le_refl _, Nat.lt_succ_self _⟩

/-- A file that has been opened for reading is where the path leads. -/
lemma opens_openInput {path : String} {r : Except IoError FileId}
    (h : m.openInput path = (r, m')) : m.Opens [⟨.openInput path, r⟩] m' := by
  unfold openInput at h
  split at h
  case isTrue =>
    obtain ⟨rfl, rfl⟩ := Prod.mk.inj h
    exact opens_of_openedFile_none m rfl
  case isFalse =>
    split at h
    case h_1 =>
      obtain ⟨rfl, rfl⟩ := Prod.mk.inj h
      exact opens_of_openedFile_none m rfl
    case h_2 i hfind =>
      obtain ⟨rfl, rfl⟩ := Prod.mk.inj h
      refine ⟨rfl, fresh_register m ⟨i, 0, false⟩ rfl, ⟨[_], rfl, rfl⟩, fun _ _ hmem => ?_,
        by simp, .refl _, fun _ => .inl rfl, fun _ _ hnone hsome => ?_⟩
      · cases List.mem_singleton.1 hmem
        refine ⟨i, List.lookup_cons_self, ?_⟩
        unfold FileTree.find at hfind
        split at hfind
        case isTrue => cases hfind
        case isFalse =>
          split at hfind
          case isTrue => cases hfind
          case isFalse => exact FileTree.walk_leads hfind
      · change m.tree.nodes[_]? = _ at hsome
        rw [hnone] at hsome
        cases hsome

/-- Directories are made above the path of a file. -/
lemma withParents_raises (t : FileTree) (path : String) :
    t.Raises (Path.Above · path) (withParents t path).2 := by
  unfold withParents
  split
  case h_1 => exact .refl ..
  case h_2 above habove =>
    split
    case isTrue => exact .refl ..
    case isFalse =>
      split
      case isTrue => exact .refl ..
      case isFalse =>
        refine (t.mkdirAll_raises above).mono fun p hp => ?_
        rcases hp with rfl | hp
        · exact .parent habove
        · exact .further habove hp

/-- A file that cannot be opened for writing leaves directories behind at most. -/
lemma openOutput_error {path : String} {append : Bool} {e : IoError}
    (h : m.openOutput path append = (.error e, m')) :
    m' = { m with tree := m'.tree } ∧ m.tree.Raises (Path.Above · path) m'.tree := by
  have hraises := withParents_raises m.tree path
  unfold openOutput at h
  split at h
  case h_1 tree hparents =>
    rw [hparents] at hraises
    obtain ⟨-, rfl⟩ := Prod.mk.inj h
    exact ⟨rfl, hraises⟩
  case h_2 tree hparents =>
    rw [hparents] at hraises
    split at h
    case isTrue =>
      obtain ⟨-, rfl⟩ := Prod.mk.inj h
      exact ⟨rfl, hraises⟩
    case isFalse =>
      split at h
      case h_1 =>
        obtain ⟨-, rfl⟩ := Prod.mk.inj h
        exact ⟨rfl, hraises⟩
      case h_2 => cases h

/-- A file that has been opened for writing. -/
lemma openOutput_ok {path : String} {append : Bool} {f : FileId}
    (h : m.openOutput path append = (.ok f, m')) : ∃ tree i, f = m.fresh ∧
      m' = { m with tree, files := (f, ⟨i, 0, append⟩) :: m.files, fresh := m.fresh + 1 } ∧
      m.tree.Supplies path append tree i := by
  have hraises := withParents_raises m.tree path
  unfold openOutput at h
  split at h
  case h_1 => cases h
  case h_2 tree hparents =>
    rw [hparents] at hraises
    split at h
    case isTrue => cases h
    case isFalse =>
      split at h
      case h_1 => cases h
      case h_2 tree' i hcreate =>
        obtain ⟨hf, rfl⟩ := Prod.mk.inj h
        obtain rfl := Except.ok.inj hf
        obtain ⟨hcreates, hleads⟩ := FileTree.create_leads hcreate
        have hsupplies := hcreates.supplies hraises hleads
        refine ⟨_, i, rfl, rfl, ?_⟩
        cases append with
        | true => exact hsupplies
        | false => exact hsupplies.emptied

/-- What has been opened for writing, or has not. -/
lemma opens_openOutput {path : String} {append : Bool} {r : Except IoError FileId}
    (h : m.openOutput path append = (r, m')) : m.Opens [⟨.openOutput path append, r⟩] m' := by
  cases r with
  | error e =>
    obtain ⟨hframe, hraises⟩ := openOutput_error h
    have hfiles : m'.files = m.files := by rw [hframe]
    have hfresh : m'.fresh = m.fresh := by rw [hframe]
    have hframe' : m' = { m with tree := m'.tree, files := m'.files, fresh := m'.fresh } := by
      rw [hfiles, hfresh]
      exact hframe
    refine ⟨hframe', ⟨Nat.le_of_eq hfresh.symm, by simp [openedFiles, Exchange.openedFile]⟩,
      ⟨[], hfiles, rfl⟩, by simp, by simp, hraises.grows, fun i => .inl (hraises.contents i),
      fun i n hnone hn => .inl ?_⟩
    obtain ⟨hdir, above, habove, hleads⟩ := hraises.isNew i n hnone hn
    exact ⟨hdir, path, append, .error e, above, by simp, habove, hleads⟩
  | ok f =>
    obtain ⟨tree, i, rfl, rfl, hsupplies⟩ := openOutput_ok h
    obtain ⟨n, hn, hfile⟩ := hsupplies.isFile
    refine ⟨rfl, fresh_register m ⟨i, 0, append⟩ rfl, ⟨[_], rfl, rfl⟩, by simp,
      fun _ _ _ hmem => ?_, hsupplies.grows, fun j => ?_, fun j n hnone hn => ?_⟩
    · cases List.mem_singleton.1 hmem
      refine ⟨i, n, List.lookup_cons_self, hsupplies.leads, hn, hfile, fun happend => ?_⟩
      rw [hsupplies.contents, if_pos ⟨happend, rfl⟩]
    · rw [hsupplies.contents]
      split
      case isTrue heq =>
        obtain ⟨rfl, rfl⟩ := heq
        exact .inr ⟨rfl, path, m.fresh, by simp, hsupplies.leads⟩
      case isFalse => exact .inl rfl
    · rcases hsupplies.isNew j n hnone hn with ⟨hdir, above, habove, hleads⟩ | hnew
      · exact .inl ⟨hdir, path, append, .ok m.fresh, above, by simp, habove, hleads⟩
      · obtain ⟨rfl, rfl⟩ := hnew
        exact .inr ⟨rfl, path, append, m.fresh, by simp, hsupplies.leads⟩

/-- **What opening files leaves behind**, when the machine answers one request after the other. -/
theorem opens_of_gives {body : Body → Act Int} {who : Actor} {tr : List Exchange}
    (h : Gives body who m tr m') (hopening : ∀ e ∈ tr, e.1.isOpening = true) : m.Opens tr m' := by
  induction h with
  | nil m => exact .refl m
  | @cons m m₁ m' c r tr hanswer _ ih =>
    have hrest := ih fun e he => hopening e (List.mem_cons_of_mem _ he)
    have hc : c.isOpening = true := hopening ⟨c, r⟩ List.mem_cons_self
    change m.Opens ([⟨c, r⟩] ++ tr) m'
    refine Opens.append ?_ hrest
    cases c with
    | view =>
      obtain ⟨-, rfl⟩ := Prod.mk.inj (Option.some.inj hanswer)
      exact opens_of_openedFile_none m rfl
    | openInput path => exact opens_openInput (Option.some.inj hanswer)
    | openOutput path append => exact opens_openOutput (Option.some.inj hanswer)
    | _ => cases hc

/-- Where nothing has been opened, directories have been made at most. -/
lemma Opens.raises {tr : List Exchange} (h : m.Opens tr m') (hnone : openedFiles tr = []) :
    m'.files = m.files ∧ m.tree.Raises (fun above => ∃ path append r,
      ⟨.openOutput path append, r⟩ ∈ tr ∧ Path.Above above path) m'.tree := by
  have hrefused (path : String) (append : Bool) (f : FileId) :
      ⟨.openOutput path append, .ok f⟩ ∉ tr := by
    intro hmem
    have hopened : f ∈ openedFiles tr := List.mem_filterMap.2 ⟨_, hmem, rfl⟩
    simp [hnone] at hopened
  obtain ⟨new, hfiles, hkeys⟩ := h.files
  have hnew : new = [] := by simpa [hnone] using hkeys
  refine ⟨by rw [hfiles, hnew, List.nil_append], h.grows, fun i => ?_, fun i n hi hn => ?_⟩
  · exact (h.contents i).resolve_right fun ⟨_, path, f, hmem, _⟩ => hrefused path false f hmem
  · rcases h.isNew i n hi hn with ⟨hdir, path, append, r, above, hmem, habove, hleads⟩ | hfile
    · exact ⟨hdir, above, ⟨path, append, r, hmem, habove⟩, hleads⟩
    · obtain ⟨-, path, append, f, hmem, -⟩ := hfile
      exact absurd hmem (hrefused path append f)

/-! ## Several requests -/

lemma Gives.append_iff {body : Body → Act Int} {who : Actor} {tr tr' : List Exchange} :
    Gives body who m (tr ++ tr') m' ↔ ∃ m₁, Gives body who m tr m₁ ∧ Gives body who m₁ tr' m' := by
  induction tr generalizing m with
  | nil =>
    constructor
    · intro h
      exact ⟨m, .nil m, h⟩
    · rintro ⟨_, ⟨⟩, h⟩
      exact h
  | cons e tr ih =>
    constructor
    · rintro (_ | ⟨hanswer, hrest⟩)
      obtain ⟨m₁, htr, htr'⟩ := ih.1 hrest
      exact ⟨m₁, .cons hanswer htr, htr'⟩
    · rintro ⟨m₁, _ | ⟨hanswer, htr⟩, htr'⟩
      exact .cons hanswer (ih.2 ⟨m₁, htr, htr'⟩)

/-- Follow a tree on the machine, on which nobody else does anything: the exchanges, the value and
the machine behind it, unless some request has to wait. -/
def follow {α : Type} (body : Body → Act Int) (who : Actor) :
    Machine → Act α → Option (List Exchange × α × Machine)
  | m, .done a => some ([], a, m)
  | m, .call c next => do
    let (r, m) ← m.answer body who c
    let (tr, a, m) ← follow body who m (next r)
    return (⟨c, r⟩ :: tr, a, m)

lemma runs_of_follow {α : Type} {body : Body → Act Int} {who : Actor} {x : Act α}
    {tr : List Exchange} {a : α} (h : follow body who m x = some (tr, a, m')) :
    x.Runs tr a ∧ Gives body who m tr m' := by
  induction x generalizing m tr with
  | done b =>
    cases h
    exact ⟨.done _, .nil _⟩
  | call c next ih =>
    obtain ⟨⟨r, m₁⟩, hanswer, h⟩ := Option.bind_eq_some_iff.1 h
    obtain ⟨⟨tr, a, m₂⟩, hfollow, h⟩ := Option.bind_eq_some_iff.1 h
    cases h
    obtain ⟨hruns, hgives⟩ := ih r hfollow
    exact ⟨.call r hruns, .cons hanswer hgives⟩

/-- What a thread of the shell writes changes neither jobs nor who runs, and only what goes to the
standard output changes that. -/
lemma write_frame {dst : Sink} {data : Text.Octets} {r : Except Errno Unit}
    (h : m.write none dst data = some (r, m')) :
    m'.jobs = m.jobs ∧ m'.processes = m.processes ∧ m'.tasks = m.tasks ∧
      (dst ≠ .out → m'.out = m.out) := by
  cases dst with
  | out => cases h; exact ⟨rfl, rfl, rfl, fun hne => absurd rfl hne⟩
  | err => cases h; exact ⟨rfl, rfl, rfl, fun _ => rfl⟩
  | capture b => cases h; exact ⟨rfl, rfl, rfl, fun _ => rfl⟩
  | channel b c => cases h; exact ⟨rfl, rfl, rfl, fun _ => rfl⟩
  | file f =>
    replace h : m.writeFile f data = (r, m') := Option.some.inj h
    unfold writeFile at h
    split at h
    · cases h; exact ⟨rfl, rfl, rfl, fun _ => rfl⟩
    · split at h <;> cases h <;> exact ⟨rfl, rfl, rfl, fun _ => rfl⟩
  | pipe p =>
    simp only [write] at h
    split at h
    · cases h; exact ⟨rfl, rfl, rfl, fun _ => rfl⟩
    · split at h
      · cases h
      · cases h; exact ⟨rfl, rfl, rfl, fun _ => rfl⟩

end Machine

end Conch
