import Conch.Proofs.Runs

/-!
# Redirections as a table of descriptors

The redirections of a command are opened before anybody knows which streams the pipeline will
supply, so what they come to is kept as a record and applied later; `2>&1` in front of any
redirection of the standard output has to leave a mark in it.  The meaning of redirections is
simpler: a table of three descriptors starts with what the pipeline supplies, and each redirection
from left to right sets entries of the table.  Here the two are shown to be the same.

## Main definitions

* `Streams.assign` — what a redirection does to the table once its file has been opened.
* `Redirections.table` — all redirections, from left to right.
* `Redirections.Opens` — every redirection opens its file, through the given exchanges.

## Main results

* `Redirections.apply_add`, `Redirections.apply_joinError` — one more redirection in the record is
  one more step on the table.
* `Redirections.resolve_runs_iff` — **redirections mean a table of descriptors**.
-/

set_option autoImplicit false

namespace Conch

open Act (ask)

/-- A redirection on a table of descriptors.  The file is the one that the redirection has opened;
`2>&1` opens none and copies an entry. -/
def Streams.assign (t : Streams) : RedirectOp → FileId → Streams
  | .input, f => { t with stdin := .file f }
  | .output, f | .append, f => { t with stdout := .file f }
  | .error, f | .errorAppend, f => { t with stderr := .file f }
  | .both, f | .bothAlt, f => { t with stdout := .file f, stderr := .file f }
  | .errorToOutput, _ => { t with stderr := t.stdout }

namespace Redirections

/-- Redirections from left to right on a table of descriptors.  The files are those that they have
opened, in order. -/
def table : List Redirect → List FileId → Streams → Streams
  | [], _, t => t
  | d :: ds, files, t =>
    if d.op = .errorToOutput then table ds files { t with stderr := t.stdout }
    else match files with
      | [] => t
      | f :: files => table ds files (t.assign d.op f)

/-- The exchange with which a redirection opens the file `f`. -/
def opened (s : Session) (op : RedirectOp) (name : String) (f : FileId) : Exchange :=
  if op = .input then ⟨.openInput (s.resolve name), .ok f⟩
  else ⟨.openOutput (s.resolve name) op.appends, .ok f⟩

/-- The exchanges of redirections that all open their files: each word but that of `2>&1` stands
for one name, and the file of that name is opened. -/
inductive Opens (s : Session) : List Redirect → List Exchange → List FileId → Prop where
  | nil : Opens s [] [] []
  | join {d : Redirect} {ds : List Redirect} {tr : List Exchange} {files : List FileId} :
      d.op = .errorToOutput → Opens s ds tr files → Opens s (d :: ds) tr files
  | file {d : Redirect} {ds : List Redirect} {tr : List Exchange} {files : List FileId} {v : View}
      {name : String} {f : FileId} : d.op ≠ .errorToOutput →
      Word.expand s v.tree v.self d.file = [name] → name ≠ "" → Opens s ds tr files →
      Opens s (d :: ds) (⟨.view, v⟩ :: opened s d.op name f :: tr) (f :: files)

/-! ## The record and the table -/

lemma table_join {d : Redirect} (hd : d.op = .errorToOutput) (ds : List Redirect)
    (files : List FileId) (t : Streams) :
    table (d :: ds) files t = table ds files { t with stderr := t.stdout } := by
  cases files <;> simp [table, hd]

lemma table_file {d : Redirect} (hd : d.op ≠ .errorToOutput) (ds : List Redirect) (f : FileId)
    (files : List FileId) (t : Streams) :
    table (d :: ds) (f :: files) t = table ds files (t.assign d.op f) := by
  simp [table, hd]

@[simp] lemma apply_none (t : Streams) : Redirections.none.apply t = t := rfl

/-- A redirection added to the record is a step on the table. -/
lemma apply_add (r : Redirections) {op : RedirectOp} (hop : op ≠ .errorToOutput) (f : FileId)
    (t : Streams) : (r.add op f).apply t = (r.apply t).assign op f := by
  cases op <;> first | rfl | exact absurd rfl hop

/-- `2>&1` in the record is a copied entry of the table: the file that the standard output has been
redirected to, or the mark for what the pipeline supplies. -/
lemma apply_joinError (r : Redirections) (t : Streams) :
    r.joinError.apply t = { r.apply t with stderr := (r.apply t).stdout } := by
  obtain ⟨stdin, stdout, stderr⟩ := r
  cases stdout <;> rfl

/-- The record is known by what it makes of the shell's own streams. -/
lemma apply_injective {r r' : Redirections} (h : r.apply .inherit = r'.apply .inherit) :
    r = r' := by
  obtain ⟨stdin, stdout, stderr⟩ := r
  obtain ⟨stdin', stdout', stderr'⟩ := r'
  simp only [apply, Streams.inherit, Streams.mk.injEq] at h
  obtain ⟨hin, hout, herr⟩ := h
  have hstdin : stdin = stdin' := by
    cases stdin <;> cases stdin' <;> simp_all
  have hstdout : stdout = stdout' := by
    cases stdout <;> cases stdout' <;> simp_all
  have hstderr : stderr = stderr' := by
    rcases stderr with _ | (_ | _) <;> rcases stderr' with _ | (_ | _) <;> simp_all
  rw [hstdin, hstdout, hstderr]

/-! ## Opening -/

section Opening

variable {s : Session}

/-- A word is a target if it stands for exactly one name. -/
lemma target_runs_ok {word name : String} {tr : List Exchange} :
    (target s word).Runs tr (.ok name) ↔
      ∃ v, tr = [⟨.view, v⟩] ∧ Word.expand s v.tree v.self word = [name] ∧ name ≠ "" := by
  unfold target
  simp only [Act.ask_bind, Act.runs_call]
  refine exists_congr fun v => ?_
  rcases hfields : Word.expand s v.tree v.self word with _ | ⟨field, _ | ⟨_, _⟩⟩
  · simp
  · by_cases hempty : field = ""
    · simp [hempty]
    · simp only [String.isEmpty_iff, hempty, if_false, Act.runs_pure, Except.ok.injEq,
        List.cons.injEq, and_true]
      grind
  · simp

lemma openFile_runs_ok {op : RedirectOp} {name : String} {tr : List Exchange} {f : FileId} :
    (openFile s op name).Runs tr (.ok f) ↔ tr = [opened s op name f] := by
  constructor
  · intro h
    cases op <;> obtain ⟨r, rest, rfl, hrest⟩ := Act.runs_call.1 h <;>
      rcases r with e | f' <;> obtain ⟨rfl, hf⟩ := Act.runs_pure.1 hrest <;> cases hf <;> rfl
  · rintro rfl
    cases op <;> exact .call _ (.done _)

/-- `2>&1` opens nothing. -/
lemma openOne_join (r : Redirections) {d : Redirect} (hd : d.op = .errorToOutput) :
    openOne s r d = pure (.ok r.joinError) := by
  unfold openOne
  rw [hd]

/-- Every other redirection opens a file. -/
lemma openOne_file (r : Redirections) {d : Redirect} (hd : d.op ≠ .errorToOutput) :
    openOne s r d = do
      match ← target s d.file with
      | .error e => return .error e
      | .ok name => match ← openFile s d.op name with
        | .error e => return .error e
        | .ok f => return .ok (r.add d.op f) := by
  unfold openOne
  split
  case h_1 h => exact absurd h hd
  case h_2 => rfl

/-- The file is that of the one name that the word stands for. -/
lemma openOne_runs_ok {r r' : Redirections} {d : Redirect} (hd : d.op ≠ .errorToOutput)
    {tr : List Exchange} :
    (openOne s r d).Runs tr (.ok r') ↔
      ∃ v name f, tr = [⟨.view, v⟩, opened s d.op name f] ∧
        Word.expand s v.tree v.self d.file = [name] ∧ name ≠ "" ∧ r' = r.add d.op f := by
  rw [openOne_file r hd, Act.runs_bind]
  constructor
  · rintro ⟨front, rest, found, rfl, hfound, hrest⟩
    cases found with
    | error e => exact absurd (Act.runs_pure.1 hrest).2 (by simp)
    | ok name =>
      obtain ⟨v, rfl, hexpand, hname⟩ := target_runs_ok.1 hfound
      obtain ⟨mid, rest, file, rfl, hfile, hadd⟩ := Act.runs_bind.1 hrest
      cases file with
      | error e => exact absurd (Act.runs_pure.1 hadd).2 (by simp)
      | ok f =>
        obtain rfl := openFile_runs_ok.1 hfile
        obtain ⟨rfl, hr⟩ := Act.runs_pure.1 hadd
        exact ⟨v, name, f, rfl, hexpand, hname, Except.ok.inj hr⟩
  · rintro ⟨v, name, f, rfl, hexpand, hname, rfl⟩
    refine ⟨[⟨.view, v⟩], [opened s d.op name f], .ok name, rfl, ?_, ?_⟩
    · exact target_runs_ok.2 ⟨v, rfl, hexpand, hname⟩
    · exact Act.runs_bind.2 ⟨_, [], .ok f, by simp, openFile_runs_ok.2 rfl, .done _⟩

/-- What redirections come to behind those in `r`: all of them are opened, and the record does what
the table does behind it. -/
lemma exists_opens {ds : List Redirect} {r r' : Redirections} {tr : List Exchange}
    (h : (resolve s r ds).Runs tr (.ok r')) :
    ∃ files, Opens s ds tr files ∧ ∀ t, r'.apply t = table ds files (r.apply t) := by
  induction ds generalizing r tr with
  | nil =>
    obtain ⟨rfl, hr⟩ := Act.runs_pure.1 h
    obtain rfl := Except.ok.inj hr
    exact ⟨[], .nil, fun _ => rfl⟩
  | cons d ds ih =>
    obtain ⟨front, rest, one, rfl, hone, hrest⟩ := Act.runs_bind.1 h
    cases one with
    | error e => exact absurd (Act.runs_pure.1 hrest).2 (by simp)
    | ok r₁ =>
      obtain ⟨files, hopens, htable⟩ := ih hrest
      by_cases hd : d.op = .errorToOutput
      · rw [openOne_join r hd] at hone
        obtain ⟨rfl, hr⟩ := Act.runs_pure.1 hone
        obtain rfl := Except.ok.inj hr
        refine ⟨files, .join hd hopens, fun t => ?_⟩
        rw [htable, apply_joinError, table_join hd]
      · obtain ⟨v, name, f, rfl, hexpand, hname, rfl⟩ := (openOne_runs_ok hd).1 hone
        refine ⟨f :: files, .file hd hexpand hname hopens, fun t => ?_⟩
        rw [htable, apply_add r hd, table_file hd]

/-- Redirections that all open their files resolve to a record. -/
lemma Opens.exists_runs {ds : List Redirect} {tr : List Exchange} {files : List FileId}
    (h : Opens s ds tr files) (r : Redirections) :
    ∃ r', (resolve s r ds).Runs tr (.ok r') ∧ ∀ t, r'.apply t = table ds files (r.apply t) := by
  induction h generalizing r with
  | nil => exact ⟨r, .done _, fun _ => rfl⟩
  | @join d ds tr files hd _ ih =>
    obtain ⟨r', hrun, htable⟩ := ih r.joinError
    have hone : (openOne s r d).Runs [] (.ok r.joinError) := by
      rw [openOne_join r hd]
      exact .done _
    refine ⟨r', Act.runs_bind.2 ⟨[], tr, _, rfl, hone, hrun⟩, fun t => ?_⟩
    rw [htable, apply_joinError, table_join hd]
  | @file d ds tr files v name f hd hexpand hname _ ih =>
    obtain ⟨r', hrun, htable⟩ := ih (r.add d.op f)
    have hone := (openOne_runs_ok (r := r) hd).2 ⟨v, name, f, rfl, hexpand, hname, rfl⟩
    refine ⟨r', Act.runs_bind.2 ⟨_, tr, _, rfl, hone, hrun⟩, fun t => ?_⟩
    rw [htable, apply_add r hd, table_file hd]

end Opening

/-- **Redirections mean a table of descriptors.**  The redirections of a command resolve to a
record exactly if each of them, from left to right, has opened its file; and then the record makes
of all streams that a pipeline can supply what the redirections make of a table that starts with
these streams.

**Proof sketch.** Induction on the list of redirections, where the record that has come about so
far stands for the table that it makes: one more redirection in the record is one more step on
the table (`apply_add`, `apply_joinError`).  As the record is known by what it makes of streams, no
other record has the same table. -/
theorem resolve_runs_iff (s : Session) (ds : List Redirect) (tr : List Exchange)
    (r : Redirections) :
    (resolve s .none ds).Runs tr (.ok r) ↔
      ∃ files, Opens s ds tr files ∧ ∀ supplied, r.apply supplied = table ds files supplied := by
  constructor
  · intro h
    simpa using exists_opens h
  · rintro ⟨files, hopens, htable⟩
    obtain ⟨r', hrun, htable'⟩ := hopens.exists_runs .none
    have hr : r = r' := apply_injective ((htable .inherit).trans (htable' .inherit).symm)
    exact hr ▸ hrun

/-- In `2>&1 > 1 2>> 2 &> 3 2>&1 < 4` everything in front of `&>` is overridden, and the last `2>&1`
keeps the file that both outputs share. -/
example : table [⟨.errorToOutput, ""⟩, ⟨.output, "1"⟩, ⟨.errorAppend, "2"⟩, ⟨.both, "3"⟩,
    ⟨.errorToOutput, ""⟩, ⟨.input, "4"⟩] [1, 2, 3, 4] .inherit = ⟨.file 4, .file 3, .file 3⟩ := by
  decide

end Redirections

end Conch
