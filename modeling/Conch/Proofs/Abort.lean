import Conch.Machine.Run
import Conch.Proofs.Descriptors
import Conch.Proofs.Isolation
import Conch.Proofs.Opening

/-!
# Pipelines with a redirection that fails

Before any stage of a pipeline runs, the redirections of all stages are opened from left to right.
If one of them fails, its word standing for no file or for several or its file not being there,
nothing of the pipeline runs and the session stays as it is.  What remains are the traces of the
redirections in front of it.

## Main definitions

* `Redirections.Fails` — a redirection fails, through the given exchanges and for a reason.
* `Element.Opens` — the exchanges of stages whose redirections all open their files.
* `Element.FailsBehind` — the first redirection that fails, with the exchanges in front of it.
* `Pipeline.OpensAll` — a run in which every redirection opens its file.

## Main results

* `Element.exists_planAll_iff` — a pipeline is planned exactly if all its redirections open files.
* `Element.failsBehind_of_planAll` — otherwise one of them is the first that fails.
* `Pipeline.run_aborts` — **a redirection that fails ends the whole pipeline**.
-/

set_option autoImplicit false

namespace Conch

open Act (ask)
open Text (Octets)

/-! ## Redirections -/

namespace Redirections

variable {s : Session}

/-- The exchange with which a redirection is refused its file. -/
def refused (s : Session) (op : RedirectOp) (name : String) (e : IoError) : Exchange :=
  if op = .input then ⟨.openInput (s.resolve name), .error e⟩
  else ⟨.openOutput (s.resolve name) op.appends, .error e⟩

/-- A redirection fails: its word does not stand for exactly one name, or the file of that name
cannot be opened. -/
inductive Fails (s : Session) (d : Redirect) : List Exchange → ShellError → Prop where
  | ambiguous {v : View} : d.op ≠ .errorToOutput →
      (∀ name, Word.expand s v.tree v.self d.file = [name] → name = "") →
      Fails s d [⟨.view, v⟩] (.ambiguousRedirect d.file)
  | refused {v : View} {name : String} {e : IoError} : d.op ≠ .errorToOutput →
      Word.expand s v.tree v.self d.file = [name] → name ≠ "" →
      Fails s d [⟨.view, v⟩, Redirections.refused s d.op name e] (.redirection name e)

/-- A redirection that fails opens nothing. -/
lemma Fails.openedFiles_eq {d : Redirect} {tr : List Exchange} {e : ShellError}
    (h : Fails s d tr e) : openedFiles tr = [] := by
  cases h with
  | ambiguous => rfl
  | refused =>
    unfold Redirections.refused
    split <;> rfl

lemma target_runs_error {word : String} {tr : List Exchange} {e : ShellError}
    (h : (target s word).Runs tr (.error e)) : ∃ v, tr = [⟨.view, v⟩] ∧
      e = .ambiguousRedirect word ∧
      ∀ name, Word.expand s v.tree v.self word = [name] → name = "" := by
  unfold target at h
  simp only [Act.ask_bind, Act.runs_call] at h
  obtain ⟨v, rest, rfl, hrest⟩ := h
  refine ⟨v, ?_⟩
  split at hrest
  case h_1 name hname =>
    split at hrest
    case isTrue hempty =>
      obtain ⟨rfl, he⟩ := Act.runs_pure.1 hrest
      refine ⟨rfl, Except.error.inj he, fun name' hname' => ?_⟩
      obtain rfl : name = name' := by simpa [hname] using hname'
      exact String.isEmpty_iff.1 hempty
    case isFalse => cases (Act.runs_pure.1 hrest).2
  case h_2 hnames =>
    obtain ⟨rfl, he⟩ := Act.runs_pure.1 hrest
    exact ⟨rfl, Except.error.inj he, fun name hname => absurd hname (hnames name)⟩

lemma openFile_runs_error {op : RedirectOp} {name : String} {tr : List Exchange} {e : ShellError}
    (h : (openFile s op name).Runs tr (.error e)) :
    ∃ cause, tr = [refused s op name cause] ∧ e = .redirection name cause := by
  cases op <;> obtain ⟨r, rest, rfl, hrest⟩ := Act.runs_call.1 h <;>
    rcases r with cause | f <;> obtain ⟨rfl, he⟩ := Act.runs_pure.1 hrest <;> cases he <;>
    exact ⟨cause, rfl, rfl⟩

/-- A redirection that is not opened fails. -/
lemma fails_of_openOne {r : Redirections} {d : Redirect} {tr : List Exchange} {e : ShellError}
    (h : (openOne s r d).Runs tr (.error e)) : Fails s d tr e := by
  by_cases hd : d.op = .errorToOutput
  · rw [openOne_join r hd] at h
    cases (Act.runs_pure.1 h).2
  · rw [openOne_file r hd] at h
    obtain ⟨front, rest, found, rfl, hfound, hrest⟩ := Act.runs_bind.1 h
    cases found with
    | error cause =>
      obtain ⟨rfl, he⟩ := Act.runs_pure.1 hrest
      obtain ⟨v, rfl, rfl, hnames⟩ := target_runs_error hfound
      obtain rfl := Except.error.inj he
      exact .ambiguous hd hnames
    | ok name =>
      obtain ⟨v, rfl, hexpand, hname⟩ := target_runs_ok.1 hfound
      obtain ⟨mid, rest, file, rfl, hfile, hlast⟩ := Act.runs_bind.1 hrest
      cases file with
      | ok f => cases (Act.runs_pure.1 hlast).2
      | error cause =>
        obtain ⟨rfl, he⟩ := Act.runs_pure.1 hlast
        obtain ⟨cause, rfl, rfl⟩ := openFile_runs_error hfile
        obtain rfl := Except.error.inj he
        exact .refused hd hexpand hname

/-- Redirections that are not all opened: one of them is the first that fails. -/
lemma exists_fails {ds : List Redirect} {r : Redirections} {tr : List Exchange} {e : ShellError}
    (h : (resolve s r ds).Runs tr (.error e)) : ∃ before d after front part files,
      ds = before ++ d :: after ∧ tr = front ++ part ∧ Opens s before front files ∧
        Fails s d part e := by
  induction ds generalizing r tr with
  | nil => cases (Act.runs_pure.1 h).2
  | cons d ds ih =>
    obtain ⟨front, rest, one, rfl, hone, hrest⟩ := Act.runs_bind.1 h
    cases one with
    | error cause =>
      obtain ⟨rfl, he⟩ := Act.runs_pure.1 hrest
      obtain rfl := Except.error.inj he
      exact ⟨[], d, ds, [], front, [], rfl, by simp, .nil, fails_of_openOne hone⟩
    | ok r₁ =>
      obtain ⟨before, d', after, front', part, files, rfl, rfl, hopens, hfails⟩ := ih hrest
      by_cases hd : d.op = .errorToOutput
      · rw [openOne_join r hd] at hone
        obtain ⟨rfl, -⟩ := Act.runs_pure.1 hone
        exact ⟨d :: before, d', after, front', part, files, rfl, rfl, .join hd hopens, hfails⟩
      · obtain ⟨v, name, f, rfl, hexpand, hname, -⟩ := (openOne_runs_ok hd).1 hone
        exact ⟨d :: before, d', after, _, part, f :: files, rfl, rfl,
          .file hd hexpand hname hopens, hfails⟩

end Redirections

/-! ## Stages -/

namespace Element

variable {s : Session}

/-- The exchanges of elements whose redirections all open their files.  Every simple command looks
around for its words first. -/
inductive Opens (s : Session) : List Element → List Exchange → Prop where
  | nil : Opens s [] []
  | subshell {body : Command} {es : List Element} {tr : List Exchange} :
      Opens s es tr → Opens s (.subshell body :: es) tr
  | group {body : Command} {es : List Element} {tr : List Exchange} :
      Opens s es tr → Opens s (.group body :: es) tr
  | simple {c : SimpleCommand} {es : List Element} {v : View} {front tr : List Exchange}
      {files : List FileId} : Redirections.Opens s c.redirects front files → Opens s es tr →
      Opens s (.simple c :: es) (⟨.view, v⟩ :: front ++ tr)

/-- The first redirection of the elements that fails, in some simple command, and the exchanges in
front of it: all redirections of the elements in front of that command and those in front of it in
the command have opened their files. -/
inductive FailsBehind (s : Session) (es : List Element) (front part : List Exchange)
    (e : ShellError) : Prop where
  | intro {es₁ es₂ : List Element} {c : SimpleCommand} {before after : List Redirect}
      {d : Redirect} {first mid : List Exchange} {v : View} {files : List FileId} :
      es = es₁ ++ .simple c :: es₂ → c.redirects = before ++ d :: after →
      front = first ++ ⟨.view, v⟩ :: mid → Opens s es₁ first →
      Redirections.Opens s before mid files → Redirections.Fails s d part e →
      FailsBehind s es front part e

/-- The plan of a pipeline is made element by element. -/
lemma planAll_cons (s : Session) (e : Element) (es : List Element) :
    planAll s (e :: es) = do
      match ← plan s e with
      | .error e => return .error e
      | .ok stage => match ← planAll s es with
        | .error e => return .error e
        | .ok stages => return .ok (stage :: stages) :=
  rfl

lemma plan_simple (s : Session) (c : SimpleCommand) :
    plan s (.simple c) = .call .view fun v => do
      match ← Redirections.resolve s .none c.redirects with
      | .error e => return .error e
      | .ok r => return .ok ⟨c.action s v, r⟩ :=
  rfl

/-- A simple command is planned exactly if its redirections open their files. -/
lemma exists_plan_simple_iff {c : SimpleCommand} {tr : List Exchange} :
    (∃ stage, (plan s (.simple c)).Runs tr (.ok stage)) ↔
      ∃ v front files, tr = ⟨.view, v⟩ :: front ∧ Redirections.Opens s c.redirects front files := by
  rw [plan_simple]
  constructor
  · rintro ⟨stage, h⟩
    obtain ⟨v, rest, rfl, hrest⟩ := Act.runs_call.1 h
    obtain ⟨front, last, r, rfl, hresolve, hlast⟩ := Act.runs_bind.1 hrest
    cases r with
    | error e => cases (Act.runs_pure.1 hlast).2
    | ok r =>
      obtain ⟨rfl, -⟩ := Act.runs_pure.1 hlast
      obtain ⟨files, hopens, -⟩ := Redirections.exists_opens hresolve
      exact ⟨v, front, files, by simp, hopens⟩
  · rintro ⟨v, front, files, rfl, hopens⟩
    obtain ⟨r, hresolve, -⟩ := hopens.exists_runs .none
    refine ⟨⟨c.action s v, r⟩, .call v (Act.runs_bind.2 ⟨front, [], .ok r, by simp, hresolve, ?_⟩)⟩
    exact Act.runs_pure.2 ⟨rfl, rfl⟩

lemma plan_simple_runs_error {c : SimpleCommand} {tr : List Exchange} {e : ShellError}
    (h : (plan s (.simple c)).Runs tr (.error e)) : ∃ before d after v mid part files,
      c.redirects = before ++ d :: after ∧ tr = (⟨.view, v⟩ :: mid) ++ part ∧
        Redirections.Opens s before mid files ∧ Redirections.Fails s d part e := by
  rw [plan_simple] at h
  obtain ⟨v, rest, rfl, hrest⟩ := Act.runs_call.1 h
  obtain ⟨front, last, r, rfl, hresolve, hlast⟩ := Act.runs_bind.1 hrest
  cases r with
  | ok r => cases (Act.runs_pure.1 hlast).2
  | error cause =>
    obtain ⟨rfl, he⟩ := Act.runs_pure.1 hlast
    obtain rfl := Except.error.inj he
    obtain ⟨before, d, after, mid, part, files, hds, rfl, hopens, hfails⟩ :=
      Redirections.exists_fails hresolve
    exact ⟨before, d, after, v, mid, part, files, hds, by simp, hopens, hfails⟩

/-- The elements behind one that has been planned. -/
lemma exists_planAll_cons_iff {e : Element} {es : List Element} {tr : List Exchange} :
    (∃ stages, (planAll s (e :: es)).Runs tr (.ok stages)) ↔
      ∃ front rest, tr = front ++ rest ∧ (∃ stage, (plan s e).Runs front (.ok stage)) ∧
        ∃ stages, (planAll s es).Runs rest (.ok stages) := by
  rw [planAll_cons]
  constructor
  · rintro ⟨stages, h⟩
    obtain ⟨front, rest, one, rfl, hone, hrest⟩ := Act.runs_bind.1 h
    cases one with
    | error e => cases (Act.runs_pure.1 hrest).2
    | ok stage =>
      obtain ⟨mid, last, more, rfl, hmore, hlast⟩ := Act.runs_bind.1 hrest
      cases more with
      | error e => cases (Act.runs_pure.1 hlast).2
      | ok more =>
        obtain ⟨rfl, -⟩ := Act.runs_pure.1 hlast
        exact ⟨front, mid, by simp, ⟨stage, hone⟩, more, hmore⟩
  · rintro ⟨front, rest, rfl, ⟨stage, hone⟩, stages, hrest⟩
    refine ⟨stage :: stages, Act.runs_bind.2 ⟨front, rest, .ok stage, rfl, hone, ?_⟩⟩
    exact Act.runs_bind.2 ⟨rest, [], .ok stages, by simp, hrest, Act.runs_pure.2 ⟨rfl, rfl⟩⟩

/-- **A pipeline is planned exactly if all its redirections open their files.** -/
lemma exists_planAll_iff {es : List Element} {tr : List Exchange} :
    (∃ stages, (planAll s es).Runs tr (.ok stages)) ↔ Opens s es tr := by
  induction es generalizing tr with
  | nil =>
    constructor
    · rintro ⟨stages, h⟩
      obtain ⟨rfl, -⟩ := Act.runs_pure.1 h
      exact .nil
    · rintro ⟨⟩
      exact ⟨[], Act.runs_pure.2 ⟨rfl, rfl⟩⟩
  | cons e es ih =>
    rw [exists_planAll_cons_iff]
    cases e with
    | simple c =>
      constructor
      · rintro ⟨front, rest, rfl, hone, hrest⟩
        obtain ⟨v, front, files, rfl, hopens⟩ := exists_plan_simple_iff.1 hone
        exact .simple hopens (ih.1 hrest)
      · rintro (_ | _ | _ | ⟨hopens, hrest⟩)
        exact ⟨_, _, rfl, exists_plan_simple_iff.2 ⟨_, _, _, rfl, hopens⟩, ih.2 hrest⟩
    | subshell body =>
      constructor
      · rintro ⟨front, rest, rfl, ⟨stage, hone⟩, hrest⟩
        obtain ⟨rfl, -⟩ := Act.runs_pure.1 hone
        exact .subshell (ih.1 hrest)
      · rintro (_ | hrest)
        exact ⟨[], _, rfl, ⟨_, Act.runs_pure.2 ⟨rfl, rfl⟩⟩, ih.2 hrest⟩
    | group body =>
      constructor
      · rintro ⟨front, rest, rfl, ⟨stage, hone⟩, hrest⟩
        obtain ⟨rfl, -⟩ := Act.runs_pure.1 hone
        exact .group (ih.1 hrest)
      · rintro (_ | _ | hrest)
        exact ⟨[], _, rfl, ⟨_, Act.runs_pure.2 ⟨rfl, rfl⟩⟩, ih.2 hrest⟩

/-- The first failure behind one more element that has been planned. -/
lemma FailsBehind.cons {el : Element} {es : List Element} {front part first : List Exchange}
    {e : ShellError} {stage : Stage} (h : FailsBehind s es front part e)
    (hplan : (plan s el).Runs first (.ok stage)) :
    FailsBehind s (el :: es) (first ++ front) part e := by
  obtain ⟨rfl, hds, rfl, hfirst, hmid, hfails⟩ := h
  have hopens := exists_planAll_iff.1 (exists_planAll_cons_iff.2
    ⟨first, _, rfl, ⟨stage, hplan⟩, exists_planAll_iff.2 hfirst⟩)
  exact .intro rfl hds (List.append_assoc ..).symm hopens hmid hfails

/-- A pipeline that is not planned has a first redirection that fails. -/
lemma failsBehind_of_planAll {es : List Element} {tr : List Exchange} {e : ShellError}
    (h : (planAll s es).Runs tr (.error e)) :
    ∃ front part, tr = front ++ part ∧ FailsBehind s es front part e := by
  induction es generalizing tr with
  | nil => cases (Act.runs_pure.1 h).2
  | cons el es ih =>
    rw [planAll_cons] at h
    obtain ⟨first, rest, one, rfl, hone, hrest⟩ := Act.runs_bind.1 h
    cases one with
    | error cause =>
      obtain ⟨rfl, he⟩ := Act.runs_pure.1 hrest
      obtain rfl := Except.error.inj he
      cases el with
      | simple c =>
        obtain ⟨before, d, after, v, mid, part, files, hds, rfl, hopens, hfails⟩ :=
          plan_simple_runs_error hone
        refine ⟨⟨.view, v⟩ :: mid, part, by simp, ?_⟩
        exact .intro (List.nil_append _).symm hds rfl .nil hopens hfails
      | subshell body => cases (Act.runs_pure.1 hone).2
      | group body => cases (Act.runs_pure.1 hone).2
    | ok stage =>
      obtain ⟨mid, last, more, rfl, hmore, hlast⟩ := Act.runs_bind.1 hrest
      cases more with
      | ok more => cases (Act.runs_pure.1 hlast).2
      | error cause =>
        obtain ⟨rfl, he⟩ := Act.runs_pure.1 hlast
        obtain rfl := Except.error.inj he
        obtain ⟨front, part, rfl, hfails⟩ := ih hmore
        exact ⟨first ++ front, part, by simp, hfails.cons hone⟩

end Element

/-! ## Pipelines -/

namespace Pipeline

/-- In this run from `s`, every redirection of the pipeline has opened its file. -/
def OpensAll (p : Pipeline) (s : Session) (tr : List Exchange) : Prop :=
  ∃ front rest, tr = front ++ rest ∧ Element.Opens s p.elements front

/-- What a pipeline that is given up asks for in the end: one report to the standard error. -/
def complaint (streams : Streams) (e : ShellError) : Call :=
  .write streams.stderr (Octets.ofText ("rshell: " ++ e.describe ++ "\n"))

lemma proceed_error {p : Pipeline} {nested : Nested} {streams : Streams} {s : Session}
    {e : ShellError} {tr : List Exchange} {r : Int × Session}
    (h : (proceed p nested streams s (.error e)).Runs tr r) :
    r = (1, s) ∧ ∃ reply, tr = [⟨complaint streams e, reply⟩] := by
  obtain ⟨reply, rest, rfl, hrest⟩ := Act.runs_call.1 h
  obtain ⟨rfl, rfl⟩ := Act.runs_done.1 hrest
  exact ⟨rfl, reply, rfl⟩

/-- What is left on a machine when a pipeline has been given up: files have been opened through
`front`, directories have been made above the file that `part` could not open, and then a report has
been written. -/
structure LeavesBehind (m : Machine) (front part : List Exchange) (streams : Streams)
    (e : ShellError) (m' : Machine) : Prop where
  jobs : m'.jobs = m.jobs
  processes : m'.processes = m.processes
  tasks : m'.tasks = m.tasks
  out : streams.stderr ≠ .out → m'.out = m.out
  opens : ∃ m₀ m₁ reply, m.Opens front m₀ ∧ m.Opens (front ++ part) m₁ ∧
    m₁.files = m₀.files ∧ m₀.tree.Raises (fun above => ∃ path append r,
      ⟨.openOutput path append, r⟩ ∈ part ∧ Path.Above above path) m₁.tree ∧
    m₁.write none streams.stderr (Octets.ofText ("rshell: " ++ e.describe ++ "\n")) =
      some (reply, m')

lemma leavesBehind_of_gives {s : Session} {es : List Element} {front part : List Exchange}
    {e : ShellError} (hbehind : Element.FailsBehind s es front part e)
    (hopening : ∀ x ∈ front ++ part, x.1.isOpening = true) {streams : Streams}
    {reply : Except Errno Unit} {body : Body → Act Int} {task : TaskId} {m m' : Machine}
    (h : Machine.Gives body ⟨task, none⟩ m (front ++ part ++ [⟨complaint streams e, reply⟩]) m') :
    LeavesBehind m front part streams e m' := by
  obtain ⟨m₁, hplan, hreport⟩ := Machine.Gives.append_iff.1 h
  obtain ⟨m₀, hfront, hpart⟩ := Machine.Gives.append_iff.1 hplan
  have hall := Machine.opens_of_gives hplan hopening
  have hbefore := Machine.opens_of_gives hfront fun x hx => hopening x (by simp [hx])
  have hlast := Machine.opens_of_gives hpart fun x hx => hopening x (by simp [hx])
  obtain ⟨-, -, -, -, -, hfails⟩ := hbehind
  obtain ⟨hfiles, hraises⟩ := hlast.raises hfails.openedFiles_eq
  obtain _ | ⟨hanswer, ⟨⟩⟩ := hreport
  have hwrite : m₁.write none streams.stderr _ = some (reply, m') := hanswer
  obtain ⟨hjobs, hprocesses, htasks, hout⟩ := Machine.write_frame hwrite
  have hframe := hall.frame
  refine ⟨?_, ?_, ?_, ?_, m₀, m₁, reply, hbefore, hall, hfiles, hraises, hwrite⟩
  · rw [hjobs, hframe]
  · rw [hprocesses, hframe]
  · rw [htasks, hframe]
  · intro hne
    rw [hout hne, hframe]

/-- **A redirection that fails ends the whole pipeline**, in the foreground or in the background.
If not every redirection opens its file, one of them is the first that fails.  All that is asked of
the system is to look around and to open files, for the redirections in front of that one and for
itself, and then to write one report to the standard error; the status is 1, and the session is
what it was.  On a machine the jobs and the standard output stay what they were, and what is left
behind are the traces of opened files: those in front of the failure are open and where their paths
lead, empty unless opened for appending, and for the one that failed there are new directories above
it at most.

**Proof sketch.** A run begins with the plan, which is a run of openings; it succeeds exactly if
all redirections open their files (`Element.exists_planAll_iff`), and behind a plan that fails
nothing follows but the report.  What openings leave behind is `Machine.opens_of_gives`, by
induction on the run: what one of them leaves, later ones keep. -/
theorem run_aborts {p : Pipeline} {streams : Streams} {s : Session} {tr : List Exchange}
    {r : Int × Session} (h : (p.run streams s).Runs tr r) (hfails : ¬p.OpensAll s tr) :
    r = (1, s) ∧ ∃ front part e reply, tr = front ++ part ++ [⟨complaint streams e, reply⟩] ∧
      Element.FailsBehind s p.elements front part e ∧
      (∀ x ∈ front ++ part, x.1.isOpening = true) ∧
      ∀ (body : Body → Act Int) (task : TaskId) (m m' : Machine),
        Machine.Gives body ⟨task, none⟩ m tr m' → LeavesBehind m front part streams e m' := by
  rw [run_eq] at h
  obtain ⟨opening, rest, plan, rfl, hplan, hrest⟩ := Act.runs_bind.1 h
  cases plan with
  | ok stages =>
    exact absurd ⟨opening, rest, rfl, Element.exists_planAll_iff.1 ⟨stages, hplan⟩⟩ hfails
  | error e =>
    obtain ⟨rfl, reply, rfl⟩ := proceed_error hrest
    have hopening := (Element.planAll_isOpening s p.elements).ensures _ _ hplan
    obtain ⟨front, part, rfl, hbehind⟩ := Element.failsBehind_of_planAll hplan
    refine ⟨rfl, front, part, e, reply, rfl, hbehind, hopening, fun body task m m' hgives => ?_⟩
    exact leavesBehind_of_gives hbehind hopening hgives

/-- `true > d/out >> log | cat < missing > never &`. -/
def spilled : Pipeline :=
  ⟨[.simple ⟨["true"], [⟨.output, "d/out"⟩, ⟨.append, "log"⟩], false⟩,
    .simple ⟨["cat"], [⟨.input, "missing"⟩, ⟨.output, "never"⟩], true⟩], true⟩

/-- A machine with one file, `/log`. -/
def spilledMachine : Machine := .new ⟨#[.directory 0 [("log", 1)], .file "x" false]⟩ 1000 "/"

/-- The exchange has opened `/d/out` for writing and has emptied it. -/
def opensOut : Exchange → Bool
  | ⟨.openOutput path append, .ok _⟩ => path = "/d/out" && !append
  | _ => false

lemma exists_of_opensOut {x : Exchange} (h : opensOut x = true) :
    ∃ f, x = ⟨.openOutput "/d/out" false, .ok f⟩ := by
  unfold opensOut at h
  split at h
  case h_1 path append f =>
    obtain ⟨hpath, happend⟩ := Bool.and_eq_true_iff.1 h
    obtain rfl := of_decide_eq_true hpath
    obtain rfl : append = false := by simpa using happend
    exact ⟨f, rfl⟩
  case h_2 => cases h

/-- The plan of `spilled` fails on that machine, behind `/d/out`. -/
lemma follow_spilled : (spilledMachine.follow Body.act ⟨Machine.mainTask, none⟩
    (Element.planAll (.new "/" .empty) spilled.elements)).any (fun (tr, plan, _) =>
      tr.any opensOut && match plan with
        | .error _ => true
        | .ok _ => false) = true := by
  decide +kernel

/-- A pipeline in the background whose second stage has no file to read: `/d/out` is there and
empty, with a directory that was not there before. -/
theorem run_aborts_missing_input :
    ∃ tr m', (spilled.run .inherit (.new "/" .empty)).Runs tr (1, .new "/" .empty) ∧
      ¬spilled.OpensAll (.new "/" .empty) tr ∧
      Machine.Gives Body.act ⟨Machine.mainTask, none⟩ spilledMachine tr m' ∧
      ∃ front part e, Element.FailsBehind (.new "/" .empty) spilled.elements front part e ∧
        LeavesBehind spilledMachine front part .inherit e m' ∧
        ∃ m₁ f, spilledMachine.Opens (front ++ part) m₁ ∧ m₁.HasOutput "/d/out" false f := by
  have hcheck := follow_spilled
  cases hfollow : spilledMachine.follow Body.act ⟨Machine.mainTask, none⟩
      (Element.planAll (.new "/" .empty) spilled.elements) with
  | none => rw [hfollow] at hcheck; cases hcheck
  | some x =>
    obtain ⟨opening, plan, m₁⟩ := x
    rw [hfollow] at hcheck
    obtain ⟨hplan, hgives⟩ := Machine.runs_of_follow hfollow
    obtain ⟨hopens, herror⟩ := Bool.and_eq_true_iff.1 hcheck
    cases plan with
    | ok stages => cases herror
    | error e =>
      have hrun : (spilled.run .inherit (.new "/" .empty)).Runs
          (opening ++ [⟨complaint .inherit e, .ok ()⟩]) (1, .new "/" .empty) := by
        rw [run_eq]
        exact Act.runs_bind.2 ⟨opening, _, .error e, rfl, hplan, .call _ (.done _)⟩
      have hfails : ¬spilled.OpensAll (.new "/" .empty)
          (opening ++ [⟨complaint .inherit e, .ok ()⟩]) := by
        rintro ⟨front, rest, happend, hall⟩
        obtain ⟨stages, hstages⟩ := Element.exists_planAll_iff.2 hall
        cases (hplan.unique hstages happend).2.2
      have hreport : m₁.answer Body.act ⟨Machine.mainTask, none⟩ (complaint .inherit e) =
          some (.ok (), _) := rfl
      have hgives' := Machine.Gives.append_iff.2 ⟨m₁, hgives, .cons hreport (.nil _)⟩
      refine ⟨_, _, hrun, hfails, hgives', ?_⟩
      obtain ⟨-, front, part, e', reply, htr, hbehind, hopening, hleaves⟩ := run_aborts hrun hfails
      refine ⟨front, part, e', hbehind, hleaves _ _ _ _ hgives', ?_⟩
      obtain ⟨rfl, -⟩ := List.append_inj' htr rfl
      obtain ⟨x, hx, hout⟩ := List.any_eq_true.1 hopens
      obtain ⟨f, rfl⟩ := exists_of_opensOut hout
      have hall := Machine.opens_of_gives hgives hopening
      exact ⟨m₁, f, hall, hall.output _ _ _ hx⟩

end Pipeline

end Conch
