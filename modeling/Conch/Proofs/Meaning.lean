import Conch.Proofs.Coherence
import Conch.Proofs.Dataflow

/-!
# What commands mean as functions of their input

In an ideal system a command is a function: from a session and its whole input to what it writes to
its standard output, how much of the input it leaves, its status and the session behind it.  A
pipeline is a composition of such functions: each stage is given what the stage in front of it has
written, and the status comes from the codes of all stages.

The function is not defined where a redirection cannot be opened, where a builtin deals with jobs,
and for pipelines in the background.  It keeps account of what has been looked at outside of the
session, so that one can say when the file tree does not matter.

## Main definitions

* `Conch.Wiring` — what is behind the redirections of a command.
* `Builtin.deed` — what a builtin writes, its status and the session behind it.
* `Conch.Flow` — what a command comes to.
* `Command.flow`, `Pipeline.flow`, `Element.flow` — what commands, pipelines and elements mean.
* `Conch.Sight`, `Sight.Steady` — what has been looked at, and does not change.
-/

set_option autoImplicit false

namespace Conch

open Text (Octets)
open Builtin (Outlet)

/-! ## Where outputs lead -/

/-- What goes wrong with writes to the two outputs that a command is given. -/
structure Port where
  out : Option Errno
  err : Option Errno

/-- What is behind a redirected standard error. -/
inductive ErrorWire where
  | file (refusal : Option Errno)
  /-- The standard output that the pipeline supplies. -/
  | output

/-- What is behind the redirections of a command; `none` is what the pipeline supplies. -/
structure Wiring where
  /-- What the input holds. -/
  stdin : Option Octets
  /-- What goes wrong with writes. -/
  stdout : Option (Option Errno)
  stderr : Option ErrorWire

namespace Wiring

/-- No redirection. -/
def none : Wiring := ⟨.none, .none, .none⟩

/-- An input with some data. -/
def addInput (w : Wiring) (data : Octets) : Wiring := { w with stdin := some data }

/-- An output, with what goes wrong there. -/
def addOutput (w : Wiring) (op : RedirectOp) (refusal : Option Errno) : Wiring :=
  match op with
  | .output | .append => { w with stdout := some refusal }
  | .error | .errorAppend => { w with stderr := some (.file refusal) }
  | .both | .bothAlt => { w with stdout := some refusal, stderr := some (.file refusal) }
  | .input | .errorToOutput => w

/-- Standard error leads where standard output leads. -/
def joinError (w : Wiring) : Wiring :=
  { w with stderr := some (match w.stdout with
      | some refusal => .file refusal
      | .none => .output) }

/-- One more redirection, if it can be opened. -/
def openOne (os : Ideal) (s : Session) (w : Wiring) (d : Redirect) : Option Wiring :=
  match d.op with
  | .errorToOutput => some w.joinError
  | op => match Word.expand s os.view.tree os.view.self d.file with
    | [name] =>
      if name.isEmpty then .none
      else match op with
        | .input => match os.input (s.resolve name) with
          | .ok data => some (w.addInput data)
          | .error _ => .none
        | _ => match os.output (s.resolve name) op.appends with
          | .ok refusal => some (w.addOutput op refusal)
          | .error _ => .none
    | _ => .none

/-- All redirections, if they can be opened. -/
def openAll (os : Ideal) (s : Session) (w : Wiring) : List Redirect → Option Wiring
  | [] => some w
  | d :: rest => match w.openOne os s d with
    | some w => w.openAll os s rest
    | .none => .none

/-- A redirection that can be opened, other than `2>&1`, has one name for its file. -/
lemma exists_of_openOne {os : Ideal} {s : Session} {w w' : Wiring} {d : Redirect}
    (hd : d.op ≠ .errorToOutput) (h : w.openOne os s d = some w') :
    ∃ name, Word.expand s os.view.tree os.view.self d.file = [name] ∧ name.isEmpty = false ∧
      ((d.op = .input ∧ ∃ data, os.input (s.resolve name) = .ok data ∧ w' = w.addInput data) ∨
        (d.op ≠ .input ∧ ∃ refusal, os.output (s.resolve name) d.op.appends = .ok refusal ∧
          w' = w.addOutput d.op refusal)) := by
  unfold openOne at h
  split at h
  case h_1 hop => exact absurd hop hd
  case h_2 op =>
    split at h
    case h_2 => cases h
    case h_1 name hname =>
      refine ⟨name, hname, ?_⟩
      split at h
      case isTrue => cases h
      case isFalse hsome =>
        refine ⟨by simpa using hsome, ?_⟩
        split at h
        case h_1 hop =>
          split at h
          case h_1 data hdata => exact .inl ⟨hop, data, hdata, (Option.some.inj h).symm⟩
          case h_2 => cases h
        case h_2 hop =>
          split at h
          case h_1 refusal hrefusal => exact .inr ⟨hop, refusal, hrefusal, (Option.some.inj h).symm⟩
          case h_2 => cases h

/-- What goes wrong with writes to an output. -/
def refusal (w : Wiring) (port : Port) : Outlet → Option Errno
  | .out => w.stdout.getD port.out
  | .err => match w.stderr with
    | some (.file refusal) => refusal
    | some .output => port.out
    | .none => port.err

/-- What is written to an output gets to the standard output that the pipeline supplies. -/
def leads (w : Wiring) (port : Port) (outlet : Outlet) : Bool :=
  (match outlet with
    | .out => w.stdout.isNone
    | .err => w.stderr matches some .output) && port.out.isNone

/-- What gets to the standard output that the pipeline supplies. -/
def passed (w : Wiring) (port : Port) : List (Outlet × Octets) → Octets
  | [] => ""
  | (outlet, data) :: rest => (if w.leads port outlet then data else "") ++ w.passed port rest

end Wiring

/-! ## Builtins -/

namespace Builtin

/-- What an outcome writes before something goes wrong, and what it comes to then. -/
def performed (refusal : Outlet → Option Errno) (o : Outcome) :
    List Write → List (Outlet × Octets) × (Except ShellError Int × Session)
  | [] => ([], o.result, o.session)
  | w :: rest =>
    if w.text.isEmpty then performed refusal o rest
    else match refusal w.outlet with
      | some e => ([], .error (.io (.os e)), w.session)
      | none =>
        let (writes, r) := performed refusal o rest
        ((w.outlet, Octets.ofText w.text) :: writes, r)

/-- What a builtin that does not deal with jobs writes, its status and the session behind it. -/
def deed (refusal : Outlet → Option Errno) (b : Builtin) (argv : List String) (s : Session)
    (v : View) : List (Outlet × Octets) × Int × Session :=
  match b.outcome argv.tail s v with
  | none => ([], 0, s)
  | some o => match performed refusal o o.writes with
    | (writes, .ok code, s) => (writes, code, s)
    | (writes, .error e, s) =>
      (writes ++ [(.err, Octets.ofText (b.name ++ ": " ++ e.describe ++ "\n"))], 1, s)

end Builtin

/-! ## What is looked at -/

/-- No piece of the word asks for files. -/
def Word.IsPlain (word : String) : Prop :=
  ∀ s self, (Word.allPieces s self word).any Word.Piece.isWildcard = false

/-- Something that may depend on the file tree. -/
inductive Sight where
  /-- A word is expanded. -/
  | word (w : String)
  /-- A builtin runs. -/
  | builtin (b : Builtin) (args : List String) (s : Session)

/-- The sight does not depend on what changes while something runs: words ask for no files, and a
builtin does the same in every view. -/
def Sight.Steady (os : Ideal) : Sight → Prop
  | .word w => Word.IsPlain w
  | .builtin b args s => ∀ v, os.Sees v → b.outcome args s v = b.outcome args s os.view

/-- A word that asks for no files means the same in every file tree. -/
lemma Word.IsPlain.expand_eq {word : String} (h : Word.IsPlain word) (s : Session)
    (t t' : FileTree) (self : Pid) : Word.expand s t self word = Word.expand s t' self word := by
  simp [Word.expand, h s self]

/-- All words of a simple command. -/
def SimpleCommand.sights (c : SimpleCommand) : List Sight :=
  (assignments c.parts).map (.word ·.2) ++ (operands c.parts).map .word ++
    c.redirects.map (.word ·.file)

/-- A simple command whose words ask for no files is the same in every view. -/
lemma SimpleCommand.action_eq {os : Ideal} {c : SimpleCommand}
    (h : ∀ sight ∈ c.sights, sight.Steady os) (s : Session) {v : View} (hv : os.Sees v) :
    c.action s v = c.action s os.view := by
  have hself := os.self_eq v hv
  have hvalue (a : String × String) (ha : a ∈ assignments c.parts) :
      Word.expand s v.tree v.self a.2 = Word.expand s os.view.tree os.view.self a.2 := by
    have hplain : Word.IsPlain a.2 := h (.word a.2) (by simp [sights]; grind)
    rw [hself, hplain.expand_eq]
  have hoperands : Word.expandAll s v.tree v.self (operands c.parts) =
      Word.expandAll s os.view.tree os.view.self (operands c.parts) := by
    unfold Word.expandAll
    rw [List.flatMap_def, List.flatMap_def]
    refine congrArg List.flatten (List.map_congr_left fun word hword => ?_)
    have hplain : Word.IsPlain word := h (.word word) (by simp [sights, hword])
    rw [hself, hplain.expand_eq]
  unfold SimpleCommand.action
  rw [hoperands]
  cases Word.expandAll s os.view.tree os.view.self (operands c.parts) with
  | nil => exact congrArg Action.assign (List.map_congr_left fun a ha => by simp only [hvalue a ha])
  | cons name args =>
    cases hname : Builtin.ofName? name with
    | some b => simp [hname]
    | none =>
      simp only [hname]
      exact congrArg _ (List.map_congr_left fun a ha => by simp only [hvalue a ha])

/-! ## What commands come to -/

/-- What a command comes to. -/
structure Flow where
  /-- What it has written to its standard output. -/
  out : Octets
  code : Int
  session : Session
  /-- What it has left of its input. -/
  rest : Octets
  sights : List Sight

/-- What comes behind a command. -/
def Flow.andThen (f g : Flow) : Flow :=
  { g with out := f.out ++ g.out, sights := f.sights ++ g.sights }

/-- What the stages of a pipeline come to. -/
structure Course where
  out : Octets
  /-- The codes of the stages. -/
  codes : List Int
  session : Session
  rest : Octets
  sights : List Sight

/-- A stage as a pipeline by itself. -/
def Course.ofStage (f : Flow) : Course := ⟨f.out, [f.code], f.session, f.rest, f.sights⟩

/-- A stage in front of others, which read what it writes. -/
def Course.behind (f : Flow) (g : Course) : Course :=
  ⟨g.out, f.code :: g.codes, g.session, f.rest, f.sights ++ g.sights⟩

/-- What a simple command comes to; with `copied` it works on a copy of the session. -/
def SimpleCommand.flow (os : Ideal) (c : SimpleCommand) (port : Port) (copied : Bool)
    (s : Session) (input : Octets) : Option Flow :=
  match Wiring.none.openAll os s c.redirects with
  | none => none
  | some w => match c.action s os.view with
    | .program argv vars =>
      match os.program ((Pipeline.called s argv).map Octets.ofText) (s.env.setAll vars).entries
          s.cwd with
      | .error e =>
        let report := "rshell: " ++ (ShellError.execution (argv.headD "") e).describe ++ "\n"
        some ⟨w.passed port [(.err, Octets.ofText report)], 1, s, input, c.sights⟩
      | .ok run =>
        let report := run (w.stdin.getD input)
        some ⟨w.passed port report.writes, report.code, s, if w.stdin.isSome then input else "",
          c.sights⟩
    | .builtin b argv =>
      if b.isJobControl then none
      else
        let (writes, code, after) := b.deed (w.refusal port) argv s os.view
        some ⟨w.passed port writes, code, if copied then s else after, input,
          c.sights ++ [.builtin b argv.tail s]⟩
    | .assign vars => some ⟨"", 0, if copied then s else s.setVars vars, input, c.sights⟩
    | .nested .. => none

mutual

/-- What a command comes to. -/
def Command.flow (os : Ideal) : Command → Port → Session → Octets → Option Flow
  | ⟨blocks⟩, port, s, input => Block.flowAll os blocks port s.status s input

/-- What blocks come to, behind one with the given status. -/
def Block.flowAll (os : Ideal) : List Block → Port → Int → Session → Octets → Option Flow
  | [], _, status, s, input => some ⟨"", status, s, input, []⟩
  | b :: rest, port, _, s, input => do
    let f ← b.flow os port s input
    match f.session.exitRequested with
    | some code => some { f with code }
    | none => (Block.flowAll os rest port f.code f.session f.rest).map f.andThen

/-- What a block comes to. -/
def Block.flow (os : Ideal) : Block → Port → Session → Octets → Option Flow
  | ⟨first, rest⟩, port, s, input => do
    let f ← first.flow os port s input
    (Link.flowAll os rest port f.code { f.session with status := f.code } f.rest).map f.andThen

/-- What chained pipelines come to. -/
def Link.flowAll (os : Ideal) : List Link → Port → Int → Session → Octets → Option Flow
  | [], _, status, s, input => some ⟨"", status, s, input, []⟩
  | ⟨connector, pipeline⟩ :: rest, port, status, s, input =>
    if s.exitRequested.isSome then some ⟨"", status, s, input, []⟩
    else if connector.wants status then do
      let f ← pipeline.flow os port s input
      (Link.flowAll os rest port f.code { f.session with status := f.code } f.rest).map f.andThen
    else Link.flowAll os rest port status s input

/-- What a pipeline comes to. -/
def Pipeline.flow (os : Ideal) : Pipeline → Port → Session → Octets → Option Flow
  | ⟨elements, background⟩, port, s, input =>
    if background then none
    else (Element.flowAll os elements port (1 < elements.length) s input).map fun f =>
      ⟨f.out, Pipeline.exitCode s.pipefail f.codes, f.session, f.rest, f.sights⟩

/-- What the elements of a pipeline come to, from the first that reads `input`.  Writing into a
pipe never fails. -/
def Element.flowAll (os : Ideal) : List Element → Port → Bool → Session → Octets → Option Course
  | [], _, _, s, input => some ⟨"", [], s, input, []⟩
  | [e], port, copied, s, input => (e.flow os port copied s input).map .ofStage
  | e :: rest, port, copied, s, input => do
    let f ← e.flow os ⟨none, port.err⟩ copied s input
    (Element.flowAll os rest port copied s f.out).map (.behind f)

/-- What an element comes to; with `copied` it works on a copy of the session. -/
def Element.flow (os : Ideal) : Element → Port → Bool → Session → Octets → Option Flow
  | .simple c, port, copied, s, input => c.flow os port copied s input
  | .subshell body, port, _, s, input =>
    (body.flow os port s input).map ({ · with session := s })
  | .group body, port, copied, s, input =>
    (body.flow os port s input).map fun f => { f with session := if copied then s else f.session }

end

/-- What gets nowhere has no effect. -/
lemma Wiring.passed_eq_empty {w : Wiring} {port : Port} (h : ∀ o, w.leads port o = false)
    (writes : List (Outlet × Octets)) : w.passed port writes = "" := by
  induction writes with
  | nil => rfl
  | cons first rest ih => simp [passed, h, ih]

/-- A simple command that the shell runs itself does not read. -/
lemma SimpleCommand.flow_inside {os : Ideal} {c : SimpleCommand} {port : Port} {copied : Bool}
    {s : Session} {input : Octets} {f : Flow} {w : Wiring}
    (hw : Wiring.none.openAll os s c.redirects = some w)
    (hflow : c.flow os port copied s input = some f)
    (hinside : (c.action s os.view).isProgram = false) :
    f.rest = input ∧ ((∀ o, w.leads port o = false) → f.out = "") := by
  simp only [flow, hw] at hflow
  cases haction : c.action s os.view with
  | program argv vars => simp [haction, Action.isProgram] at hinside
  | builtin b argv =>
    simp only [haction] at hflow
    split at hflow
    · cases hflow
    · cases hflow
      exact ⟨rfl, fun hnowhere => Wiring.passed_eq_empty hnowhere _⟩
  | assign vars =>
    simp only [haction] at hflow
    cases hflow
    exact ⟨rfl, fun _ => rfl⟩
  | nested body copy => simp [haction] at hflow

namespace Element

/-- What an element runs. -/
def action (os : Ideal) (s : Session) : Element → Action
  | .simple c => c.action s os.view
  | .subshell body => .nested body true
  | .group body => .nested body false

/-- What is behind the redirections of an element, if they can be opened. -/
def wiring (os : Ideal) (s : Session) : Element → Option Wiring
  | .simple c => Wiring.none.openAll os s c.redirects
  | _ => some .none

/-- The words that are expanded in front of an element. -/
def words : Element → List Sight
  | .simple c => c.sights
  | _ => []

/-- The redirections of an element that means something can be opened. -/
lemma exists_wiring {os : Ideal} {e : Element} {port : Port} {copied : Bool} {s : Session}
    {input : Octets} {f : Flow} (h : e.flow os port copied s input = some f) :
    ∃ w, e.wiring os s = some w := by
  cases e with
  | simple c =>
    simp only [flow, SimpleCommand.flow] at h
    cases hw : Wiring.none.openAll os s c.redirects with
    | none => simp [hw] at h
    | some w => exact ⟨w, hw⟩
  | subshell body => exact ⟨_, rfl⟩
  | group body => exact ⟨_, rfl⟩

/-- An element that works on a copy leaves the session alone; so does a program. -/
lemma flow_session {os : Ideal} {e : Element} {port : Port} {copied : Bool} {s : Session}
    {input : Octets} {f : Flow} (h : e.flow os port copied s input = some f)
    (hcopied : copied = true ∨ (e.action os s).isProgram = true) : f.session = s := by
  cases e with
  | simple c =>
    simp only [flow, SimpleCommand.flow] at h
    split at h
    · cases h
    · cases haction : c.action s os.view with
      | program argv vars =>
        simp only [haction] at h
        split at h <;> cases h <;> rfl
      | builtin b argv =>
        have hcopied : copied = true := by simpa [action, haction, Action.isProgram] using hcopied
        simp only [haction, hcopied] at h
        split at h
        · cases h
        · cases h
          rfl
      | assign vars =>
        have hcopied : copied = true := by simpa [action, haction, Action.isProgram] using hcopied
        simp only [haction, hcopied] at h
        cases h
        rfl
      | nested body copy => simp [haction] at h
  | subshell body =>
    obtain ⟨g, -, rfl⟩ := Option.map_eq_some_iff.1 h
    rfl
  | group body =>
    have hcopied : copied = true := by simpa [action, Action.isProgram] using hcopied
    obtain ⟨g, -, rfl⟩ := Option.map_eq_some_iff.1 h
    simp [hcopied]

/-- What an element comes to depends on all its words. -/
lemma words_subset {os : Ideal} {e : Element} {port : Port} {copied : Bool} {s : Session}
    {input : Octets} {f : Flow} (h : e.flow os port copied s input = some f) :
    e.words ⊆ f.sights := by
  cases e with
  | simple c =>
    simp only [flow, SimpleCommand.flow] at h
    split at h
    · cases h
    · split at h
      · split at h <;> cases h <;> exact List.Subset.refl _
      · split at h
        · cases h
        · cases h
          exact List.subset_append_left _ _
      · cases h
        exact List.Subset.refl _
      · cases h
  | subshell body => exact List.nil_subset _
  | group body => exact List.nil_subset _

end Element

end Conch
