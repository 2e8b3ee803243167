import Conch.Act
import Conch.Name
import Conch.ShellError
import Conch.Word

/-!
# Planning a pipeline

Before any stage of a pipeline runs, the words of every stage are expanded and its redirections
are opened, from left to right.  The first failure ends the plan.

## Main definitions

* `Conch.Redirections.resolve` — open the redirections of a command.
* `Conch.SimpleCommand.action` — what a simple command runs.
* `Conch.Element.planAll` — the stages of a pipeline.
-/

set_option autoImplicit false

namespace Conch

open Act (ask)

namespace Redirections

/-- The file behind a redirection: its word has to stand for exactly one name. -/
def target (s : Session) (word : String) : Act (Except ShellError String) := do
  let v ← ask .view
  match Word.expand s v.tree v.self word with
  | [name] => if name.isEmpty then return .error (.ambiguousRedirect word) else return .ok name
  | _ => return .error (.ambiguousRedirect word)

/-- Open the file `name` for a redirection. -/
def openFile (s : Session) (op : RedirectOp) (name : String) :
    Act (Except ShellError FileId) := do
  let path := s.resolve name
  let opened ← match op with
    | .input => ask (.openInput path)
    | _ => ask (.openOutput path op.appends)
  match opened with
  | .ok f => return .ok f
  | .error e => return .error (.redirection name e)

/-- Open one more redirection. -/
def openOne (s : Session) (r : Redirections) (d : Redirect) :
    Act (Except ShellError Redirections) := do
  match d.op with
  | .errorToOutput => return .ok r.joinError
  | op => match ← target s d.file with
    | .error e => return .error e
    | .ok name => match ← openFile s op name with
      | .error e => return .error e
      | .ok f => return .ok (r.add op f)

/-- Open redirections from left to right, behind those in `r`. -/
def resolve (s : Session) (r : Redirections) : List Redirect → Act (Except ShellError Redirections)
  | [] => pure (.ok r)
  | d :: rest => do
    match ← openOne s r d with
    | .error e => return .error e
    | .ok r => resolve s r rest

end Redirections

namespace SimpleCommand

/-- The words `NAME=value` in front of a command. -/
def assignments (words : List String) : List (String × String) :=
  (words.takeWhile fun w => (Name.splitAssignment w).isSome).filterMap Name.splitAssignment

/-- The words behind the assignments. -/
def operands (words : List String) : List String :=
  words.dropWhile fun w => (Name.splitAssignment w).isSome

/-- What a simple command runs: assignments if its other words expand to nothing, a builtin if
the first field names one, else a program. -/
def action (c : SimpleCommand) (s : Session) (v : View) : Action :=
  let vars := (assignments c.parts).map fun (name, value) =>
    (name, " ".intercalate (Word.expand s v.tree v.self value))
  match Word.expandAll s v.tree v.self (operands c.parts) with
  | [] => .assign vars
  | name :: args => match Builtin.ofName? name with
    | some b => .builtin b (name :: args)
    | none => .program (name :: args) vars

end SimpleCommand

namespace Element

/-- The stage that an element makes. -/
def plan (s : Session) : Element → Act (Except ShellError Stage)
  | .subshell body => pure (.ok ⟨.nested body true, .none⟩)
  | .group body => pure (.ok ⟨.nested body false, .none⟩)
  | .simple c => do
    let v ← ask .view
    match ← Redirections.resolve s .none c.redirects with
    | .error e => return .error e
    | .ok r => return .ok ⟨c.action s v, r⟩

/-- The stages of a pipeline. -/
def planAll (s : Session) : List Element → Act (Except ShellError (List Stage))
  | [] => pure (.ok [])
  | e :: rest => do
    match ← plan s e with
    | .error e => return .error e
    | .ok stage => match ← planAll s rest with
      | .error e => return .error e
      | .ok stages => return .ok (stage :: stages)

end Element

end Conch
