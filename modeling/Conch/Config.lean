import Conch.FileTree
import Conch.Session
import Conch.Text.Blank
import Conch.Toml.Parse

/-!
# Settings

What the user can set in the configuration file, with the values that hold without one.  A file
that is missing or broken counts as empty.

## Main definitions

* `Conch.Level` — how much the log file tells.
* `Conch.Config` — the settings; `Config.parse?` reads a file, `Config.load` finds it.
* `Conch.Config.expandHome` — a leading `~` in the name of a file.
-/

set_option autoImplicit false

namespace Conch

/-- How much the log file tells. -/
inductive Level where
  | off
  | error
  | warn
  | info
  | debug
  | trace
  deriving DecidableEq, Repr, Inhabited

namespace Level

/-- The name of a level. -/
def name : Level → String
  | off => "OFF"
  | error => "ERROR"
  | warn => "WARN"
  | info => "INFO"
  | debug => "DEBUG"
  | trace => "TRACE"

/-- The level with a name, in any case and between blanks. -/
def parse? (text : String) : Option Level :=
  let word := String.ofList ((Text.trim text.toList).map Char.toUpper)
  [off, error, warn, info, debug, trace].find? (·.name = word)

end Level

/-- The settings. -/
structure Config where
  /-- A pipeline fails if any of its stages does. -/
  pipefail : Bool := false
  historyFile : String := "~/.rshell_history"
  /-- How many entries the history keeps. -/
  historyBound : Nat := 1000
  /-- The level of the log file, as written. -/
  logLevel : String := "warn"
  logFile : String := "~/.local/share/rshell/rshell.log"
  promptSymbol : String := ">"
  promptColor : Bool := true
  deriving DecidableEq, Repr, Inhabited

namespace Config

open Toml

/-- The level of the log file; an unknown one counts as `warn`. -/
def level (c : Config) : Level := (Level.parse? c.logLevel).getD .warn

/-- A switch. -/
def asBool : Item → Option Bool
  | .boolean b => some b
  | _ => none

/-- A text. -/
def asText : Item → Option String
  | .string s => some s
  | _ => none

/-- A number of entries. -/
def asCount : Item → Option Nat
  | .integer (.ofNat n) => some n
  | _ => none

/-- The setting at a place of a section: `default` if it is absent, nothing if it is of another
kind. -/
def setting {α : Type} (read : Item → Option α) (section_ : Option Item) (position : Nat)
    (name : String) (default : α) : Option α :=
  match section_ with
  | none => some default
  | some item => match item.member? position name with
    | none => none
    | some none => some default
    | some (some item) => read item

/-- The settings in a file with this text; nothing if the text is malformed or a setting is of
the wrong kind.  Unknown keys mean nothing. -/
def parse? (text : String) : Option Config := do
  let file ← Toml.parse text
  let part (position : Nat) (name : String) : Option Item := (file.member? position name).join
  let shell := part 0 "shell"
  let history := part 1 "history"
  let log := part 2 "log"
  let prompt := part 3 "prompt"
  let d : Config := {}
  return {
    pipefail := ← setting asBool shell 0 "pipefail" d.pipefail
    historyFile := ← setting asText history 0 "file" d.historyFile
    historyBound := ← setting asCount history 1 "max_entries" d.historyBound
    logLevel := ← setting asText log 0 "level" d.logLevel
    logFile := ← setting asText log 1 "file" d.logFile
    promptSymbol := ← setting asText prompt 0 "symbol" d.promptSymbol
    promptColor := ← setting asBool prompt 1 "color" d.promptColor }

/-- The settings in the file at a path; a missing or broken file counts as empty. -/
def loadFrom (t : FileTree) (path : String) : Config :=
  (((t.read? path).bind Text.Octets.toText?).bind parse?).getD {}

/-- The name of the configuration file. -/
def path? (env : Env) : Option String :=
  env.get? "RSHELL_CONFIG" <|> (env.get? "HOME").map (Path.join · ".config/rshell/config.toml")

/-- The settings of a shell that is started in the directory `start`. -/
def load (t : FileTree) (start : String) (env : Env) : Config :=
  match path? env with
  | none => {}
  | some "" => {}
  | some path => loadFrom t (Path.join start path)

/-- A leading `~`, alone or in front of a slash, stands for the home directory. -/
def expandHome (home : Option String) (path : String) : String :=
  match path.toList, home with
  | '~' :: rest, some home =>
    if rest.isEmpty || rest.head? = some '/' then
      Path.join home (String.ofList (rest.dropWhile (· = '/')))
    else path
  | _, _ => path

end Config

end Conch
