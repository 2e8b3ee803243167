import Conch.Command
import Conch.SyntaxError
import Mathlib.Tactic.Common

/-!
# The grammar of command lines

Which tokens spell which command, said without a parser.  Every relation of this module has the
form `R ts tree rest`: the tokens `ts` start with a spelling of `tree`, and `rest` follows it.
The tokens that follow matter in one place only, where a simple command has to end.

## Main definitions

* `Conch.Grammar.Items` — words and redirections in any order.
* `Conch.Grammar.Elem`, `Conch.Grammar.Elems`, `Conch.Grammar.Pipe`, `Conch.Grammar.Chain`,
  `Conch.Grammar.Blocks` — elements, elements joined by `|`, pipelines, blocks and lists of
  blocks.
* `Conch.Grammar.Derives` — the tokens of a whole line.
-/

set_option autoImplicit false

namespace Conch.Grammar

/-- The word that opens a group where an element may start. -/
abbrev lbrace : Token := .word "\x7b"

/-- The word that closes a group where a block may start. -/
abbrev rbrace : Token := .word "\x7d"

/-- The token goes on with a simple command in front of it. -/
def isItem : Token → Bool
  | .word _ | .redirect _ => true
  | _ => false

/-- A simple command in front of these tokens ends there. -/
def Stops (rest : List Token) : Prop := ∀ t ∈ rest.head?, isItem t = false

/-- Words and redirections in any order.  A file follows every redirection operator but
`2>&1`. -/
inductive Items : List Token → List String → List Redirect → List Token → Prop where
  | nil (rest : List Token) : Items rest [] [] rest
  | word {w : String} {ts rest : List Token} {ws : List String} {rs : List Redirect} :
      Items ts ws rs rest → Items (.word w :: ts) (w :: ws) rs rest
  | file {op : RedirectOp} {f : String} {ts rest : List Token} {ws : List String}
      {rs : List Redirect} : op ≠ .errorToOutput →
      Items ts ws rs rest → Items (.redirect op :: .word f :: ts) ws (⟨op, f⟩ :: rs) rest
  | join {ts rest : List Token} {ws : List String} {rs : List Redirect} :
      Items ts ws rs rest →
      Items (.redirect .errorToOutput :: ts) ws (⟨.errorToOutput, ""⟩ :: rs) rest

/-- A block may start here.  In a group the word that closes it starts none. -/
def CanStart (o : Option Opener) (ts : List Token) : Prop :=
  o = some .brace → ts.head? ≠ some rbrace

mutual

/-- One element.  The flag is that of a simple command at the end of a background pipeline. -/
inductive Elem : Bool → List Token → Element → List Token → Prop where
  /-- Words and redirections, at least one of them and as many as there are. -/
  | simple {bg : Bool} {ts rest : List Token} {ws : List String} {rs : List Redirect} :
      Items ts ws rs rest → ws ≠ [] ∨ rs ≠ [] → ts.head? ≠ some lbrace → Stops rest →
      Elem bg ts (.simple ⟨ws, rs, bg⟩) rest
  | subshell {bg : Bool} {ts rest : List Token} {bs : List Block} :
      Blocks (some .paren) ts bs (.rparen :: rest) →
      Elem bg (.lparen :: ts) (.subshell ⟨bs⟩) rest
  | group {bg : Bool} {ts rest : List Token} {bs : List Block} :
      Blocks (some .brace) ts bs (rbrace :: rest) →
      Elem bg (lbrace :: ts) (.group ⟨bs⟩) rest

/-- Elements joined by `|`.  The flag reaches the last of them alone. -/
inductive Elems : Bool → List Token → List Element → List Token → Prop where
  | one {bg : Bool} {ts rest : List Token} {e : Element} :
      Elem bg ts e rest → Elems bg ts [e] rest
  | cons {bg : Bool} {ts mid rest : List Token} {e : Element} {es : List Element} :
      Elem false ts e (.pipe :: mid) → Elems bg mid es rest → Elems bg ts (e :: es) rest

/-- A pipeline, with or without `&` behind it. -/
inductive Pipe : List Token → Pipeline → List Token → Prop where
  | foreground {ts rest : List Token} {es : List Element} :
      Elems false ts es rest → Pipe ts ⟨es, false⟩ rest
  | background {ts rest : List Token} {es : List Element} :
      Elems true ts es (.amp :: rest) → Pipe ts ⟨es, true⟩ rest

/-- Pipelines joined by `&&` and `||`, of which only the last may be in the background. -/
inductive Chain : List Token → Block → List Token → Prop where
  | one {ts rest : List Token} {p : Pipeline} : Pipe ts p rest → Chain ts ⟨p, []⟩ rest
  | cons {ts mid rest : List Token} {p q : Pipeline} {c : Connector} {links : List Link} :
      Pipe ts p (.connector c :: mid) → p.background = false → Chain mid ⟨q, links⟩ rest →
      Chain ts ⟨p, ⟨c, q⟩ :: links⟩ rest

/-- One or more blocks of a list that `o` opened, or of a line.  A `;` follows a block in the
foreground and may follow one in the background; the last may have one in a nested list. -/
inductive Blocks : Option Opener → List Token → List Block → List Token → Prop where
  | last {o : Option Opener} {ts rest : List Token} {b : Block} :
      CanStart o ts → Chain ts b rest → Blocks o ts [b] rest
  | lastSemi {o : Option Opener} {ts rest : List Token} {b : Block} :
      CanStart o ts → o ≠ none → Chain ts b (.semi :: rest) → Blocks o ts [b] rest
  | semi {o : Option Opener} {ts mid rest : List Token} {b : Block} {bs : List Block} :
      CanStart o ts → Chain ts b (.semi :: mid) → Blocks o mid bs rest →
      Blocks o ts (b :: bs) rest
  | background {o : Option Opener} {ts mid rest : List Token} {b : Block} {bs : List Block} :
      CanStart o ts → b.background = true → Chain ts b mid → Blocks o mid bs rest →
      Blocks o ts (b :: bs) rest

end

/-- The tokens of a line spell the command. -/
def Derives (ts : List Token) (c : Command) : Prop := Blocks none ts c.blocks []

end Conch.Grammar
