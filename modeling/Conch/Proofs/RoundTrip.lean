import Conch.Proofs.Parser
import Conch.Proofs.Scanner

/-!
# Printing and reading back

A command prints as a line, and the line is read back as the same command.  Printing moves the
redirections of a simple command behind its words, so a word may come to stand where it is taken
for something else: at the start of the command, in front of a blank, or at the start of a group.
The three conditions of this module exclude just these, and each of them is needed.

## Main definitions

* `Conch.Occurs` — an element stands in a list of elements, at any depth.
* `Conch.Command.OpensNoGroup`, `Conch.Command.ClosesNoGroup`,
  `Conch.Command.EscapesNoBlank` — the three conditions.
* `Conch.Scanner.Apart` — tokens that can be written with blanks between them.

## Main results

* `Conch.Grammar.Blocks.reprint` — the text of a derived list spells tokens that derive it again.
* `Conch.Command.parse_text` — the round trip, and the need for each condition.
-/

set_option autoImplicit false

namespace Conch

/-! ## Elements at any depth -/

/-- The pipelines of a block. -/
def Block.pipelines (b : Block) : List Pipeline := b.first :: b.rest.map Link.pipeline

/-- The elements of a block, without those of its nested commands. -/
def Block.elements (b : Block) : List Element := b.pipelines.flatMap Pipeline.elements

/-- The elements of a command, without those of its nested commands. -/
def Command.elements (c : Command) : List Element := c.blocks.flatMap Block.elements

/-- The element `e` is one of the elements or stands inside one, at any depth. -/
inductive Occurs (e : Element) : List Element → Prop where
  | here {es : List Element} : e ∈ es → Occurs e es
  | subshell {es : List Element} {body : Command} :
      .subshell body ∈ es → Occurs e body.elements → Occurs e es
  | group {es : List Element} {body : Command} :
      .group body ∈ es → Occurs e body.elements → Occurs e es

lemma Occurs.mono {e : Element} {es es' : List Element} (h : Occurs e es) (hsub : es ⊆ es') :
    Occurs e es' := by
  cases h with
  | here h => exact .here (hsub h)
  | subshell h hbody => exact .subshell (hsub h) hbody
  | group h hbody => exact .group (hsub h) hbody

/-- The block starts with a simple command whose first word is `w`. -/
def Block.StartsWith (b : Block) (w : String) : Prop :=
  ∃ s, b.first.elements.head? = some (.simple s) ∧ s.parts.head? = some w

/-- No simple command has the word that opens a group as its first word. -/
def Command.OpensNoGroup (c : Command) : Prop :=
  ∀ s, Occurs (.simple s) c.elements → s.parts.head? ≠ some "\x7b"

/-- No block of a group starts with the word that closes the group. -/
def Command.ClosesNoGroup (c : Command) : Prop :=
  ∀ body, Occurs (.group body) c.elements → ∀ b ∈ body.blocks, ¬b.StartsWith "\x7d"

/-- The line does not end in a backslash that escapes nothing and belongs to a word of a simple
command with a redirection. -/
def Command.EscapesNoBlank (line : String) (c : Command) : Prop :=
  ¬((Scanner.after line).phase = .escape ∧
    ∃ s, Occurs (.simple s) c.elements ∧ s.redirects ≠ [] ∧ ∃ w ∈ s.parts, Scanner.Dangles w)

/-! ## Tokens with blanks between them -/

namespace Scanner

/-- The tokens stand apart when blanks are put between them.  Only the last may be a word that
ends in a backslash, and only if `d` holds. -/
inductive Apart (d : Prop) : List Token → Prop where
  | nil : Apart d []
  | cons {t : Token} {ts : List Token} : IsClean t → Apart d ts → Apart d (t :: ts)
  | dangling {w : String} : d → Dangles w → Apart d [.word w]

namespace Apart

variable {d d' : Prop} {t : Token} {ts xs ys : List Token}

lemma mono (h : Apart d ts) (hd : d → d') : Apart d' ts := by
  induction h with
  | nil => exact .nil
  | cons ht _ ih => exact .cons ht ih
  | dangling h hw => exact .dangling (hd h) hw

lemma tail (h : Apart d (t :: ts)) : Apart d ts := by
  cases h with
  | cons _ h => exact h
  | dangling => exact .nil

lemma append (hxs : ∀ t ∈ xs, IsClean t) (hys : Apart d ys) : Apart d (xs ++ ys) := by
  induction xs with
  | nil => exact hys
  | cons t xs ih =>
    exact .cons (hxs t (.head _)) (ih fun t ht => hxs t (.tail _ ht))

lemma of_isClean (h : ∀ t ∈ ts, IsClean t) : Apart d ts := by
  simpa using append h (nil (d := d))

lemma right (h : Apart d (xs ++ ys)) : Apart d ys := by
  induction xs with
  | nil => exact h
  | cons t xs ih => exact ih h.tail

/-- Only a word at the very end may end in a backslash. -/
lemma isClean_left (h : Apart d (xs ++ ys))
    (hdangle : ys = [] → d → ∀ w, .word w ∈ xs → ¬Dangles w) : ∀ t ∈ xs, IsClean t := by
  induction xs with
  | nil => simp
  | cons t xs ih =>
    intro u hu
    generalize hts : t :: xs ++ ys = ts at h
    cases h with
    | nil => simp at hts
    | cons ht h =>
      obtain ⟨rfl, rfl⟩ := List.cons.inj hts
      rcases List.mem_cons.mp hu with rfl | hu
      · exact ht
      · exact ih h (fun hnil hd w hw => hdangle hnil hd w (.tail _ hw)) u hu
    | @dangling w hd hw =>
      obtain ⟨rfl, hnil⟩ := List.cons.inj hts
      exact (hdangle (List.append_eq_nil_iff.mp hnil).2 hd w (.head _) hw).elim

end Apart

/-- **The tokens of a line stand apart**, and its last word ends in a backslash only if the line
does. -/
lemma apart_of_tokenize {line : String} {ts : List Token} (h : Token.tokenize line = .ok ts) :
    Apart ((after line).phase = .escape) ts := by
  rw [tokenize_eq] at h
  obtain ⟨ls, hls, rfl⟩ := exists_of_map_eq_ok h
  -- a token among lexemes whose words all end where they are
  have hclean : ∀ {ls : List Lexeme}, (∀ w, .token (.word w) ∈ ls → IsWord w) →
      ∀ t ∈ Token.ofLexemes none false ls, IsClean t := by
    intro ls hls t ht
    cases t with
    | word w => exact hls w ((mem_ofLexemes ht).resolve_left (by simp))
    | _ => trivial
  rcases lexemes_after hls with hall | ⟨hphase, front, w, rfl, hw, hall⟩
  · exact .of_isClean (hclean hall)
  · obtain ⟨p, -, happend⟩ := ofLexemes_append none false front nofun
    rw [happend]
    refine .append (hclean hall) ?_
    cases p with
    | false => exact .dangling hphase hw
    | true => exact .cons trivial (.dangling hphase hw)

lemma Apart.dropLastSemi {d : Prop} {ts : List Token} (h : Apart d ts) :
    Apart d (Token.dropLastSemi ts) := by
  unfold Token.dropLastSemi
  split
  · rename_i hlast
    obtain ⟨front, rfl⟩ := List.getLast?_eq_some_iff.mp hlast
    rw [List.dropLast_concat]
    exact .of_isClean (h.isClean_left (by simp))
  · exact h

lemma Spells.apart {cs : List Char} {ts : List Token} (h : Spells cs ts) : Apart True ts := by
  induction h with
  | nil => exact .nil
  | blank _ ih => exact ih
  | lparen _ ih => exact .cons trivial ih
  | cons ht _ _ ih => exact .cons ht ih
  | dangling hw => exact .dangling trivial hw

end Scanner

/-! ## Simple commands -/

/-- A word or a redirection of a simple command. -/
inductive PrintedItem where
  | word (w : String)
  | redirect (r : Redirect)

namespace PrintedItem

/-- The item as it is printed. -/
def text : PrintedItem → String
  | word w => w
  | redirect r => r.text

/-- The tokens that are printed for the item. -/
def tokens : PrintedItem → List Token
  | word w => [.word w]
  | redirect r => if r.op.takesFile then [.redirect r.op, .word r.file] else [.redirect r.op]

lemma tokens_ne_nil (i : PrintedItem) : i.tokens ≠ [] := by
  cases i with
  | word w => simp [tokens]
  | redirect r => simp only [tokens]; split <;> simp

end PrintedItem

/-- The items of a simple command in the order in which they are printed. -/
def SimpleCommand.items (s : SimpleCommand) : List PrintedItem :=
  s.parts.map .word ++ s.redirects.map .redirect

/-- The tokens of a simple command in the order in which they are printed. -/
def SimpleCommand.tokens (s : SimpleCommand) : List Token := s.items.flatMap PrintedItem.tokens

lemma SimpleCommand.text_eq (s : SimpleCommand) :
    s.text = " ".intercalate (s.items.map PrintedItem.text) := by
  simp [text, items, Function.comp_def, PrintedItem.text]

namespace Scanner

lemma breaks_blank (cs : List Char) : Breaks (' ' :: cs) := by
  simp [Breaks, isBreak]

/-- A word in front of a text that spells what follows. -/
lemma Spells.word {w : String} {cs : List Char} {ts : List Token}
    (ha : Apart True (.word w :: ts)) (h : Spells cs ts) (hbreaks : Breaks cs)
    (hnil : ts = [] → cs = []) : Spells (w.toList ++ cs) (.word w :: ts) := by
  cases ha with
  | cons hw _ => exact .cons hw hbreaks h
  | dangling _ hw =>
    rw [hnil rfl, List.append_nil]
    exact .dangling hw

/-- An item in front of a text that spells what follows. -/
lemma Spells.item {i : PrintedItem} {cs : List Char} {ts : List Token}
    (ha : Apart True (i.tokens ++ ts)) (h : Spells cs ts) (hbreaks : Breaks cs)
    (hnil : ts = [] → cs = []) : Spells (i.text.toList ++ cs) (i.tokens ++ ts) := by
  cases i with
  | word w => exact h.word ha hbreaks hnil
  | redirect r =>
    by_cases hfile : r.op.takesFile = true
    · simp only [PrintedItem.tokens, PrintedItem.text, Redirect.text, hfile, if_true] at ha ⊢
      have hspell := Spells.cons (t := .redirect r.op) trivial (breaks_blank _)
        (h.word ha.tail hbreaks hnil).blank
      simpa [Token.describe] using hspell
    · simp only [PrintedItem.tokens, PrintedItem.text, Redirect.text, hfile] at ha ⊢
      exact .cons (t := .redirect r.op) trivial hbreaks h

/-- Items in front of a text that spells what follows. -/
lemma Spells.items {items : List PrintedItem} {cs : List Char} {ts : List Token}
    (ha : Apart True (items.flatMap PrintedItem.tokens ++ ts)) (h : Spells cs ts)
    (hbreaks : Breaks cs) (hnil : ts = [] → cs = []) :
    Spells ((" ".intercalate (items.map PrintedItem.text)).toList ++ cs)
      (items.flatMap PrintedItem.tokens ++ ts) := by
  induction items with
  | nil => simpa using h
  | cons i items ih =>
    rw [List.flatMap_cons, List.append_assoc] at ha ⊢
    have hrest := ih ha.right
    cases items with
    | nil => simpa using h.item (by simpa using ha) hbreaks hnil
    | cons j items =>
      have hspell := hrest.blank.item ha (breaks_blank _)
        (by simp [j.tokens_ne_nil])
      simpa using hspell

end Scanner

namespace Grammar

open Scanner

lemma Items.file_eq {ts rest : List Token} {ws : List String} {rs : List Redirect}
    (h : Items ts ws rs rest) : ∀ r ∈ rs, r.op = .errorToOutput → r.file = "" := by
  induction h with
  | nil => simp
  | word _ ih => exact ih
  | file hop _ ih =>
    intro r hr hr'
    rcases List.mem_cons.mp hr with rfl | hr
    · exact (hop hr').elim
    · exact ih r hr hr'
  | join _ ih =>
    intro r hr hr'
    rcases List.mem_cons.mp hr with rfl | hr
    · rfl
    · exact ih r hr hr'

/-- The printed tokens of a simple command are its items. -/
lemma items_tokens {s : SimpleCommand}
    (hfile : ∀ r ∈ s.redirects, r.op = .errorToOutput → r.file = "") (rest : List Token) :
    Items (s.tokens ++ rest) s.parts s.redirects rest := by
  obtain ⟨ws, rs, bg⟩ := s
  have hrs : Items ((rs.map PrintedItem.redirect).flatMap PrintedItem.tokens ++ rest) [] rs
      rest := by
    induction rs with
    | nil => exact .nil rest
    | cons r rs ih =>
      have ih := ih fun r' hr' => hfile r' (.tail _ hr')
      obtain ⟨op, f⟩ := r
      by_cases hop : op = .errorToOutput
      · subst hop
        obtain rfl : f = "" := hfile _ (.head _) rfl
        exact .join ih
      · simp only [List.map_cons, List.flatMap_cons, PrintedItem.tokens, Parser.takesFile_of_ne hop]
        exact .file hop ih
  simp only [SimpleCommand.tokens, SimpleCommand.items, List.flatMap_append, List.append_assoc]
  clear hfile
  induction ws with
  | nil => exact hrs
  | cons w ws ih => exact .word ih

lemma Items.of_nil {ws : List String} {rs : List Redirect} {rest : List Token}
    (h : Items [] ws rs rest) : ws = [] ∧ rs = [] ∧ rest = [] := by
  cases h
  exact ⟨rfl, rfl, rfl⟩

/-- One more redirection in the printed tokens of a simple command whose words stand apart. -/
lemma apart_cons_redirect {d : Prop} {ws : List String} {rs : List Redirect} {r : Redirect}
    {bg : Bool} (h : Apart d (SimpleCommand.tokens ⟨ws, rs, bg⟩))
    (hr : ∀ t ∈ (PrintedItem.redirect r).tokens, IsClean t) (hws : d → ∀ w ∈ ws, ¬Dangles w) :
    Apart d (SimpleCommand.tokens ⟨ws, r :: rs, bg⟩) := by
  simp only [SimpleCommand.tokens, SimpleCommand.items, List.flatMap_append] at h ⊢
  refine .append (h.isClean_left fun _ hd w hw => hws hd w ?_) (.append hr h.right)
  simpa [PrintedItem.tokens] using hw

/-- **Printing keeps the tokens of a simple command apart**, unless a word that ends in a
backslash comes to stand in front of a redirection.  No word does where anything follows. -/
lemma Items.apart {d : Prop} {ts rest : List Token} {ws : List String} {rs : List Redirect}
    (h : Items ts ws rs rest) (bg : Bool) (ha : Apart d ts)
    (hws : d → rs ≠ [] → ∀ w ∈ ws, ¬Dangles w) :
    Apart d rest ∧ Apart (d ∧ rest = []) (SimpleCommand.tokens ⟨ws, rs, bg⟩) := by
  induction h with
  | nil rest => exact ⟨ha, .nil⟩
  | word hitems ih =>
    obtain ⟨hrest, htokens⟩ := ih ha.tail fun hd hrs v hv => hws hd hrs v (.tail _ hv)
    refine ⟨hrest, ?_⟩
    cases ha with
    | cons hw _ => exact .cons hw htokens
    | dangling hd hw =>
      obtain ⟨rfl, rfl, rfl⟩ := hitems.of_nil
      exact .dangling ⟨hd, rfl⟩ hw
  | @file op f _ _ _ _ hop hitems ih =>
    have hws' := fun hd => hws hd (List.cons_ne_nil _ _)
    obtain ⟨hrest, htokens⟩ := ih ha.tail.tail fun hd _ => hws' hd
    have hfile : (PrintedItem.redirect ⟨op, f⟩).tokens = [.redirect op, .word f] := by
      simp [PrintedItem.tokens, Parser.takesFile_of_ne hop]
    refine ⟨hrest, ?_⟩
    cases ha.tail with
    | cons hf _ =>
      refine apart_cons_redirect htokens ?_ fun hd => hws' hd.1
      rw [hfile]
      simpa [IsClean] using hf
    | dangling hd hf =>
      obtain ⟨rfl, rfl, rfl⟩ := hitems.of_nil
      have hlast : Apart (d ∧ ([] : List Token) = []) [.redirect op, .word f] :=
        .cons trivial (.dangling ⟨hd, rfl⟩ hf)
      simpa [SimpleCommand.tokens, SimpleCommand.items, hfile] using hlast
  | join _ ih =>
    have hws' := fun hd => hws hd (List.cons_ne_nil _ _)
    obtain ⟨hrest, htokens⟩ := ih ha.tail fun hd _ => hws' hd
    refine ⟨hrest, apart_cons_redirect htokens ?_ fun hd => hws' hd.1⟩
    simp [PrintedItem.tokens, RedirectOp.takesFile, IsClean]

/-! ## First words -/

/-- A word at the start of an element opens a group or is the first word of a simple command. -/
lemma Elem.head_word {bg : Bool} {ts rest : List Token} {e : Element} {w : String}
    (h : Elem bg ts e rest) (hw : ts.head? = some (.word w)) (hne : w ≠ "\x7b") :
    ∃ s, e = .simple s ∧ s.parts.head? = some w := by
  cases h with
  | simple hitems =>
    cases hitems with
    | nil => simp_all
    | word => exact ⟨_, rfl, by simpa using hw⟩
    | file | join => simp at hw
  | subshell => simp at hw
  | group => exact (hne (by simpa using hw.symm)).elim

/-- The same at the start of a block. -/
lemma Chain.startsWith {ts rest : List Token} {b : Block} {w : String} (h : Chain ts b rest)
    (hw : ts.head? = some (.word w)) (hne : w ≠ "\x7b") : b.StartsWith w := by
  have helems : ∀ {bg : Bool} {es : List Element} {rest : List Token}, Elems bg ts es rest →
      ∃ s, es.head? = some (.simple s) ∧ s.parts.head? = some w := by
    intro bg es rest hes
    cases hes with
    | one h | cons h _ =>
      obtain ⟨s, rfl, hs⟩ := h.head_word hw hne
      exact ⟨s, rfl, hs⟩
  have hpipe : ∀ {p : Pipeline} {rest : List Token}, Pipe ts p rest →
      ∃ s, p.elements.head? = some (.simple s) ∧ s.parts.head? = some w := by
    intro p rest hp
    cases hp with
    | foreground h | background h => exact helems h
  cases h with
  | one h | cons h _ _ => exact hpipe h

lemma Chain.canStart {o : Option Opener} {ts rest : List Token} {b : Block} (h : Chain ts b rest)
    (hcl : o = some .brace → ¬b.StartsWith "\x7d") : CanStart o ts :=
  fun ho hhead => hcl ho (h.startsWith hhead (by decide))

lemma Blocks.head {o : Option Opener} {ts rest : List Token} {bs : List Block}
    (h : Blocks o ts bs rest) : ts ≠ [] ∧ bs ≠ [] := by
  cases h with
  | last _ h | lastSemi _ _ h | semi _ h _ | background _ _ h _ =>
    obtain ⟨t, ts', rfl, -⟩ := h.head
    exact ⟨by simp, by simp⟩

/-! ## Printing a derivation -/

/-- The element prints as a line that is read back. -/
def Reprints (d : Prop) : Element → Prop
  | .simple s => s.parts.head? ≠ some "\x7b" ∧
      (d → s.redirects ≠ [] → ∀ w ∈ s.parts, ¬Dangles w)
  | .subshell _ => True
  | .group body => ∀ b ∈ body.blocks, ¬b.StartsWith "\x7d"

/-- The text `cs` spells the tokens `rest'` and may follow what was followed by `rest`. -/
structure Follows (rest : List Token) (cs : List Char) (rest' : List Token) : Prop where
  spells : Spells cs rest'
  breaks : Breaks cs
  cs_nil : rest' = [] → cs = []
  rest_nil : rest = [] → rest' = []

namespace Follows

variable {rest rest' : List Token} {cs : List Char} {t : Token}

lemma weaken (h : Follows rest cs rest') : Follows (t :: rest) cs rest' :=
  ⟨h.spells, h.breaks, h.cs_nil, by simp⟩

/-- A token with a blank in front, behind which the text goes on. -/
lemma blank (h : Follows rest cs rest') (ht : IsClean t) :
    Follows (t :: rest) (' ' :: (t.describe.toList ++ cs)) (t :: rest') :=
  ⟨.blank (.cons ht h.breaks h.spells), breaks_blank _, by simp, by simp⟩

/-- An operator with blanks around it. -/
lemma operator {ts : List Token} (h : Spells cs ts) (ht : IsClean t) :
    Follows (t :: rest) (' ' :: (t.describe.toList ++ ' ' :: cs)) (t :: ts) :=
  ⟨.blank (.cons ht (breaks_blank _) h.blank), breaks_blank _, by simp, by simp⟩

/-- A `;` with a blank behind it. -/
lemma semi {ts : List Token} (h : Spells cs ts) (hrest : rest ≠ []) :
    Follows rest (';' :: ' ' :: cs) (.semi :: ts) :=
  ⟨.cons (t := .semi) trivial (breaks_blank _) h.blank, by simp [Breaks, isBreak], by simp,
    fun hnil => (hrest hnil).elim⟩

end Follows

lemma head?_tokens {s : SimpleCommand} (hne : s.parts ≠ [] ∨ s.redirects ≠ [])
    (hbrace : s.parts.head? ≠ some "\x7b") (rest : List Token) :
    (s.tokens ++ rest).head? ≠ some lbrace := by
  obtain ⟨ws, rs, bg⟩ := s
  cases ws with
  | cons w ws => simpa [SimpleCommand.tokens, SimpleCommand.items, PrintedItem.tokens] using hbrace
  | nil =>
    cases rs with
    | nil => simp at hne
    | cons r rs =>
      simp only [SimpleCommand.tokens, SimpleCommand.items, List.map_nil, List.nil_append,
        List.map_cons, List.flatMap_cons, PrintedItem.tokens]
      split <;> simp

/-- A simple command prints as tokens that derive it again. -/
lemma reprint_simple {d : Prop} {bg : Bool} {ts rest : List Token} {ws : List String}
    {rs : List Redirect} (h : Items ts ws rs rest) (hne : ws ≠ [] ∨ rs ≠ []) (ha : Apart d ts)
    (he : Reprints d (.simple ⟨ws, rs, bg⟩)) :
    Apart d rest ∧ ∀ cs rest', Follows rest cs rest' → Stops rest' →
      ∃ ts', Elem bg ts' (.simple ⟨ws, rs, bg⟩) rest' ∧
        Spells ((SimpleCommand.text ⟨ws, rs, bg⟩).toList ++ cs) ts' := by
  obtain ⟨hrest, htokens⟩ := h.apart bg ha he.2
  refine ⟨hrest, fun cs rest' hfollows hstops => ?_⟩
  have hall : Apart True (SimpleCommand.tokens ⟨ws, rs, bg⟩ ++ rest') := by
    by_cases hnil : rest = []
    · rw [hfollows.rest_nil hnil, List.append_nil]
      exact htokens.mono fun _ => trivial
    · rw [← List.append_nil (SimpleCommand.tokens _)] at htokens
      exact .append (htokens.isClean_left fun _ hd => (hnil hd.2).elim) hfollows.spells.apart
  refine ⟨_, .simple (items_tokens h.file_eq rest') hne (head?_tokens hne he.1 rest') hstops, ?_⟩
  rw [SimpleCommand.text_eq]
  exact hfollows.spells.items hall hfollows.breaks hfollows.cs_nil

/-- A block in front of others, with the separator that its printed form needs. -/
lemma reprint_cons {o : Option Opener} {mid ts final : List Token} {b : Block} {bs : List Block}
    {cs : List Char} (hmid : mid ≠ []) (hcl : o = some .brace → ¬b.StartsWith "\x7d")
    (hb : ∀ cs rest', Follows mid cs rest' → (b.background = false → Stops rest') →
      ∃ ts', Chain ts' b rest' ∧ Spells (b.text.toList ++ cs) ts')
    (hbs : Blocks o ts bs final) (hspells : Spells ((Block.joinText bs).toList ++ cs) ts) :
    ∃ ts', Blocks o ts' (b :: bs) final ∧
      Spells ((Block.joinText (b :: bs)).toList ++ cs) ts' := by
  obtain ⟨hts, hne⟩ := hbs.head
  have hjoin : Block.joinText (b :: bs) = b.text ++ b.separator ++ Block.joinText bs := by
    cases bs with
    | nil => exact (hne rfl).elim
    | cons b' bs => simp [Block.joinText]
  rw [hjoin]
  cases hbg : b.background with
  | true =>
    have hfollows : Follows mid (' ' :: ((Block.joinText bs).toList ++ cs)) ts :=
      ⟨hspells.blank, breaks_blank _, fun h => (hts h).elim, fun h => (hmid h).elim⟩
    obtain ⟨ts', hchain, hspells'⟩ := hb _ _ hfollows (by simp [hbg])
    refine ⟨ts', .background (hchain.canStart hcl) hbg hchain hbs, ?_⟩
    simpa [Block.separator, hbg] using hspells'
  | false =>
    obtain ⟨ts', hchain, hspells'⟩ := hb _ _ (.semi hspells hmid) fun _ => by simp [Stops, isItem]
    refine ⟨ts', .semi (hchain.canStart hcl) hchain hbs, ?_⟩
    simpa [Block.separator, hbg] using hspells'

mutual

/-- An element prints as tokens that derive it again. -/
theorem Elem.reprint {d : Prop} {bg : Bool} {ts rest : List Token} {e : Element} :
    Elem bg ts e rest → Apart d ts → (∀ e', Occurs e' [e] → Reprints d e') →
      Apart d rest ∧ ∀ cs rest', Follows rest cs rest' → Stops rest' →
        ∃ ts', Elem bg ts' e rest' ∧ Spells (e.text.toList ++ cs) ts'
  | .simple hitems hne _ _ => by
    intro ha hall
    exact reprint_simple hitems hne ha (hall _ (.here (.head _)))
  | @Elem.subshell _ _ _ bs h => by
    intro ha hall
    obtain ⟨hrest, hprint⟩ := h.reprint ha.tail (fun e' he' => hall e' (.subshell (.head _) he'))
      (by simp)
    refine ⟨hrest.tail, fun cs rest' hfollows _ => ?_⟩
    have hclose : Follows (.rparen :: rest) (')' :: cs) (.rparen :: rest') :=
      ⟨.cons (t := .rparen) trivial hfollows.breaks hfollows.spells, by simp [Breaks, isBreak],
        by simp, by simp⟩
    obtain ⟨ts', hbs, hspells⟩ := hprint _ _ _ hclose (fun _ _ _ => by simp [Stops, isItem])
      fun _ _ _ hcan hb => .last hcan hb
    refine ⟨.lparen :: ts', .subshell hbs, ?_⟩
    simpa [Element.text, Command.text] using hspells.lparen
  | @Elem.group _ _ _ bs h => by
    intro ha hall
    obtain ⟨hrest, hprint⟩ := h.reprint ha.tail (fun e' he' => hall e' (.group (.head _) he'))
      fun _ => hall _ (.here (.head _))
    refine ⟨hrest.tail, fun cs rest' hfollows _ => ?_⟩
    have hlbrace : IsWord "\x7b" := by decide
    have hrbrace : IsWord "\x7d" := by decide
    have hclose := hfollows.blank (t := rbrace) hrbrace
    have hopen : ∃ ts', Blocks (some .brace) ts' bs (rbrace :: rest') ∧
        Spells ((Block.joinText bs).toList ++ ((Block.closing bs).toList ++ '\x7d' :: cs)) ts' := by
      by_cases hbg : bs.getLast?.any Block.background = true
      · have hlast : ∀ b ∈ bs.getLast?, b.background = true := by
          intro b hb
          rw [hb] at hbg
          simpa using hbg
        obtain ⟨ts', hbs, hspells⟩ := hprint _ _ _ hclose
          (fun b hb hfg => by simp [hlast b hb] at hfg) fun _ _ _ hcan hb => .last hcan hb
        exact ⟨ts', hbs, by simpa [Block.closing, hbg, Token.describe] using hspells⟩
      · have hbrace := Spells.cons (t := rbrace) hrbrace hfollows.breaks hfollows.spells
        obtain ⟨ts', hbs, hspells⟩ := hprint _ _ _ (.semi hbrace (List.cons_ne_nil _ _))
          (fun _ _ _ => by simp [Stops, isItem]) fun _ _ _ hcan hb => .lastSemi hcan (by simp) hb
        exact ⟨ts', hbs, by simpa [Block.closing, hbg, Token.describe] using hspells⟩
    obtain ⟨ts', hbs, hspells⟩ := hopen
    refine ⟨lbrace :: ts', .group hbs, ?_⟩
    have hgroup := Spells.cons (t := lbrace) hlbrace (breaks_blank _) hspells.blank
    simpa [Element.text, Token.describe] using hgroup

/-- Elements joined by `|` print as tokens that derive them again. -/
theorem Elems.reprint {d : Prop} {bg : Bool} {ts rest : List Token} {es : List Element} :
    Elems bg ts es rest → Apart d ts → (∀ e', Occurs e' es → Reprints d e') →
      Apart d rest ∧ ∀ cs rest', Follows rest cs rest' → Stops rest' →
        ∃ ts', Elems bg ts' es rest' ∧ Spells ((Element.joinText es).toList ++ cs) ts'
  | .one h => by
    intro ha hall
    obtain ⟨hrest, hprint⟩ := h.reprint ha hall
    refine ⟨hrest, fun cs rest' hfollows hstops => ?_⟩
    obtain ⟨ts', he, hspells⟩ := hprint cs rest' hfollows hstops
    exact ⟨ts', .one he, by simpa [Element.joinText] using hspells⟩
  | @Elems.cons _ _ mid _ e es h hes => by
    intro ha hall
    obtain ⟨hmid, hprint⟩ := h.reprint ha fun e' he' => hall e' (he'.mono (by simp))
    obtain ⟨hrest, hprint'⟩ := hes.reprint hmid.tail fun e' he' => hall e' (he'.mono (by simp))
    refine ⟨hrest, fun cs rest' hfollows hstops => ?_⟩
    obtain ⟨ts₂, hes', hspells₂⟩ := hprint' cs rest' hfollows hstops
    obtain ⟨ts', he, hspells⟩ := hprint _ _ (.operator hspells₂ trivial) (by simp [Stops, isItem])
    refine ⟨ts', .cons he hes', ?_⟩
    have hjoin : Element.joinText (e :: es) = e.text ++ " | " ++ Element.joinText es := by
      cases es with
      | nil => cases hes
      | cons e' es => simp [Element.joinText]
    simpa [hjoin, Token.describe] using hspells

/-- A pipeline prints as tokens that derive it again. -/
theorem Pipe.reprint {d : Prop} {ts rest : List Token} {p : Pipeline} :
    Pipe ts p rest → Apart d ts → (∀ e', Occurs e' p.elements → Reprints d e') →
      Apart d rest ∧ ∀ cs rest', Follows rest cs rest' → (p.background = false → Stops rest') →
        ∃ ts', Pipe ts' p rest' ∧ Spells (p.text.toList ++ cs) ts'
  | .foreground h => by
    intro ha hall
    obtain ⟨hrest, hprint⟩ := h.reprint ha hall
    refine ⟨hrest, fun cs rest' hfollows hstops => ?_⟩
    obtain ⟨ts', hes, hspells⟩ := hprint cs rest' hfollows (hstops rfl)
    exact ⟨ts', .foreground hes, by simpa [Pipeline.text] using hspells⟩
  | .background h => by
    intro ha hall
    obtain ⟨hrest, hprint⟩ := h.reprint ha hall
    refine ⟨hrest.tail, fun cs rest' hfollows _ => ?_⟩
    obtain ⟨ts', hes, hspells⟩ := hprint _ _ (hfollows.blank (t := .amp) trivial)
      (by simp [Stops, isItem])
    exact ⟨ts', .background hes, by simpa [Pipeline.text, Token.describe] using hspells⟩

/-- A block prints as tokens that derive it again. -/
theorem Chain.reprint {d : Prop} {ts rest : List Token} {b : Block} :
    Chain ts b rest → Apart d ts → (∀ e', Occurs e' b.elements → Reprints d e') →
      Apart d rest ∧ ∀ cs rest', Follows rest cs rest' → (b.background = false → Stops rest') →
        ∃ ts', Chain ts' b rest' ∧ Spells (b.text.toList ++ cs) ts'
  | @Chain.one _ _ p h => by
    intro ha hall
    obtain ⟨hrest, hprint⟩ := h.reprint ha fun e' he' => hall e' (he'.mono
      (by simp [Block.elements, Block.pipelines, Block.first, Block.rest]))
    refine ⟨hrest, fun cs rest' hfollows hstops => ?_⟩
    obtain ⟨ts', hp, hspells⟩ := hprint cs rest' hfollows hstops
    exact ⟨ts', .one hp, by simpa [Block.text, Link.joinText] using hspells⟩
  | @Chain.cons _ mid _ p q c links h hp hb => by
    intro ha hall
    obtain ⟨hmid, hprint⟩ := h.reprint ha fun e' he' => hall e' (he'.mono
      (by simp [Block.elements, Block.pipelines, Block.first, Block.rest]))
    obtain ⟨hrest, hprint'⟩ := hb.reprint hmid.tail fun e' he' => hall e' (he'.mono
      (by simp [Block.elements, Block.pipelines, Block.first, Block.rest, Link.pipeline]))
    refine ⟨hrest, fun cs rest' hfollows hstops => ?_⟩
    rw [background_cons] at hstops
    obtain ⟨ts₂, hb', hspells₂⟩ := hprint' cs rest' hfollows hstops
    obtain ⟨ts', hp', hspells⟩ := hprint _ _ (.operator hspells₂ trivial)
      fun _ => by simp [Stops, isItem]
    refine ⟨ts', .cons hp' hp hb', ?_⟩
    simpa [Block.text, Link.joinText, Token.describe] using hspells

/-- **The text of a derived list spells tokens that derive it again.**  The last block may get a
separator of its own behind it, which `final` does not have.

**Proof sketch.** Along the derivation.  What is printed behind a part of the list is spelled
first, and the part is then printed in front of it. -/
theorem Blocks.reprint {d : Prop} {o : Option Opener} {ts rest : List Token} {bs : List Block} :
    Blocks o ts bs rest → Apart d ts →
      (∀ e', Occurs e' (bs.flatMap Block.elements) → Reprints d e') →
      (o = some .brace → ∀ b ∈ bs, ¬b.StartsWith "\x7d") →
      Apart d rest ∧ ∀ cs rest' final, Follows rest cs rest' →
        (∀ b ∈ bs.getLast?, b.background = false → Stops rest') →
        (∀ b ∈ bs.getLast?, ∀ ts', CanStart o ts' → Chain ts' b rest' → Blocks o ts' [b] final) →
        ∃ ts', Blocks o ts' bs final ∧ Spells ((Block.joinText bs).toList ++ cs) ts'
  | @Blocks.last _ _ _ b _ h => by
    intro ha hall hcl
    obtain ⟨hrest, hprint⟩ := h.reprint ha fun e' he' => hall e' (he'.mono (by simp))
    refine ⟨hrest, fun cs rest' final hfollows hstops hlast => ?_⟩
    obtain ⟨ts', hb, hspells⟩ := hprint cs rest' hfollows (hstops b rfl)
    have hcan := hb.canStart fun ho => hcl ho b (.head _)
    exact ⟨ts', hlast b rfl ts' hcan hb, by simpa [Block.joinText] using hspells⟩
  | @Blocks.lastSemi _ _ _ b _ _ h => by
    intro ha hall hcl
    obtain ⟨hrest, hprint⟩ := h.reprint ha fun e' he' => hall e' (he'.mono (by simp))
    refine ⟨hrest.tail, fun cs rest' final hfollows hstops hlast => ?_⟩
    obtain ⟨ts', hb, hspells⟩ := hprint cs rest' hfollows.weaken (hstops b rfl)
    have hcan := hb.canStart fun ho => hcl ho b (.head _)
    exact ⟨ts', hlast b rfl ts' hcan hb, by simpa [Block.joinText] using hspells⟩
  | @Blocks.semi _ _ mid _ b bs _ h hbs => by
    intro ha hall hcl
    obtain ⟨hmid, hprint⟩ := h.reprint ha fun e' he' => hall e' (he'.mono (by simp))
    obtain ⟨hrest, hprint'⟩ := hbs.reprint hmid.tail (fun e' he' => hall e' (he'.mono (by simp)))
      fun ho b' hb' => hcl ho b' (.tail _ hb')
    refine ⟨hrest, fun cs rest' final hfollows hstops hlast => ?_⟩
    rw [List.getLast?_cons_of_ne_nil hbs.head.2] at hstops hlast
    obtain ⟨ts₂, hbs', hspells⟩ := hprint' cs rest' final hfollows hstops hlast
    exact reprint_cons (List.cons_ne_nil _ _) (fun ho => hcl ho b (.head _)) hprint hbs' hspells
  | @Blocks.background _ _ mid _ b bs _ _ h hbs => by
    intro ha hall hcl
    obtain ⟨hmid, hprint⟩ := h.reprint ha fun e' he' => hall e' (he'.mono (by simp))
    obtain ⟨hrest, hprint'⟩ := hbs.reprint hmid (fun e' he' => hall e' (he'.mono (by simp)))
      fun ho b' hb' => hcl ho b' (.tail _ hb')
    refine ⟨hrest, fun cs rest' final hfollows hstops hlast => ?_⟩
    rw [List.getLast?_cons_of_ne_nil hbs.head.2] at hstops hlast
    obtain ⟨ts₂, hbs', hspells⟩ := hprint' cs rest' final hfollows hstops hlast
    exact reprint_cons hbs.head.1 (fun ho => hcl ho b (.head _)) hprint hbs' hspells

end

end Grammar

/-! ## Lines -/

namespace Command

open Conch.Parser Conch.Scanner Conch.Grammar

/-- An accepted line is read back from the text of its command. -/
lemma parse_text_of_parse {line : String} {c : Command} (h : parse line = .ok c)
    (hopen : c.OpensNoGroup) (hclose : c.ClosesNoGroup) (hescape : c.EscapesNoBlank line) :
    parse c.text = .ok c := by
  obtain ⟨ts, htokens, hts⟩ := parse_eq_ok_iff.mp h
  have hderives := ofTokens_eq_ok_iff.mp hts
  have hall : ∀ e, Occurs e c.elements → Reprints ((after line).phase = .escape) e := by
    intro e he
    cases e with
    | simple s =>
      exact ⟨hopen s he, fun hphase hne w hw hdangles =>
        hescape ⟨hphase, s, he, hne, w, hw, hdangles⟩⟩
    | subshell body => trivial
    | group body => exact hclose body he
  obtain ⟨-, hprint⟩ := hderives.reprint (apart_of_tokenize htokens).dropLastSemi hall (by simp)
  obtain ⟨ts', hderives', hspells⟩ := hprint [] [] [] ⟨.nil, by simp [Breaks], by simp, by simp⟩
    (fun _ _ _ => by simp [Stops]) fun _ _ _ hcan hb => .last hcan hb
  have hts' := ofTokens_eq_ok_iff.mpr hderives'
  have htext : Token.tokenize c.text = .ok ts' := by
    refine Spells.tokenize ?_
    obtain ⟨bs⟩ := c
    simpa [text, blocks] using hspells
  exact parse_eq_ok_iff.mpr ⟨ts', htext, by rw [dropLastSemi_of_ofTokens hts']; exact hts'⟩

/-- The command of one block with one element. -/
def ofElement (e : Element) : Command := ⟨[⟨⟨[e], false⟩, []⟩]⟩

lemma occurs_ofElement_simple {e : Element} {s : SimpleCommand} :
    Occurs e (ofElement (.simple s)).elements ↔ e = .simple s := by
  have helements : (ofElement (.simple s)).elements = [.simple s] := rfl
  rw [helements]
  constructor
  · intro h
    cases h with
    | here h => simpa using h
    | subshell h | group h => simp at h
  · rintro rfl
    exact .here (.head _)

/-- A first word that opens a group, written behind a redirection. -/
lemma exists_opens_group : ∃ line c, parse line = .ok c ∧ ¬c.OpensNoGroup ∧ c.ClosesNoGroup ∧
    c.EscapesNoBlank line ∧ parse c.text ≠ .ok c := by
  refine ⟨"> f \x7b", ofElement (.simple ⟨["\x7b"], [⟨.output, "f"⟩], false⟩), rfl, ?_, ?_, ?_, ?_⟩
  · intro h
    exact h _ (occurs_ofElement_simple.mpr rfl) rfl
  · intro body hbody
    cases occurs_ofElement_simple.mp hbody
  · have hphase : (after "> f \x7b").phase ≠ .escape := by decide +kernel
    exact fun h => hphase h.1
  · have htext : parse "\x7b > f" = .error (.unterminated .brace) := rfl
    intro h
    exact nomatch htext.symm.trans h

/-- A word that closes a group, written behind a redirection at the start of a block of it. -/
lemma exists_closes_group : ∃ line c, parse line = .ok c ∧ c.OpensNoGroup ∧ ¬c.ClosesNoGroup ∧
    c.EscapesNoBlank line ∧ parse c.text ≠ .ok c := by
  refine ⟨"\x7b > f \x7d ; \x7d", ofElement (.group (ofElement
    (.simple ⟨["\x7d"], [⟨.output, "f"⟩], false⟩))), rfl, ?_, ?_, ?_, ?_⟩
  · intro s hs
    have hs : Occurs (.simple s) [.group _] := hs
    cases hs with
    | here h => simp at h
    | subshell h => simp at h
    | group h hbody =>
      obtain rfl := Element.group.inj (List.mem_singleton.mp h)
      obtain rfl := Element.simple.inj (occurs_ofElement_simple.mp hbody)
      decide
  · intro h
    exact h _ (.here (.head _)) _ (.head _) ⟨_, rfl, rfl⟩
  · have hphase : (after "\x7b > f \x7d ; \x7d").phase ≠ .escape := by decide +kernel
    exact fun h => hphase h.1
  · have htext : parse "\x7b \x7d > f; \x7d" = .error (.unexpected rbrace) := rfl
    intro h
    exact nomatch htext.symm.trans h

/-- A last word that ends in a backslash, written behind a redirection. -/
lemma exists_escapes_blank : ∃ line c, parse line = .ok c ∧ c.OpensNoGroup ∧ c.ClosesNoGroup ∧
    ¬c.EscapesNoBlank line ∧ parse c.text ≠ .ok c := by
  refine ⟨"cmd > f a\\", ofElement (.simple ⟨["cmd", "a\\"], [⟨.output, "f"⟩], false⟩), rfl,
    ?_, ?_, ?_, ?_⟩
  · intro s hs
    obtain rfl := Element.simple.inj (occurs_ofElement_simple.mp hs)
    decide
  · intro body hbody
    cases occurs_ofElement_simple.mp hbody
  · intro h
    exact h ⟨by decide +kernel, _, occurs_ofElement_simple.mpr rfl, by decide, "a\\", by decide,
      by decide +kernel⟩
  · have htext : parse "cmd a\\ > f" =
        .ok (ofElement (.simple ⟨["cmd", "a\\ "], [⟨.output, "f"⟩], false⟩)) := rfl
    intro h
    simpa [ofElement] using htext.symm.trans h

/-- **The round trip.**  The text of an accepted line's command is read back as that command when
no word of it comes to open a group, to close one or to escape a blank.  Each of the three
conditions is needed: some accepted line violates it alone and is not read back. -/
theorem parse_text :
    (∀ line c, parse line = .ok c → c.OpensNoGroup → c.ClosesNoGroup → c.EscapesNoBlank line →
      parse c.text = .ok c) ∧
    (∃ line c, parse line = .ok c ∧ ¬c.OpensNoGroup ∧ c.ClosesNoGroup ∧ c.EscapesNoBlank line ∧
      parse c.text ≠ .ok c) ∧
    (∃ line c, parse line = .ok c ∧ c.OpensNoGroup ∧ ¬c.ClosesNoGroup ∧ c.EscapesNoBlank line ∧
      parse c.text ≠ .ok c) ∧
    (∃ line c, parse line = .ok c ∧ c.OpensNoGroup ∧ c.ClosesNoGroup ∧ ¬c.EscapesNoBlank line ∧
      parse c.text ≠ .ok c) :=
  ⟨fun _ _ => parse_text_of_parse, exists_opens_group, exists_closes_group, exists_escapes_blank⟩

/-- A redirection between two words is printed behind them. -/
theorem parse_text_redirect_between_words :
    parse "a > f b" = .ok (ofElement (.simple ⟨["a", "b"], [⟨.output, "f"⟩], false⟩)) ∧
      parse "a b > f" = .ok (ofElement (.simple ⟨["a", "b"], [⟨.output, "f"⟩], false⟩)) := by
  have hparse : parse "a > f b" =
      .ok (ofElement (.simple ⟨["a", "b"], [⟨.output, "f"⟩], false⟩)) := rfl
  have hprint := parse_text.1 "a > f b" _ hparse (fun s hs => ?_) (fun body hbody => ?_) fun h => ?_
  · exact ⟨hparse, hprint⟩
  · obtain rfl := Element.simple.inj (occurs_ofElement_simple.mp hs)
    decide
  · cases occurs_ofElement_simple.mp hbody
  · have hphase : (after "a > f b").phase ≠ .escape := by decide +kernel
    exact hphase h.1

end Command

end Conch
