import Conch.Proofs.Continuation

/-!
# What a command is made of

The tree of a line holds the simple commands of the line in the order in which they were written.
While the parser reads, it has completed some of them and may be in the middle of another.  Those
that are complete stay as they are, whatever follows; the one that has begun only grows.  So two
readings that come to the same tree have completed the same commands, and two lines with the same
tree have the same characters in their words.

## Main definitions

* `Conch.Written` — the words and redirections of a simple command.
* `Command.written` — those of all simple commands of a tree, in order.
* `Parser.State.past`, `Parser.Mode.begun?` — the simple commands that the parser has completed, and
  the one that has begun.
* `Token.load`, `Command.load` — how many characters of a kind stand in words.

## Main results

* `Parser.past_of_read` — **what is complete stays, and what has begun only grows**.
* `Parser.written_of_finish` — the tree holds what has been read.
* `Parser.load_of_read` — **the parser loses no character** of a word.
-/

set_option autoImplicit false

namespace Conch

/-! ## The simple commands of a tree -/

/-- The words and redirections of a simple command. -/
abbrev Written := List String × List Redirect

/-- A simple command without its flag. -/
def SimpleCommand.written (c : SimpleCommand) : Written := (c.parts, c.redirects)

/-- How long a simple command is. -/
def Written.size (w : Written) : Nat := w.1.length + w.2.length

/-- A simple command with one more word, or one more redirection that has no file yet. -/
def Written.add (w : Written) : Token → Written
  | .word word => (w.1 ++ [word], w.2)
  | .redirect op => (w.1, w.2 ++ [⟨op, ""⟩])
  | _ => w

mutual

/-- The simple commands of an element, in order. -/
def Element.written : Element → List Written
  | .simple c => [c.written]
  | .subshell ⟨blocks⟩ => Block.allWritten blocks
  | .group ⟨blocks⟩ => Block.allWritten blocks

/-- Those of some elements. -/
def Element.allWritten : List Element → List Written
  | [] => []
  | e :: rest => e.written ++ Element.allWritten rest

/-- Those of some chained pipelines. -/
def Link.allWritten : List Link → List Written
  | [] => []
  | ⟨_, ⟨elements, _⟩⟩ :: rest => Element.allWritten elements ++ Link.allWritten rest

/-- Those of some blocks. -/
def Block.allWritten : List Block → List Written
  | [] => []
  | ⟨⟨elements, _⟩, links⟩ :: rest =>
    Element.allWritten elements ++ Link.allWritten links ++ Block.allWritten rest

end

/-- The simple commands of a pipeline, in order. -/
def Pipeline.written (p : Pipeline) : List Written := Element.allWritten p.elements

/-- The simple commands of a command, in order. -/
def Command.written (c : Command) : List Written := Block.allWritten c.blocks

lemma Element.allWritten_append (es es' : List Element) :
    Element.allWritten (es ++ es') = Element.allWritten es ++ Element.allWritten es' := by
  induction es with
  | nil => simp [Element.allWritten]
  | cons e es ih => simp [Element.allWritten, ih]

lemma Block.allWritten_append (bs bs' : List Block) :
    Block.allWritten (bs ++ bs') = Block.allWritten bs ++ Block.allWritten bs' := by
  induction bs with
  | nil => simp [Block.allWritten]
  | cons b bs ih =>
    obtain ⟨⟨elements, bg⟩, links⟩ := b
    simp [Block.allWritten, ih]

lemma Element.written_inBackground : ∀ e : Element, e.inBackground.written = e.written
  | .simple c => by simp [Element.inBackground, Element.written, SimpleCommand.written]
  | .subshell _ | .group _ => rfl

/-- The flags of a pipeline do not count. -/
lemma Pipeline.written_ofElements (es : List Element) (bg : Bool) :
    (Pipeline.ofElements es bg).written = Element.allWritten es := by
  have hmark : Element.allWritten (Element.markLast es) = Element.allWritten es := by
    induction es with
    | nil => rfl
    | cons e es ih =>
      cases es with
      | nil => simp [Element.markLast, Element.allWritten, Element.written_inBackground]
      | cons e' es => simpa [Element.markLast, Element.allWritten] using ih
  cases bg with
  | false => rfl
  | true => exact hmark

/-- A block is written as its pipelines are, one behind the other. -/
lemma Block.allWritten_ofChain (chain : List (Pipeline × Connector)) (p : Pipeline)
    (links : List Link) :
    Block.allWritten [Block.ofChain chain p links] =
      chain.reverse.flatMap (·.1.written) ++ p.written ++ Link.allWritten links := by
  induction chain generalizing p links with
  | nil =>
    obtain ⟨elements, bg⟩ := p
    simp [Block.ofChain, Block.allWritten, Pipeline.written, Pipeline.elements]
  | cons q chain ih =>
    obtain ⟨elements, bg⟩ := p
    rw [Block.ofChain, ih]
    simp [Link.allWritten, Pipeline.written, Pipeline.elements]

namespace Parser

open Grammar

/-! ## The simple commands that have been read -/

/-- The simple commands of a list that is being read, without the element that has not ended. -/
def Open.written (l : Open) : List Written :=
  Block.allWritten l.blocks.reverse ++
    (l.chain.reverse.flatMap (·.1.written) ++ Element.allWritten l.elements.reverse)

/-- The simple commands of the element that has been read last. -/
def Mode.written : Mode → List Written
  | .nested e => e.written
  | _ => []

/-- All simple commands that have been completed. -/
def State.past (s : State) : List Written :=
  s.outer.reverse.flatMap (·.1.written) ++ s.list.written ++ s.mode.written

/-- The simple command that has begun.  A redirection counts from its operator on. -/
def Mode.begun? : Mode → Option Written
  | .simple d => some d.command.written
  | .target d op => some (d.addRedirect op "").command.written
  | _ => none

lemma Open.written_command (l : Open) (h : l.chain = [] ∧ l.elements = []) :
    l.command.written = l.written := by
  obtain ⟨blocks, chain, elements⟩ := l
  obtain ⟨rfl, rfl⟩ := h
  simp [Open.command, Open.written, Command.written, Command.blocks, Element.allWritten]

/-- An element that ends a block comes behind all others of the list. -/
lemma Open.written_endBlock (l : Open) (e : Element) (bg : Bool) :
    (l.endBlock e bg).written = l.written ++ e.written := by
  simp [Open.endBlock, Open.written, Open.pipeline, Block.allWritten_append,
    Block.allWritten_ofChain, Pipeline.written_ofElements, Element.allWritten_append,
    Element.allWritten, Link.allWritten]

lemma Open.written_command_endBlock (l : Open) (e : Element) (bg : Bool) :
    (l.endBlock e bg).command.written = l.written ++ e.written := by
  rw [Open.written_command _ ⟨rfl, rfl⟩, Open.written_endBlock]

/-! ## One token -/

/-- How an item goes on with a simple command. -/
def itemMode (d : Draft) : Token → Mode
  | .word w => .simple (d.addWord w)
  | .redirect op => redirectMode d op
  | _ => .simple d

/-- What a token does to the simple command that is being read. -/
inductive Mode.Reads : Mode → Token → Mode → Prop where
  /-- None is being read, and none starts: the token is no word, or a brace. -/
  | idle {m m' : Mode} {t : Token} : m.begun? = none → m'.begun? = none →
      (∀ w, t = .word w → w = "\x7b" ∨ w = "\x7d") → Reads m t m'
  /-- The token starts one. -/
  | start {m : Mode} {t : Token} : m.begun? = none → isItem t = true →
      Reads m t (itemMode ⟨[], []⟩ t)
  /-- The token goes on with it. -/
  | item {d : Draft} {t : Token} : isItem t = true → Reads (.simple d) t (itemMode d t)
  /-- The token is the file of a redirection. -/
  | file {d : Draft} {op : RedirectOp} {w : String} :
      Reads (.target d op) (.word w) (.simple (d.addRedirect op w))

lemma Mode.written_of_begun? {m : Mode} {w : Written} (h : m.begun? = some w) : m.written = [] := by
  cases m <;> simp [Mode.begun?, Mode.written] at h ⊢

lemma begun?_itemMode {t : Token} (ht : isItem t = true) (d : Draft) :
    (itemMode d t).begun? = some (d.command.written.add t) := by
  cases t with
  | word w => simp [itemMode, Mode.begun?, Draft.addWord, Draft.command, SimpleCommand.written,
      Written.add]
  | redirect op =>
    cases op <;> simp [itemMode, redirectMode, RedirectOp.takesFile, Mode.begun?,
      Draft.addRedirect, Draft.command, SimpleCommand.written, Written.add]
  | _ => cases ht

/-- A simple command that begins or goes on is not among those that are complete. -/
lemma past_itemMode {t : Token} (ht : isItem t = true) (d : Draft) (l : Open)
    (outer : List (Open × Opener)) :
    (State.mk (itemMode d t) l outer).past = outer.reverse.flatMap (·.1.written) ++ l.written := by
  simp [State.past, Mode.written_of_begun? (begun?_itemMode ht d)]

/-- A list that begins holds nothing. -/
lemma past_open (l : Open) (o : Opener) (outer : List (Open × Opener)) :
    (State.mk (.boundary .opening) .new ((l, o) :: outer)).past =
      outer.reverse.flatMap (·.1.written) ++ l.written := by
  simp [State.past, Open.new, Open.written, Mode.written, Block.allWritten, Element.allWritten]

lemma past_of_start {s s' : State} {t : Token} (h : start s t = .ok s') (hs : s.mode.written = [])
    (hbegun : s.mode.begun? = none) : s'.past = s.past ∧ s.mode.Reads t s'.mode := by
  have hpast : s.past = s.outer.reverse.flatMap (·.1.written) ++ s.list.written := by
    simp [State.past, hs]
  rw [hpast]
  cases t with
  | lparen =>
    cases h
    exact ⟨past_open .., .idle hbegun rfl fun _ hw => by cases hw⟩
  | word w =>
    simp only [start] at h
    split at h
    · rename_i hw
      cases h
      refine ⟨past_open .., .idle hbegun rfl fun w' hw' => .inl ?_⟩
      rw [← Token.word.inj hw', hw]
      rfl
    · cases h
      exact ⟨past_itemMode (t := .word w) rfl ⟨[], []⟩ _ _, .start hbegun rfl⟩
  | redirect op =>
    cases h
    exact ⟨past_itemMode (t := .redirect op) rfl ⟨[], []⟩ _ _, .start hbegun rfl⟩
  | _ => cases h

lemma written_wrap (o : Opener) (body : Command) : (o.wrap body).written = body.written := by
  obtain ⟨blocks⟩ := body
  cases o <;> rfl

/-- A nested list that ends is the element that holds all of it. -/
lemma past_of_close {body : Open} {outer : List (Open × Opener)} {t : Token} {s' : State}
    (h : close body outer t = .ok s') (hbody : body.command.written = body.written) :
    s'.past = outer.reverse.flatMap (·.1.written) ++ body.written ∧ s'.mode.begun? = none ∧
      ∀ w, t = .word w → w = "\x7b" ∨ w = "\x7d" := by
  cases outer with
  | nil => cases h
  | cons frame outer =>
    obtain ⟨list, o⟩ := frame
    simp only [close] at h
    split at h
    · rename_i ht
      cases h
      refine ⟨?_, rfl, ?_⟩
      · simp [State.past, Mode.written, written_wrap, hbody]
      · subst ht
        cases o
        · exact fun _ hw => by cases hw
        · exact fun w hw => .inr (Token.word.inj hw).symm
    · cases h

/-- A token that ends an element puts it behind those that are complete. -/
lemma past_of_follow {s s' : State} {e : Element} {t : Token} (h : follow s e t = .ok s') :
    s'.past = s.outer.reverse.flatMap (·.1.written) ++ s.list.written ++ e.written ∧
      s'.mode.begun? = none ∧ ∀ w, t = .word w → w = "\x7b" ∨ w = "\x7d" := by
  have hclose : close (s.list.endBlock e false) s.outer t = .ok s' →
      s'.past = s.outer.reverse.flatMap (·.1.written) ++ s.list.written ++ e.written ∧
        s'.mode.begun? = none ∧ ∀ w, t = .word w → w = "\x7b" ∨ w = "\x7d" := by
    intro h
    have hbody := Open.written_endBlock s.list e false
    obtain ⟨hpast, hrest⟩ := past_of_close h (Open.written_command _ ⟨rfl, rfl⟩)
    rw [hbody, ← List.append_assoc] at hpast
    exact ⟨hpast, hrest⟩
  cases t with
  | pipe =>
    cases h
    exact ⟨by simp [State.past, Open.written, Mode.written, Element.allWritten_append,
      Element.allWritten], rfl, fun _ hw => by cases hw⟩
  | connector c =>
    cases h
    exact ⟨by simp [State.past, Open.written, Mode.written, Open.pipeline,
      Pipeline.written_ofElements, Element.allWritten_append, Element.allWritten], rfl,
      fun _ hw => by cases hw⟩
  | amp | semi =>
    cases h
    exact ⟨by simp [State.past, Open.written_endBlock, Mode.written], rfl, fun _ hw => by cases hw⟩
  | _ => exact hclose h

/-- At the start of a block all blocks in front of it are complete. -/
def State.Settled (s : State) : Prop :=
  ∀ b, s.mode = .boundary b → s.list.chain = [] ∧ s.list.elements = []

lemma settled_of_start {s s' : State} {t : Token} (h : start s t = .ok s') : s'.Settled := by
  cases t with
  | lparen => cases h; exact fun _ _ => ⟨rfl, rfl⟩
  | word w =>
    simp only [start] at h
    split at h
    · cases h; exact fun _ _ => ⟨rfl, rfl⟩
    · cases h; exact fun _ hb => by cases hb
  | redirect op =>
    cases h
    cases op <;> exact fun _ hb => by cases hb
  | _ => cases h

lemma settled_of_close {body : Open} {outer : List (Open × Opener)} {t : Token} {s' : State}
    (h : close body outer t = .ok s') : s'.Settled := by
  cases outer with
  | nil => cases h
  | cons frame outer =>
    simp only [close] at h
    split at h
    · cases h; exact fun _ hb => by cases hb
    · cases h

lemma settled_of_follow {s s' : State} {e : Element} {t : Token} (h : follow s e t = .ok s') :
    s'.Settled := by
  cases t with
  | pipe | connector c => cases h; exact fun _ hb => by cases hb
  | amp | semi => cases h; exact fun _ _ => ⟨rfl, rfl⟩
  | _ => exact settled_of_close h

lemma settled_of_step {s s' : State} {t : Token} (h : step s t = .ok s') (hs : s.Settled) :
    s'.Settled := by
  obtain ⟨mode, l, outer⟩ := s
  cases mode with
  | boundary b =>
    simp only [step] at h
    split at h
    · split at h
      · cases h
      · exact settled_of_close h
    · split at h
      · cases h; exact fun _ _ => hs b rfl
      · exact settled_of_start h
  | operand op => exact settled_of_start h
  | simple d =>
    have hend : follow ⟨.simple d, l, outer⟩ (.simple d.command) t = .ok s' → s'.Settled :=
      settled_of_follow
    cases t with
    | word w => cases h; exact fun _ hb => by cases hb
    | redirect op => cases h; cases op <;> exact fun _ hb => by cases hb
    | _ => exact hend h
  | target d op =>
    cases t with
    | word w => cases h; exact fun _ hb => by cases hb
    | _ => cases h
  | nested e => exact settled_of_follow h

lemma settled_of_read {s s' : State} {ts : List Token} (h : read s ts = .ok s')
    (hs : s.Settled) : s'.Settled := by
  induction ts generalizing s with
  | nil => cases h; exact hs
  | cons t ts ih =>
    obtain ⟨s₁, hstep, hread⟩ := exists_of_bind_eq_ok h
    exact ih hread (settled_of_step hstep hs)

lemma settled_initial : State.initial.Settled := fun _ _ => ⟨rfl, rfl⟩

/-- **A token and what has been read.**  It ends a simple command, which is complete from then on;
or the complete ones stay as they are, and the token may start another or go on with it. -/
lemma past_of_step {s s' : State} {t : Token} (hs : s.Settled) (h : step s t = .ok s') :
    (∃ d, s.mode = .simple d ∧ isItem t = false ∧ s'.mode.begun? = none ∧
        s'.past = s.past ++ [d.command.written]) ∨
      s'.past = s.past ∧ s.mode.Reads t s'.mode := by
  obtain ⟨mode, l, outer⟩ := s
  cases mode with
  | boundary b =>
    right
    simp only [step] at h
    split at h
    · split at h
      · cases h
      · obtain ⟨hpast, hbegun, hbrace⟩ := past_of_close h (l.written_command (hs b rfl))
        exact ⟨hpast.trans (List.append_nil _).symm, .idle rfl hbegun hbrace⟩
    · split at h
      · rename_i hsemi
        cases h
        obtain ⟨-, rfl⟩ := hsemi
        exact ⟨rfl, .idle rfl rfl fun _ hw => by cases hw⟩
      · exact past_of_start h rfl rfl
  | operand op => exact .inr (past_of_start h rfl rfl)
  | simple d =>
    -- the state without the command is one at whose end the command follows
    have hend : isItem t = false → follow ⟨.simple d, l, outer⟩ (.simple d.command) t = .ok s' →
        ∃ d', Mode.simple d = .simple d' ∧ isItem t = false ∧ s'.mode.begun? = none ∧
          s'.past = (State.mk (.simple d) l outer).past ++ [d'.command.written] := by
      intro ht h
      obtain ⟨hpast, hbegun, -⟩ := past_of_follow h
      refine ⟨d, rfl, ht, hbegun, ?_⟩
      simpa [State.past, Mode.written, Element.written] using hpast
    cases t with
    | word w =>
      cases h
      exact .inr ⟨by simp [State.past, Mode.written], .item rfl⟩
    | redirect op =>
      cases h
      refine .inr ⟨(past_itemMode (t := .redirect op) rfl d l outer).trans ?_, .item rfl⟩
      simp [State.past, Mode.written]
    | _ => exact .inl (hend rfl h)
  | target d op =>
    cases t with
    | word w =>
      cases h
      exact .inr ⟨by simp [State.past, Mode.written], .file⟩
    | _ => cases h
  | nested e =>
    obtain ⟨hpast, hbegun, hbrace⟩ := past_of_follow h
    exact .inr ⟨hpast, .idle rfl hbegun hbrace⟩

/-! ## A whole line -/

/-- All simple commands that have been read, with the one that has begun at the end. -/
def State.written (s : State) : List Written := s.past ++ s.mode.begun?.toList

lemma size_add (w : Written) {t : Token} (ht : isItem t = true) :
    (w.add t).size = w.size + 1 := by
  cases t with
  | word word => simp [Written.add, Written.size]; omega
  | redirect op => simp [Written.add, Written.size]; omega
  | _ => cases ht

/-- What has begun does not get shorter. -/
lemma Mode.Reads.size_le {m m' : Mode} {t : Token} (h : m.Reads t m') {w : Written}
    (hw : m.begun? = some w) : ∃ w', m'.begun? = some w' ∧ w.size ≤ w'.size := by
  cases h with
  | idle hm => simp [hm] at hw
  | start hm => simp [hm] at hw
  | @item d _ ht =>
    obtain rfl : d.command.written = w := Option.some.inj hw
    exact ⟨_, begun?_itemMode ht d, by rw [size_add _ ht]; omega⟩
  | @file d op word =>
    obtain rfl : (d.addRedirect op "").command.written = w := Option.some.inj hw
    refine ⟨_, rfl, ?_⟩
    simp [Draft.addRedirect, Draft.command, SimpleCommand.written, Written.size]

/-- **What is complete stays, and what has begun only grows.** -/
lemma past_of_read {s s' : State} {ts : List Token} (hs : s.Settled) (h : read s ts = .ok s') :
    ∃ tail, s'.written = s.past ++ tail ∧
      ∀ w, s.mode.begun? = some w → ∃ w' rest, tail = w' :: rest ∧ w.size ≤ w'.size := by
  induction ts generalizing s with
  | nil =>
    cases h
    exact ⟨_, rfl, fun w hw => ⟨w, [], by simp [hw], Nat.le_refl _⟩⟩
  | cons t ts ih =>
    obtain ⟨s₁, hstep, hread⟩ := exists_of_bind_eq_ok h
    obtain ⟨tail, htail, hgrow⟩ := ih (settled_of_step hstep hs) hread
    rcases past_of_step hs hstep with ⟨d, hmode, -, -, hpast⟩ | ⟨hpast, hreads⟩
    · refine ⟨d.command.written :: tail, by simp [htail, hpast], fun w hw => ?_⟩
      obtain rfl : d.command.written = w := by simpa [hmode, Mode.begun?] using hw
      exact ⟨_, tail, rfl, Nat.le_refl _⟩
    · refine ⟨tail, by rw [htail, hpast], fun w hw => ?_⟩
      obtain ⟨w₁, hw₁, hle₁⟩ := hreads.size_le hw
      obtain ⟨w', rest, rfl, hle⟩ := hgrow w₁ hw₁
      exact ⟨w', rest, rfl, Nat.le_trans hle₁ hle⟩

/-- At the end of the line the tree holds what has been read. -/
lemma written_of_finish {s : State} {c : Command} (hs : s.Settled) (h : finish s = .ok c) :
    c.written = s.written := by
  obtain ⟨mode, l, outer⟩ := s
  have hend : ∀ e, finishWith ⟨mode, l, outer⟩ e = .ok c →
      outer = [] ∧ c.written = l.written ++ e.written := by
    intro e h
    cases outer with
    | nil => cases h; exact ⟨rfl, l.written_command_endBlock e false⟩
    | cons frame outer => cases h
  cases mode with
  | boundary b =>
    cases outer with
    | cons frame outer => cases h
    | nil =>
      cases b with
      | opening | semi => cases h
      | amp =>
        cases h
        simp [State.written, State.past, Mode.written, Mode.begun?, l.written_command (hs _ rfl)]
  | operand op => cases h
  | simple d =>
    obtain ⟨rfl, hc⟩ := hend _ h
    simp [hc, State.written, State.past, Mode.written, Mode.begun?, Element.written]
  | target d op => cases h
  | nested e =>
    obtain ⟨rfl, hc⟩ := hend _ h
    simp [hc, State.written, State.past, Mode.written, Mode.begun?]

end Parser

/-! ## Characters of words -/

/-- The characters of a word; no other token has any. -/
def Token.chars : Token → List Char
  | .word w => w.toList
  | _ => []

/-- The characters of the words and file names of a simple command. -/
def Written.chars (w : Written) : List Char :=
  w.1.flatMap String.toList ++ w.2.flatMap fun r => r.file.toList

section Load

variable (p : Char → Bool)

/-- How many of some characters stand in words. -/
def Token.load (ts : List Token) : Nat := (ts.flatMap Token.chars).countP p

/-- How many of them stand in some simple commands. -/
def Written.load (ws : List Written) : Nat := (ws.flatMap Written.chars).countP p

/-- How many of them stand in a command. -/
def Command.load (c : Command) : Nat := Written.load p c.written

variable {p}

lemma Token.load_cons (t : Token) (ts : List Token) :
    Token.load p (t :: ts) = t.chars.countP p + Token.load p ts := by
  simp [Token.load]

lemma Written.load_append (ws ws' : List Written) :
    Written.load p (ws ++ ws') = Written.load p ws + Written.load p ws' := by
  simp [Written.load]

lemma Written.load_singleton (w : Written) : Written.load p [w] = w.chars.countP p := by
  simp [Written.load]

namespace Parser

open Grammar

lemma countP_add (w : Written) {t : Token} (ht : isItem t = true) :
    (w.add t).chars.countP p = w.chars.countP p + t.chars.countP p := by
  cases t with
  | word word => simp [Written.add, Written.chars, Token.chars]; omega
  | redirect op => simp [Written.add, Written.chars, Token.chars]
  | _ => cases ht

/-- A token adds its characters to the simple command that is being read. -/
lemma Mode.Reads.load_eq {m m' : Mode} {t : Token}
    (hp : p '\x7b' = false ∧ p '\x7d' = false) (h : m.Reads t m') :
    Written.load p m'.begun?.toList = Written.load p m.begun?.toList + t.chars.countP p := by
  cases h with
  | idle hm hm' hbrace =>
    have ht : t.chars.countP p = 0 := by
      cases t with
      | word w => rcases hbrace w rfl with rfl | rfl <;> simp [Token.chars, hp]
      | _ => rfl
    rw [hm, hm', ht]
    rfl
  | start hm ht =>
    have hnew : (Draft.command ⟨[], []⟩).written.chars = [] := rfl
    rw [hm, begun?_itemMode ht, Option.toList_some, Written.load_singleton, countP_add _ ht, hnew]
    rfl
  | @item d t ht =>
    have hmode : (Mode.simple d).begun? = some d.command.written := rfl
    rw [hmode, begun?_itemMode ht, Option.toList_some, Option.toList_some,
      Written.load_singleton, Written.load_singleton, countP_add _ ht]
  | file =>
    simp [Mode.begun?, Draft.addRedirect, Draft.command, SimpleCommand.written, Written.load,
      Written.chars, Token.chars]
    omega

/-- How many characters stand in the words that have been read. -/
def State.load (p : Char → Bool) (s : State) : Nat := Written.load p s.written

lemma load_of_step {s s' : State} {t : Token} (hp : p '\x7b' = false ∧ p '\x7d' = false)
    (hs : s.Settled) (h : step s t = .ok s') : s'.load p = s.load p + t.chars.countP p := by
  unfold State.load State.written
  rcases past_of_step hs h with ⟨d, hmode, hitem, hbegun, hpast⟩ | ⟨hpast, hreads⟩
  · have ht : t.chars = [] := by cases t <;> first | rfl | cases hitem
    have hmode' : s.mode.begun? = some d.command.written := by rw [hmode]; rfl
    simp [hbegun, hpast, hmode', ht]
  · have hmode := hreads.load_eq hp
    rw [hpast, Written.load_append, Written.load_append, hmode, Nat.add_assoc]

/-- **The parser loses no character** of a word, and adds none. -/
lemma load_of_read {s s' : State} {ts : List Token} (hp : p '\x7b' = false ∧ p '\x7d' = false)
    (hs : s.Settled) (h : read s ts = .ok s') : s'.load p = s.load p + Token.load p ts := by
  induction ts generalizing s with
  | nil => cases h; rfl
  | cons t ts ih =>
    obtain ⟨s₁, hstep, hread⟩ := exists_of_bind_eq_ok h
    rw [ih (settled_of_step hstep hs) hread, load_of_step hp hs hstep, Token.load_cons,
      Nat.add_assoc]

end Parser

end Load

end Conch
