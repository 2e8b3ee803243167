import Conch.Proofs.Continuation

/-!
# Lines below each other

A text of several lines is read as its lines are: the blocks of the first line come first, and
those of the second follow them.  The newline between two lines is a `;`, unless the first line
already ends in `;` or `&`, and it is nothing at all where one of the lines has no tokens.  So
the parser comes to the second line at the start of a block, where it reads what it would read
at the start of a line.

## Main definitions

* `Conch.Scanner.separator` — what a newline behind some tokens puts between them and others.
* `Conch.Command.ReadsAs` — the blocks of a text that may have no tokens.

## Main results

* `Conch.Scanner.tokenize_newline` — the tokens of two lines.
* `Conch.Parser.read_of_accepted` — where the parser stands at the end of an accepted line.
* `Conch.Parser.run_boundary` — a line behind other blocks.
* `Conch.Command.parse_newline` — a newline puts two lines one behind the other.
-/

set_option autoImplicit false

namespace Conch.Scanner

/-! ## The tokens of two lines -/

/-- What a newline behind the tokens puts between them and other tokens. -/
def separator (ts : List Token) : List Token := if separates ts then [.semi] else []

/-- Behind a newline stand the tokens of the text by itself, with a `;` in front of the first of
them where the newline separates. -/
lemma ofLexemes_behind_newline (last : Option Token) (ls : List Lexeme) :
    Token.ofLexemes last (last.any (!·.absorbsNewline)) ls =
      if Token.ofLexemes none false ls = [] then []
      else (if last.any (!·.absorbsNewline) then [.semi] else []) ++
        Token.ofLexemes none false ls := by
  induction ls with
  | nil => rfl
  | cons l ls ih =>
    cases l with
    | newline => simpa [Token.ofLexemes] using ih
    | token t => cases hlast : last.any (!·.absorbsNewline) <;> simp [Token.ofLexemes]

/-- A text that has tokens leaves no quotation open. -/
lemma keepsNewline_of_tokenize {line : String} {ts : List Token}
    (h : Token.tokenize line = .ok ts) (hescape : (after line).phase ≠ .escape) :
    (after line).phase.keepsNewline = false := by
  rw [tokenize_eq] at h
  obtain ⟨ls, hls, -⟩ := exists_of_map_eq_ok h
  cases hphase : (after line).phase with
  | escape => exact (hescape hphase).elim
  | quoted q => simp [State.finish, hphase] at hls
  | quotedEscape => simp [State.finish, hphase] at hls
  | _ => rfl

/-- **The tokens of two lines** are those of the first and those of the second, with a `;`
between them where the newline separates. -/
lemma tokenize_newline {a b : String} {ts us : List Token} (ha : Token.tokenize a = .ok ts)
    (hescape : (after a).phase ≠ .escape) (hb : Token.tokenize b = .ok us) :
    Token.tokenize (a ++ "\n" ++ b) = .ok (ts ++ if us = [] then [] else separator ts ++ us) := by
  have hkeep := keepsNewline_of_tokenize ha hescape
  obtain rfl : begun a = ts := by
    rw [tokenize_of_not_keepsNewline hkeep] at ha
    exact Except.ok.inj ha
  rw [tokenize_eq] at hb
  obtain ⟨ls, hls, rfl⟩ := exists_of_map_eq_ok hb
  rw [tokenize_append_newline hkeep, hls]
  exact congrArg (fun us => Except.ok (begun a ++ us)) (ofLexemes_behind_newline _ ls)

end Conch.Scanner

namespace Conch.Parser

open Conch.Grammar Conch.Scanner

/-! ## The parser between two lines -/

/-- Behind `&` the current block has ended. -/
lemma step_amp {s s' : State} (h : step s .amp = .ok s') :
    ∃ blocks, s' = ⟨.boundary .amp, ⟨blocks, [], []⟩, s.outer⟩ := by
  obtain ⟨mode, l, outer⟩ := s
  cases mode with
  | boundary b =>
    have hcloses : closes outer .amp = false := by
      cases outer with
      | nil => rfl
      | cons frame outer =>
        obtain ⟨list, o⟩ := frame
        cases o <;> simp [closes, Opener.closer]
    simp [step, hcloses, start] at h
  | operand op => cases h
  | simple d => cases h; exact ⟨_, rfl⟩
  | target d op => cases h
  | nested e => cases h; exact ⟨_, rfl⟩

/-- Behind a complete element at the end of an accepted line, a `;` ends the last block. -/
lemma step_semi_of_finishWith {s : State} {e : Element} {blocks : List Block}
    (h : finishWith s e = .ok ⟨blocks⟩) :
    follow s e .semi = .ok ⟨.boundary .semi, ⟨blocks.reverse, [], []⟩, []⟩ := by
  obtain ⟨mode, l, outer⟩ := s
  cases outer with
  | cons frame outer => cases h
  | nil =>
    have hblocks : (l.endBlock e false).command = ⟨blocks⟩ := Except.ok.inj h
    rw [Open.command, Command.mk.injEq] at hblocks
    rw [← hblocks, List.reverse_reverse]
    rfl

/-- **Where the parser stands at the end of an accepted line.**  A `;` takes it to the start of a
block behind those of the line.  Where a newline would not put one, the parser is already
there. -/
lemma read_of_accepted {ts : List Token} {blocks : List Block}
    (h : run .initial ts = .ok ⟨blocks⟩) :
    ∃ s, read .initial ts = .ok s ∧
      step s .semi = .ok ⟨.boundary .semi, ⟨blocks.reverse, [], []⟩, []⟩ ∧
      (separates ts = true ∨ s = ⟨.boundary .amp, ⟨blocks.reverse, [], []⟩, []⟩) := by
  obtain ⟨s, hread, hfinish⟩ := exists_of_bind_eq_ok h
  refine ⟨s, hread, ?_⟩
  rcases behind_of_read hread with ⟨-, rfl⟩ | ⟨front, t, rfl, hbehind⟩
  · cases hfinish
  have hsep : separates (front ++ [t]) = !t.absorbsNewline := by simp [separates]
  obtain ⟨s₀, -, hstep⟩ := exists_step_of_read_concat hread
  rw [hsep]
  cases hmode : s.mode with
  | simple d =>
    have hend : finishWith s (.simple d.command) = .ok ⟨blocks⟩ := by
      simpa [finish, hmode] using hfinish
    have hsemi : step s .semi = follow s (.simple d.command) .semi := by simp [step, hmode]
    have ht : (∃ w, t = .word w) ∨ ∃ op, t = .redirect op := by
      simpa [State.Behind, hmode] using hbehind
    refine ⟨hsemi.trans (step_semi_of_finishWith hend), .inl ?_⟩
    rcases ht with ⟨w, rfl⟩ | ⟨op, rfl⟩ <;> rfl
  | nested e =>
    have hend : finishWith s e = .ok ⟨blocks⟩ := by simpa [finish, hmode] using hfinish
    have hsemi : step s .semi = follow s e .semi := by simp [step, hmode]
    have ht : t = .rparen ∨ t = rbrace := by simpa [State.Behind, hmode] using hbehind
    refine ⟨hsemi.trans (step_semi_of_finishWith hend), .inl ?_⟩
    rcases ht with rfl | rfl <;> rfl
  | boundary b =>
    obtain ⟨mode, l, outer⟩ := s
    obtain rfl : mode = .boundary b := hmode
    cases outer with
    | cons frame outer => cases hfinish
    | nil =>
      cases b with
      | opening => cases hfinish
      | semi => cases hfinish
      | amp =>
        obtain rfl : t = .amp := hbehind
        obtain ⟨blocks', hs⟩ := step_amp hstep
        obtain rfl : l = ⟨blocks', [], []⟩ := congrArg State.list hs
        have hblocks : blocks'.reverse = blocks := by
          simpa [finish, Open.command] using hfinish
        rw [← hblocks, List.reverse_reverse]
        exact ⟨by simp [step, closes_semi], .inr rfl⟩
  | operand op => simp [finish, hmode] at hfinish
  | target d op => simp [finish, hmode] at hfinish

/-- **A line behind other blocks** adds its own. -/
lemma run_boundary {us : List Token} {blocks' : List Block}
    (h : Command.ofTokens us = .ok ⟨blocks'⟩) (b : Boundary) (blocks : List Block) :
    run ⟨.boundary b, ⟨blocks.reverse, [], []⟩, []⟩ us = .ok ⟨blocks ++ blocks'⟩ := by
  have hderives : Derives us ⟨blocks'⟩ := ofTokens_eq_ok_iff.mp h
  refine (Blocks.run hderives b blocks.reverse [] rfl rfl).trans ?_
  simp [ended, Open.command, Command.blocks]

/-- An accepted line has tokens. -/
lemma ne_nil_of_ofTokens {ts : List Token} {c : Command}
    (h : Command.ofTokens (Token.dropLastSemi ts) = .ok c) : ts ≠ [] := by
  rintro rfl
  cases h

/-- The tokens of two accepted lines, each of which may end in a `;`, with what the newline puts
between them. -/
lemma ofTokens_newline {ts us : List Token} {blocks blocks' : List Block}
    (hts : Command.ofTokens (Token.dropLastSemi ts) = .ok ⟨blocks⟩)
    (hus : Command.ofTokens (Token.dropLastSemi us) = .ok ⟨blocks'⟩) :
    Command.ofTokens (Token.dropLastSemi (ts ++ (separator ts ++ us))) =
      .ok ⟨blocks ++ blocks'⟩ := by
  rw [← List.append_assoc, dropLastSemi_append _ (ne_nil_of_ofTokens hus), List.append_assoc]
  obtain ⟨s, hread, hsemi, hamp⟩ := read_of_accepted hts
  refine (run_append .initial ts _).trans ?_
  by_cases hlast : ts.getLast? = some .semi
  · -- the line ends in `;`, and the newline adds nothing
    obtain ⟨front, rfl⟩ := List.getLast?_eq_some_iff.mp hlast
    have hdrop : Token.dropLastSemi (front ++ [.semi]) = front := by simp [Token.dropLastSemi]
    have hsep : separator (front ++ [.semi]) = [] := by
      simp [separator, separates, Token.absorbsNewline]
    rw [hdrop] at hread
    rw [hsep, read_append, hread]
    show (read s [.semi] >>= fun s' => run s' (Token.dropLastSemi us)) = _
    rw [read_singleton, hsemi]
    exact run_boundary hus .semi blocks
  · have hdrop : Token.dropLastSemi ts = ts := if_neg hlast
    rw [hdrop] at hread hamp
    rw [hread]
    show run s (separator ts ++ Token.dropLastSemi us) = _
    unfold separator
    by_cases hsep : separates ts = true
    · rw [if_pos hsep]
      refine (run_cons_of_ok hsemi _).trans ?_
      exact run_boundary hus .semi blocks
    · rw [if_neg hsep, hamp.resolve_left hsep]
      exact run_boundary hus .amp blocks

end Conch.Parser

namespace Conch.Command

open Conch.Parser Conch.Scanner

/-- The text has these blocks: it is accepted as a command with them, or it has no tokens and
there are none. -/
def ReadsAs (text : String) (blocks : List Block) : Prop :=
  parse text = .ok ⟨blocks⟩ ∨ Token.tokenize text = .ok [] ∧ blocks = []

lemma ReadsAs.exists_tokens {text : String} {blocks : List Block} (h : ReadsAs text blocks) :
    ∃ ts, Token.tokenize text = .ok ts ∧
      (ts = [] ∧ blocks = [] ∨ ofTokens (Token.dropLastSemi ts) = .ok ⟨blocks⟩) := by
  rcases h with h | ⟨h, rfl⟩
  · obtain ⟨ts, hts, hparse⟩ := parse_eq_ok_iff.mp h
    exact ⟨ts, hts, .inr hparse⟩
  · exact ⟨[], h, .inl ⟨rfl, rfl⟩⟩

/-- An accepted text has tokens. -/
lemma tokenize_ne_nil {text : String} {c : Command} (h : parse text = .ok c) :
    Token.tokenize text ≠ .ok [] := by
  intro htokens
  rw [parse_of_tokenize htokens] at h
  exact ne_nil_of_ofTokens h rfl

/-- **A newline puts two texts one behind the other.**  If each of two texts is accepted or has no
tokens, and one of them is accepted, then with a newline between them they are accepted with the
blocks of the first and behind them those of the second.  The first must not end in a backslash
that would escape the newline.

**Proof sketch.** The tokens of both texts stay as they are, so only the place between them
matters.  A `;` at the end of the first text is now read and no longer dropped; without one, the
newline is a `;` behind a foreground block and nothing behind `&`.  In each case the parser comes
to the start of a block with the blocks of the first text behind it, and there it follows the
derivation of the second. -/
theorem parse_newline {a b : String} {blocks blocks' : List Block} (ha : ReadsAs a blocks)
    (hb : ReadsAs b blocks') (hsome : (∃ c, parse a = .ok c) ∨ ∃ c, parse b = .ok c)
    (hescape : (after a).phase ≠ .escape) :
    parse (a ++ "\n" ++ b) = .ok ⟨blocks ++ blocks'⟩ := by
  obtain ⟨ts, hts, hts'⟩ := ha.exists_tokens
  obtain ⟨us, hus, hus'⟩ := hb.exists_tokens
  rw [parse_of_tokenize (tokenize_newline hts hescape hus)]
  rcases hus' with ⟨rfl, rfl⟩ | hus'
  · rcases hts' with ⟨rfl, rfl⟩ | hts'
    · rcases hsome with ⟨c, hc⟩ | ⟨c, hc⟩
      · exact (tokenize_ne_nil hc hts).elim
      · exact (tokenize_ne_nil hc hus).elim
    · simpa using hts'
  · rw [if_neg (ne_nil_of_ofTokens hus')]
    rcases hts' with ⟨rfl, rfl⟩ | hts'
    · exact hus'
    · exact ofTokens_newline hts' hus'

/-- A line in the background, and below it a comment and a line that ends in `;`. -/
theorem parse_newline_background :
    (after "a &").phase ≠ .escape ∧
      parse "a &" = .ok ⟨[⟨⟨[.simple ⟨["a"], [], true⟩], true⟩, []⟩]⟩ ∧
      parse "# b\nc;" = .ok ⟨[⟨⟨[.simple ⟨["c"], [], false⟩], false⟩, []⟩]⟩ ∧
      parse ("a &" ++ "\n" ++ "# b\nc;") = .ok ⟨[⟨⟨[.simple ⟨["a"], [], true⟩], true⟩, []⟩,
        ⟨⟨[.simple ⟨["c"], [], false⟩], false⟩, []⟩]⟩ := by
  have hescape : (after "a &").phase ≠ .escape := by decide +kernel
  have ha : parse "a &" = .ok ⟨[⟨⟨[.simple ⟨["a"], [], true⟩], true⟩, []⟩]⟩ := rfl
  have hb : parse "# b\nc;" = .ok ⟨[⟨⟨[.simple ⟨["c"], [], false⟩], false⟩, []⟩]⟩ := rfl
  exact ⟨hescape, ha, hb, parse_newline (.inl ha) (.inl hb) (.inl ⟨_, ha⟩) hescape⟩

end Conch.Command
