import Conch.Proofs.Parser
import Conch.Proofs.Scanner

/-!
# Lines that go on

The shell reports an error of a line, or puts a newline and the next line behind it and tries
again.  This module says what the second line can change.  A reported error stays an error,
whatever follows.  Where the shell asks for more, there is something that completes the line
exactly when the parser has read all of its tokens and is not right behind the word that opens a
group: the newline behind that word becomes a `;`, and no block starts with one.

## Main definitions

* `Conch.Scanner.begun` — the tokens of a line that may leave a quotation open.
* `Conch.Parser.State.Behind` — the tokens that lead to a state.
* `Conch.Parser.closers` — the tokens that close all lists that are open.
* `Conch.Parser.Completable` — when a line can be completed.

## Main results

* `Conch.Scanner.tokenize_append_newline`, `Conch.Scanner.begun_of_keepsNewline` — the tokens of
  a line and of the text behind it.
* `Conch.Parser.error_of_continue` — a reported error is final.
* `Conch.Parser.exists_completion_iff` — when a request for more can be met.
-/

set_option autoImplicit false

namespace Conch.Scanner

/-! ## Tokens in front of a newline -/

/-- The tokens of a line, in which a quotation that it leaves open counts as a word. -/
def begun (line : String) : List Token := Token.ofLexemes none false (after line).lexemes

/-- A newline behind the tokens separates them from what follows. -/
def separates (ts : List Token) : Bool := ts.getLast?.any (!·.absorbsNewline)

lemma after_append_newline (line s : String) :
    after (line ++ "\n" ++ s) = run (step (after line) '\n') s.toList := by
  rw [after_append, after_append]
  rfl

lemma tokenize_eq_begun {line : String} (h : (after line).finish = .ok (after line).lexemes) :
    Token.tokenize line = .ok (begun line) := by
  rw [tokenize_eq, h]
  rfl

lemma tokenize_of_not_keepsNewline {line : String}
    (h : (after line).phase.keepsNewline = false) : Token.tokenize line = .ok (begun line) :=
  tokenize_eq_begun (step_newline (sound_after line) h).2

/-- Lexemes behind a newline. -/
lemma ofLexemes_append_newline (xs ls : List Lexeme) :
    Token.ofLexemes none false (xs ++ .newline :: ls) =
      Token.ofLexemes none false xs ++ Token.ofLexemes (Token.ofLexemes none false xs).getLast?
        (separates (Token.ofLexemes none false xs)) ls := by
  obtain ⟨p, hp, happend⟩ := ofLexemes_append none false xs nofun
  rw [happend]
  generalize Token.ofLexemes none false xs = ts at hp ⊢
  have hlast : ts.getLast?.or none = ts.getLast? := by cases ts.getLast? <;> rfl
  rw [hlast] at hp ⊢
  have hsep : (p || separates ts) = separates ts := by
    cases p with
    | false => rfl
    | true => exact (hp rfl).symm
  exact congrArg (fun b => ts ++ Token.ofLexemes ts.getLast? b ls) hsep

/-- **A newline outside quotations and escapes** leaves the tokens in front of it as they are. -/
lemma tokenize_append_newline {line : String} (h : (after line).phase.keepsNewline = false)
    (s : String) :
    Token.tokenize (line ++ "\n" ++ s) =
      (fun ls => begun line ++
          Token.ofLexemes (begun line).getLast? (separates (begun line)) ls) <$>
        (after s).finish := by
  obtain ⟨hstep, -⟩ := step_newline (sound_after line) h
  have hafter : run ⟨.bare, [], []⟩ s.toList = after s := rfl
  rw [tokenize_eq, after_append_newline, hstep, finish_run_out, hafter, ← comp_map]
  refine congrArg (· <$> _) (funext fun ls => ?_)
  rw [Function.comp_apply, List.reverse_cons, List.reverse_reverse, List.append_assoc]
  exact ofLexemes_append_newline (after line).lexemes ls

/-- The first token behind a newline has a `;` in front of it where the newline separates. -/
lemma ofLexemes_eq_nil_or (last : Option Token) (ls : List Lexeme) :
    let p := last.any (!·.absorbsNewline)
    Token.ofLexemes last p ls = [] ∨
      ∃ t rest, Token.ofLexemes last p ls = (if p then [.semi] else []) ++ t :: rest := by
  intro p
  induction ls with
  | nil => exact .inl rfl
  | cons l ls ih =>
    cases l with
    | newline => simpa [Token.ofLexemes, p] using ih
    | token t =>
      refine .inr ⟨t, Token.ofLexemes (some t) false ls, ?_⟩
      cases p <;> rfl

/-- Behind such a newline there are no more tokens, or a first one. -/
lemma tokenize_continue {line : String} (h : (after line).phase.keepsNewline = false)
    {s : String} {ts : List Token} (hts : Token.tokenize (line ++ "\n" ++ s) = .ok ts) :
    ts = begun line ∨
      ∃ t rest, ts =
        begun line ++ ((if separates (begun line) then [.semi] else []) ++ t :: rest) := by
  rw [tokenize_append_newline h] at hts
  obtain ⟨ls, -, rfl⟩ := exists_of_map_eq_ok hts
  rcases ofLexemes_eq_nil_or (begun line).getLast? ls with hnil | ⟨t, rest, hrest⟩
  · exact .inl ((congrArg _ hnil).trans (List.append_nil _))
  · exact .inr ⟨t, rest, congrArg _ hrest⟩

/-- The tokens that a text spells, behind such a newline. -/
lemma tokenize_continue_of_spells {line : String} (h : (after line).phase.keepsNewline = false)
    {s : String} {t : Token} {ts : List Token} (hs : Spells s.toList (t :: ts)) :
    Token.tokenize (line ++ "\n" ++ s) =
      .ok (begun line ++ ((if separates (begun line) then [.semi] else []) ++ t :: ts)) := by
  have hfinish : (after s).finish = .ok ((t :: ts).map .token) := hs.finish_run []
  rw [tokenize_append_newline h, hfinish]
  refine congrArg (fun us => Except.ok (begun line ++ us)) ?_
  cases separates (begun line) <;> simp [Token.ofLexemes, ofLexemes_map_token]

/-! ## Words that a newline goes on with -/

/-- The word opens and closes no group. -/
def IsPlain (w : String) : Prop := w ≠ "\x7b" ∧ w ≠ "\x7d"

instance (w : String) : Decidable (IsPlain w) := inferInstanceAs (Decidable (_ ∧ _))

/-- A word with a character that no brace has. -/
lemma isPlain_of_mem_newline {w : String} (h : '\n' ∈ w.toList) : IsPlain w := by
  constructor <;> rintro rfl <;> revert h <;> decide

lemma inWord_of_ne_nil {word : List Char} (h : word ≠ []) (c : Char) :
    inWord word c = .bare ∨ (inWord word c).keepsNewline = true := by
  unfold inWord
  split
  · exact .inr rfl
  · exact .inr rfl
  · exact .inr rfl
  · exact .inl (if_neg h)
  · exact .inl rfl

/-- **A word that has begun** is the next token, and its characters stay in it. -/
lemma finish_run_begun (out : List Lexeme) {cs : List Char} {ls : List Lexeme} :
    ∀ {p : Phase} {word : List Char}, p = .bare ∨ p.keepsNewline = true → word ≠ [] →
      (run ⟨p, word, out⟩ cs).finish = .ok ls →
      ∃ w more, ls = out.reverse ++ .token (.word w) :: more ∧ ∀ c ∈ word, c ∈ w.toList := by
  induction cs with
  | nil =>
    intro p word hp hword h
    refine ⟨String.ofList word.reverse, [], ?_, by simp⟩
    rcases hp with rfl | hp
    · simpa [State.finish, State.lexemes, State.settle, State.flushed, Phase.pending, hword]
        using h.symm
    · cases p with
      | escape =>
        simpa [State.finish, State.lexemes, State.settle, State.flushed, Phase.pending, hword]
          using h.symm
      | quoted | quotedEscape => cases h
      | _ => cases hp
  | cons c cs ih =>
    intro p word hp hword h
    rw [run_cons] at h
    -- a character that goes on with the word
    have hmore : ∀ {q : Phase}, q = .bare ∨ q.keepsNewline = true →
        step ⟨p, word, out⟩ c = ⟨q, c :: word, out⟩ →
        ∃ w more, ls = out.reverse ++ .token (.word w) :: more ∧ ∀ c ∈ word, c ∈ w.toList := by
      intro q hq hstep
      rw [hstep] at h
      obtain ⟨w, more, hls, hmem⟩ := ih hq (List.cons_ne_nil c word) h
      exact ⟨w, more, hls, fun d hd => hmem d (.tail _ hd)⟩
    rcases hp with rfl | hp
    · cases hd : delimiter c with
      | none =>
        refine hmore (inWord_of_ne_nil hword c) ?_
        rw [step_bare, State.read_of_delimiter_none hd fun h => hword h.2]
      | some r =>
        obtain ⟨q, rs⟩ := r
        have hstep : step ⟨.bare, word, out⟩ c =
            ⟨q, [], rs ++ .token (.word (String.ofList word.reverse)) :: out⟩ := by
          rw [step_bare]
          simp [State.read, hd, State.flushed, hword]
        rw [hstep, finish_run_out] at h
        obtain ⟨ls', -, rfl⟩ := exists_of_map_eq_ok h
        exact ⟨String.ofList word.reverse, rs.reverse ++ ls', by simp, by simp⟩
    · cases p with
      | escape => exact hmore (.inl rfl) rfl
      | quotedEscape => exact hmore (.inr rfl) rfl
      | quoted q =>
        refine hmore ?_ rfl
        split_ifs
        · exact .inl rfl
        · exact .inr rfl
        · exact .inr rfl
      | _ => cases hp

/-- A token behind lexemes has the same tokens in front of it, whichever it is. -/
lemma ofLexemes_append_token (xs : List Lexeme) : ∃ front, ∀ t ls,
    Token.ofLexemes none false (xs ++ .token t :: ls) =
      front ++ t :: Token.ofLexemes (some t) false ls := by
  obtain ⟨p, -, happend⟩ := ofLexemes_append none false xs nofun
  refine ⟨Token.ofLexemes none false xs ++ if p then [.semi] else [], fun t ls => ?_⟩
  rw [happend]
  cases p <;> simp [Token.ofLexemes]

/-- The last word of a line that leaves a quotation or an escape open. -/
lemma State.Sound.word_of_keepsNewline {s : State} (hs : s.Sound)
    (h : s.phase.keepsNewline = true) :
    IsPlain (String.ofList s.word.reverse) ∧
      s.lexemes = s.out.reverse ++ [.token (.word (String.ofList s.word.reverse))] := by
  obtain ⟨p, word, out⟩ := s
  have hp : p.holdsWord = true ∧ p.pending = [] := by
    cases p <;> simp [Phase.keepsNewline, Phase.holdsWord, Phase.pending] at h ⊢
  have hrun : Scanner.run .initial word.reverse = ⟨p, word, []⟩ := hs.run_word hp.1
  have hword : word ≠ [] := by
    rintro rfl
    obtain rfl : Phase.bare = p := congrArg State.phase hrun
    cases h
  have hphase : (after (String.ofList word.reverse)).phase.keepsNewline = true := by
    rw [after, String.toList_ofList, hrun]
    exact h
  refine ⟨⟨fun hw => ?_, fun hw => ?_⟩, ?_⟩
  · rw [hw] at hphase
    cases hphase
  · rw [hw] at hphase
    cases hphase
  · simp [State.lexemes, State.settle, State.flushed, hp.2, hword]

/-- **A newline inside a quotation or an escape** belongs to the last word of the line.  The text
behind it ends that word, and can do so at once. -/
lemma begun_of_keepsNewline {line : String} (h : (after line).phase.keepsNewline = true) :
    ∃ front w, IsPlain w ∧ begun line = front ++ [.word w] ∧
      (∀ s ts, Token.tokenize (line ++ "\n" ++ s) = .ok ts →
        ∃ w' more, IsPlain w' ∧ ts = front ++ .word w' :: more) ∧
      ∀ cs more, Breaks cs → Spells cs more →
        ∃ s w', IsPlain w' ∧
          Token.tokenize (line ++ "\n" ++ s) = .ok (front ++ .word w' :: more) := by
  obtain ⟨front, hfront⟩ := ofLexemes_append_token (after line).out.reverse
  obtain ⟨p, hstep, hp⟩ := step_newline_of_keepsNewline h
  obtain ⟨hplain, hlexemes⟩ := (sound_after line).word_of_keepsNewline h
  refine ⟨front, String.ofList (after line).word.reverse, hplain, ?_, fun s ts hts => ?_,
    fun cs more hbreaks hspells => ?_⟩
  · rw [begun, hlexemes]
    exact hfront _ []
  · rw [tokenize_eq, after_append_newline, hstep] at hts
    obtain ⟨ls, hls, rfl⟩ := exists_of_map_eq_ok hts
    have hp' : p = .bare ∨ p.keepsNewline = true := by
      rcases hp with rfl | ⟨q, rfl⟩
      · exact .inl rfl
      · exact .inr rfl
    obtain ⟨w', more, rfl, hmem⟩ := finish_run_begun _ hp' (List.cons_ne_nil _ _) hls
    exact ⟨w', Token.ofLexemes (some (.word w')) false more,
      isPlain_of_mem_newline (hmem _ (.head _)), hfront _ more⟩
  · -- the quotation is closed first
    have hclose : ∃ pre word', '\n' ∈ word' ∧
        run ⟨p, '\n' :: (after line).word, (after line).out⟩ pre =
          ⟨.bare, word', (after line).out⟩ := by
      rcases hp with rfl | ⟨q, rfl⟩
      · exact ⟨[], _, .head _, rfl⟩
      · exact ⟨[q.mark], q.mark :: '\n' :: (after line).word, by simp, by simp [step]⟩
    obtain ⟨pre, word', hmem, hrun⟩ := hclose
    have hplain' : IsPlain (String.ofList word'.reverse) :=
      isPlain_of_mem_newline (by simpa using hmem)
    refine ⟨String.ofList (pre ++ cs), String.ofList word'.reverse, hplain', ?_⟩
    rw [tokenize_eq, after_append_newline, hstep, String.toList_ofList, run_append, hrun,
      finish_run_word (List.ne_nil_of_mem hmem) _ hbreaks, hspells.finish_run]
    have htokens := hfront (.word (String.ofList word'.reverse)) (more.map .token)
    rw [ofLexemes_map_token] at htokens
    rw [List.reverse_cons, List.append_assoc]
    exact congrArg Except.ok htokens

end Conch.Scanner

namespace Conch.Parser

open Conch.Grammar Conch.Scanner

/-! ## The last token read -/

/-- The parser is right behind the word that opens a group. -/
def State.OpensGroup (s : State) : Prop :=
  s.mode = .boundary .opening ∧ opener s.outer = some .brace

/-- The token is one that leads to the state. -/
def State.Behind (s : State) (t : Token) : Prop :=
  match s.mode with
  | .boundary .opening =>
    t = .lparen ∧ opener s.outer = some .paren ∨ t = lbrace ∧ opener s.outer = some .brace
  | .boundary .semi => t = .semi
  | .boundary .amp => t = .amp
  | .operand _ => t = .pipe ∨ ∃ c, t = .connector c
  | .simple _ => (∃ w, t = .word w) ∨ ∃ op, t = .redirect op
  | .target _ _ => ∃ op, t = .redirect op
  | .nested _ => t = .rparen ∨ t = rbrace

lemma behind_of_start {s s' : State} {t : Token} (h : start s t = .ok s') : s'.Behind t := by
  cases t with
  | lparen =>
    cases h
    exact .inl ⟨rfl, rfl⟩
  | word w =>
    simp only [start] at h
    split at h
    · rename_i hw
      cases h
      exact .inr ⟨congrArg Token.word hw, rfl⟩
    · cases h
      exact .inl ⟨w, rfl⟩
  | redirect op =>
    cases h
    cases op <;> first | exact .inr ⟨_, rfl⟩ | exact ⟨_, rfl⟩
  | _ => cases h

lemma behind_of_close {l : Open} {outer : List (Open × Opener)} {s' : State} {t : Token}
    (h : close l outer t = .ok s') : s'.Behind t := by
  cases outer with
  | nil => cases h
  | cons frame outer =>
    obtain ⟨list, o⟩ := frame
    simp only [close] at h
    split at h
    · rename_i ht
      cases h
      subst ht
      cases o
      · exact .inl rfl
      · exact .inr rfl
    · cases h

lemma behind_of_follow {s s' : State} {e : Element} {t : Token} (h : follow s e t = .ok s') :
    s'.Behind t := by
  cases t with
  | pipe => cases h; exact .inl rfl
  | connector c => cases h; exact .inr ⟨c, rfl⟩
  | amp => cases h; rfl
  | semi => cases h; rfl
  | _ => exact behind_of_close h

/-- **What leads to a state**: the last token is known from the state behind it. -/
lemma behind_of_step {s s' : State} {t : Token} (h : step s t = .ok s') : s'.Behind t := by
  obtain ⟨mode, l, outer⟩ := s
  cases mode with
  | boundary b =>
    simp only [step] at h
    split at h
    · split at h
      · cases h
      · exact behind_of_close h
    · split at h
      · rename_i hsemi
        cases h
        exact hsemi.2
      · exact behind_of_start h
  | operand op => exact behind_of_start h
  | simple d =>
    cases t with
    | word w => cases h; exact .inl ⟨w, rfl⟩
    | redirect op =>
      cases h
      cases op <;> first | exact .inr ⟨_, rfl⟩ | exact ⟨_, rfl⟩
    | _ => exact behind_of_follow h
  | target d op =>
    cases t with
    | word w => cases h; exact .inl ⟨w, rfl⟩
    | _ => cases h
  | nested e => exact behind_of_follow h

/-- The same for a run: the state at its end is one behind its last token, or the first one. -/
lemma behind_of_read {ts : List Token} {s : State} (h : read .initial ts = .ok s) :
    ts = [] ∧ s = .initial ∨ ∃ front t, ts = front ++ [t] ∧ s.Behind t := by
  rcases List.eq_nil_or_concat ts with rfl | ⟨front, t, rfl⟩
  · exact .inl ⟨rfl, (Except.ok.inj h).symm⟩
  · rw [List.concat_eq_append] at h ⊢
    obtain ⟨s₀, -, hstep⟩ := exists_step_of_read_concat h
    exact .inr ⟨front, t, rfl, behind_of_step hstep⟩

/-! ## Words and separators -/

/-- A word that opens and closes no group is rejected behind a nested command. -/
lemma step_word_nested {s : State} {w : String} (hw : IsPlain w) {e : Element}
    (hs : s.mode = .nested e) (s' : State) : step s (.word w) ≠ .ok s' := by
  intro h
  have hfollow : follow s e (.word w) = .ok s' := by
    rw [← h]
    simp [step, hs]
  rcases s with ⟨mode, l, outer⟩
  cases outer with
  | nil => cases hfollow
  | cons frame outer =>
    obtain ⟨list, o⟩ := frame
    have hne : Token.word w ≠ o.closer := by cases o <;> simp [Opener.closer, hw.2]
    simp [follow, close, hne] at hfollow

/-- It is taken for a word of a simple command everywhere else. -/
lemma step_word {s : State} {w : String} (hw : IsPlain w) (hs : ∀ e, s.mode ≠ .nested e) :
    ∃ d, step s (.word w) = .ok ⟨.simple d, s.list, s.outer⟩ := by
  obtain ⟨mode, l, outer⟩ := s
  have hopen : w ≠ Opener.brace.text := hw.1
  cases mode with
  | boundary b =>
    have hclose : closes outer (.word w) = false := by
      cases outer with
      | nil => rfl
      | cons frame outer =>
        obtain ⟨list, o⟩ := frame
        cases o <;> simp [closes, Opener.closer, hw.2]
    exact ⟨⟨[w], []⟩, by simp [step, hclose, start, hopen]⟩
  | operand op => exact ⟨⟨[w], []⟩, by simp [step, start, hopen]⟩
  | simple d => exact ⟨d.addWord w, rfl⟩
  | target d op => exact ⟨d.addRedirect op w, rfl⟩
  | nested e => exact (hs e rfl).elim

/-- A `;` is rejected at the start of a block, unless `&` is in front, and behind a redirection
operator. -/
lemma step_semi_ne_ok {s : State}
    (h : (∃ b, s.mode = .boundary b ∧ b ≠ .amp) ∨ ∃ d op, s.mode = .target d op) (s' : State) :
    step s .semi ≠ .ok s' := by
  obtain ⟨mode, l, outer⟩ := s
  rcases h with ⟨b, rfl, hb⟩ | ⟨d, op, rfl⟩
  · simp [step, closes_semi, hb, start]
  · intro h
    cases h

/-! ## Closing what is open -/

/-- The tokens that close the lists. -/
def closers : List (Open × Opener) → List Token
  | [] => []
  | (_, .paren) :: outer => .rparen :: closers outer
  | (_, .brace) :: outer => .semi :: rbrace :: closers outer

/-- The text of these tokens. -/
def closersText : List (Open × Opener) → List Char
  | [] => []
  | (_, .paren) :: outer => ')' :: closersText outer
  | (_, .brace) :: outer => ';' :: ' ' :: '\x7d' :: closersText outer

lemma breaks_closersText (outer : List (Open × Opener)) : Breaks (closersText outer) := by
  rcases outer with - | ⟨⟨list, o⟩, outer⟩
  · simp [Breaks, closersText]
  · cases o <;> simp [Breaks, closersText, isBreak]

lemma spells_closersText (outer : List (Open × Opener)) :
    Spells (closersText outer) (closers outer) := by
  induction outer with
  | nil => exact .nil
  | cons frame outer ih =>
    obtain ⟨list, o⟩ := frame
    have hbreaks := breaks_closersText outer
    cases o with
    | paren => exact .cons (t := .rparen) trivial hbreaks ih
    | brace =>
      have hbrace : IsWord "\x7d" := by decide
      have hclose := Spells.cons (t := rbrace) hbrace hbreaks ih
      exact .cons (t := .semi) trivial (by simp [Breaks, isBreak]) hclose.blank

/-- **Behind an element the closers end the line.** -/
lemma run_closers (outer : List (Open × Opener)) :
    ∀ (e : Element) (l : Open), ∃ c, run ⟨.nested e, l, outer⟩ (closers outer) = .ok c := by
  induction outer with
  | nil => exact fun e l => ⟨_, rfl⟩
  | cons frame outer ih =>
    intro e l
    obtain ⟨list, o⟩ := frame
    obtain ⟨c, hc⟩ := ih (o.wrap (l.endBlock e false).command) list
    refine ⟨c, ?_⟩
    cases o with
    | paren =>
      have hend : EndsBlock (.rparen :: closers outer) := by simp [EndsBlock]
      exact (run_nested_eq_ended e l _ hend).trans ((ended_closer _ list .paren outer _).trans hc)
    | brace =>
      have hclosed : Closed (opener ((list, .brace) :: outer)) (rbrace :: closers outer) :=
        ⟨closers outer, rfl⟩
      calc run ⟨.nested e, l, (list, .brace) :: outer⟩ (.semi :: rbrace :: closers outer)
          = run ⟨.boundary .semi, l.endBlock e false, (list, .brace) :: outer⟩
              (rbrace :: closers outer) := run_nested_eq_ended e l _ (endsBlock_semi _)
        _ = ended (l.endBlock e false) ((list, .brace) :: outer) (rbrace :: closers outer) :=
            run_boundary_eq_ended .semi (List.cons_ne_nil _ _) hclosed (by simp)
        _ = .ok c := (ended_closer _ list .brace outer _).trans hc

/-- A word and the closers end the line where a word may follow. -/
lemma run_word_closers {s : State} {w : String} (hw : IsPlain w) (hs : ∀ e, s.mode ≠ .nested e) :
    ∃ c, run s (.word w :: closers s.outer) = .ok c := by
  obtain ⟨d, hd⟩ := step_word hw hs
  have hstops : Stops (closers s.outer) := by
    rcases s.outer with - | ⟨⟨list, o⟩, outer⟩
    · simp [Stops, closers]
    · cases o <;> simp [Stops, closers, isItem]
  obtain ⟨c, hc⟩ := run_closers s.outer (.simple d.command) s.list
  exact ⟨c, by rw [run_cons_of_ok hd, run_simple_eq_nested d _ _ hstops, hc]⟩

/-! ## What an accepted continuation says about the line -/

lemma dropLastSemi_append (xs : List Token) {ys : List Token} (h : ys ≠ []) :
    Token.dropLastSemi (xs ++ ys) = xs ++ Token.dropLastSemi ys := by
  have hlast : (xs ++ ys).getLast? = ys.getLast? := by
    rw [List.getLast?_append, List.getLast?_eq_some_getLast h]
    rfl
  unfold Token.dropLastSemi
  rw [hlast]
  split
  · exact List.dropLast_append_of_ne_nil h
  · rfl

/-- An accepted text starts with tokens that the parser reads. -/
lemma exists_read_of_parse {line : String} {xs ys : List Token} {c : Command}
    (htokens : Token.tokenize line = .ok (xs ++ ys)) (hys : ys ≠ [])
    (h : Command.parse line = .ok c) :
    ∃ s, read .initial xs = .ok s ∧ run s (Token.dropLastSemi ys) = .ok c := by
  rw [parse_of_tokenize htokens, dropLastSemi_append xs hys] at h
  exact exists_read_of_run_append h

/-- A line whose last word goes on behind the newline. -/
lemma exists_read_of_keepsNewline {line s : String} {c : Command}
    (hkeep : (after line).phase.keepsNewline = true)
    (h : Command.parse (line ++ "\n" ++ s) = .ok c) :
    ∃ st d, read .initial (begun line) = .ok st ∧ st.mode = .simple d := by
  obtain ⟨ts, hts, -⟩ := parse_eq_ok_iff.mp h
  obtain ⟨front, w, hw, hbegun, hcont, -⟩ := begun_of_keepsNewline hkeep
  obtain ⟨w', more, hw', rfl⟩ := hcont s ts hts
  obtain ⟨s₀, hs₀, hrun⟩ := exists_read_of_parse hts (List.cons_ne_nil _ _) h
  -- the longer word was read, so the shorter one is read too
  have hnested : ∀ e, s₀.mode ≠ .nested e := by
    intro e he
    obtain ⟨more', hmore'⟩ :
        ∃ more', Token.dropLastSemi (.word w' :: more) = .word w' :: more' := by
      cases more with
      | nil => exact ⟨[], rfl⟩
      | cons t more => exact ⟨_, dropLastSemi_append [.word w'] (List.cons_ne_nil t more)⟩
    rw [hmore'] at hrun
    obtain ⟨s₁, hs₁, -⟩ := exists_step_of_run_cons hrun
    exact step_word_nested hw' he s₁ hs₁
  obtain ⟨d, hd⟩ := step_word hw hnested
  refine ⟨⟨.simple d, s₀.list, s₀.outer⟩, d, ?_, rfl⟩
  rw [hbegun, read_append, hs₀]
  exact (read_singleton s₀ _).trans hd

/-- **A line that is not accepted but can be completed** is read to its end, and a `;` may follow
where the newline is one. -/
lemma exists_read_of_continue {line s : String} {c : Command}
    (hline : ∀ c, Command.parse line ≠ .ok c) (h : Command.parse (line ++ "\n" ++ s) = .ok c) :
    ∃ st, read .initial (begun line) = .ok st ∧
      (separates (begun line) = true → ∃ st', step st .semi = .ok st') := by
  by_cases hkeep : (after line).phase.keepsNewline = true
  · obtain ⟨⟨mode, l, outer⟩, d, hread, rfl⟩ := exists_read_of_keepsNewline hkeep h
    exact ⟨_, hread, fun _ => ⟨_, rfl⟩⟩
  · have hkeep : (after line).phase.keepsNewline = false := by simpa using hkeep
    obtain ⟨ts, hts, hparse⟩ := parse_eq_ok_iff.mp h
    rcases tokenize_continue hkeep hts with rfl | ⟨t, rest, rfl⟩
    · -- no token follows, and the line is the whole text
      have htokens := tokenize_of_not_keepsNewline hkeep
      exact (hline c (parse_eq_ok_iff.mpr ⟨_, htokens, hparse⟩)).elim
    · obtain ⟨st, hread, hrun⟩ := exists_read_of_parse hts (by simp) h
      refine ⟨st, hread, fun hsep => ?_⟩
      rw [hsep, if_pos rfl, dropLastSemi_append [.semi] (List.cons_ne_nil t rest)] at hrun
      obtain ⟨st', hst', -⟩ := exists_step_of_run_cons hrun
      exact ⟨st', hst'⟩

/-! ## Reported errors -/

/-- The errors at the end of a line that the shell reports. -/
lemma mode_of_finish_eq_error {s : State} {e : SyntaxError} (h : finish s = .error e)
    (hempty : e ≠ .empty) (hfinal : e.isIncomplete = false) :
    s.mode = .boundary .semi ∨ ∃ d op, s.mode = .target d op := by
  obtain ⟨mode, l, outer⟩ := s
  cases mode with
  | boundary b =>
    cases outer with
    | cons frame outer =>
      cases h
      cases hfinal
    | nil =>
      cases b with
      | opening => cases h; exact (hempty rfl).elim
      | semi => exact .inl rfl
      | amp => cases h
  | operand op =>
    cases h
    cases hfinal
  | target d op => exact .inr ⟨d, op, rfl⟩
  | simple d | nested e =>
    cases outer with
    | nil => cases h
    | cons frame outer =>
      cases h
      cases hfinal

/-- Where the shell reports an error at the end of the line, a `;` is an error too. -/
lemma step_semi_ne_ok_of_finish {s : State} {e : SyntaxError} (h : finish s = .error e)
    (hempty : e ≠ .empty) (hfinal : e.isIncomplete = false) (s' : State) :
    step s .semi ≠ .ok s' := by
  refine step_semi_ne_ok ?_ s'
  rcases mode_of_finish_eq_error h hempty hfinal with hmode | hmode
  · exact .inl ⟨.semi, hmode, by decide⟩
  · exact .inr hmode

/-- A newline behind such a line becomes a `;`, unless the line ends in one. -/
lemma separates_of_finish {ts : List Token} {s : State} {e : SyntaxError}
    (hread : read .initial ts = .ok s) (h : finish s = .error e) (hempty : e ≠ .empty)
    (hfinal : e.isIncomplete = false) (hsemi : ts.getLast? ≠ some .semi) :
    separates ts = true := by
  have hmode := mode_of_finish_eq_error h hempty hfinal
  rcases behind_of_read hread with ⟨-, rfl⟩ | ⟨front, t, rfl, hbehind⟩
  · rcases hmode with hmode | ⟨d, op, hmode⟩ <;> cases hmode
  · rcases hmode with hmode | ⟨d, op, hmode⟩
    · obtain rfl : t = .semi := by simpa [State.Behind, hmode] using hbehind
      simp at hsemi
    · obtain ⟨op', rfl⟩ : ∃ op', t = .redirect op' := by simpa [State.Behind, hmode] using hbehind
      simp [separates, Token.absorbsNewline]

/-- A line with a reported error has its tokens. -/
lemma tokenize_of_parse_eq_error {line : String} {e : SyntaxError}
    (h : Command.parse line = .error e) (hfinal : e.isIncomplete = false) :
    Token.tokenize line = .ok (begun line) := by
  refine tokenize_eq_begun ?_
  cases hfinish : (after line).finish with
  | ok ls =>
    unfold Scanner.State.finish at hfinish
    split at hfinish
    · cases hfinish
    · cases hfinish
    · exact hfinish.symm
  | error q =>
    have htokens : Token.tokenize line = .error q := by
      rw [tokenize_eq, hfinish]
      rfl
    have hparse : Command.parse line = .error (.unterminatedQuote q) := by
      unfold Command.parse
      rw [htokens]
      rfl
    rw [hparse] at h
    cases h
    cases hfinal

/-- **A reported error is final.**  Whatever follows a newline behind a line with an error that
asks for nothing more, the text is not accepted.

**Proof sketch.** The parser reads all tokens of a line that can be completed, so the error is one
at the end of the line.  There the parser stands at the start of a block or behind a redirection
operator.  It accepts no `;` in either place, but it meets one: the `;` that the line itself ends
with, or the one that the newline becomes. -/
theorem error_of_continue {line : String} {e : SyntaxError} (h : Command.parse line = .error e)
    (hempty : e ≠ .empty) (hfinal : e.isIncomplete = false) (s : String) :
    ∃ e', Command.parse (line ++ "\n" ++ s) = .error e' := by
  cases hcont : Command.parse (line ++ "\n" ++ s) with
  | error e' => exact ⟨e', rfl⟩
  | ok c =>
    exfalso
    have htokens := tokenize_of_parse_eq_error h hfinal
    obtain ⟨st, hread, hsemi⟩ := exists_read_of_continue (by simp [h]) hcont
    rw [parse_of_tokenize htokens] at h
    by_cases hlast : (begun line).getLast? = some .semi
    · -- the `;` at the end of the line was dropped, and is now read
      obtain ⟨front, hfront⟩ := List.getLast?_eq_some_iff.mp hlast
      have hdrop : Token.dropLastSemi (begun line) = front := by
        simp [Token.dropLastSemi, hfront]
      have hrun : run .initial front = .error e := by rw [← hdrop]; exact h
      rw [hfront] at hread
      obtain ⟨s₀, hs₀, hstep⟩ := exists_step_of_read_concat hread
      rw [run_of_read hs₀] at hrun
      exact step_semi_ne_ok_of_finish hrun hempty hfinal st hstep
    · have hdrop : Token.dropLastSemi (begun line) = begun line := if_neg hlast
      have hrun : run .initial (begun line) = .error e := by rw [← hdrop]; exact h
      rw [run_of_read hread] at hrun
      obtain ⟨st', hst'⟩ := hsemi (separates_of_finish hread hrun hempty hfinal hlast)
      exact step_semi_ne_ok_of_finish hrun hempty hfinal st' hst'

/-- A redirection operator at the end of a line is reported, and the next line gives it no file. -/
theorem error_of_continue_redirect :
    Command.parse "a >" = .error (.missingRedirectTarget .output) ∧
      ∃ e', Command.parse ("a >" ++ "\n" ++ "f") = .error e' := by
  have hparse : Command.parse "a >" = .error (.missingRedirectTarget .output) := rfl
  exact ⟨hparse, error_of_continue hparse (by decide) (by decide) "f"⟩

/-! ## Requests for more -/

/-- The line can be completed: the parser reads all its tokens, and the newline behind the line
does not put a `;` at the start of a group. -/
def Completable (line : String) : Prop :=
  ∃ s, read .initial (begun line) = .ok s ∧ ¬s.OpensGroup

lemma needsContinuation_iff {line : String} :
    Command.needsContinuation line = true ↔
      ∃ e, Command.parse line = .error e ∧ e.isIncomplete = true := by
  unfold Command.needsContinuation
  cases Command.parse line with
  | ok c => simp
  | error e => simp

/-- **Only a completable line is completed.** -/
lemma completable_of_continue {line s : String} {c : Command}
    (hline : ∀ c, Command.parse line ≠ .ok c) (h : Command.parse (line ++ "\n" ++ s) = .ok c) :
    Completable line := by
  obtain ⟨st, hread, hsemi⟩ := exists_read_of_continue hline h
  refine ⟨st, hread, fun ⟨hmode, hopener⟩ => ?_⟩
  rcases behind_of_read hread with ⟨-, rfl⟩ | ⟨front, t, hfront, hbehind⟩
  · cases hopener
  · have ht : t = lbrace := by simpa [State.Behind, hmode, hopener] using hbehind
    obtain ⟨st', hst'⟩ := hsemi (by simp [separates, hfront, ht, Token.absorbsNewline])
    exact step_semi_ne_ok (.inl ⟨.opening, hmode, by decide⟩) st' hst'

/-- A text is accepted when its tokens are. -/
lemma parse_of_run {line : String} {ts : List Token} {c : Command}
    (htokens : Token.tokenize line = .ok ts) (h : run .initial ts = .ok c) :
    Command.parse line = .ok c := by
  rw [parse_of_tokenize htokens, dropLastSemi_of_ofTokens h]
  exact h

/-- A line whose last word goes on behind the newline is completed by the end of that word and
the closers. -/
lemma exists_continue_of_keepsNewline {line : String} {st : State}
    (hkeep : (after line).phase.keepsNewline = true) (h : read .initial (begun line) = .ok st) :
    ∃ s c, Command.parse (line ++ "\n" ++ s) = .ok c := by
  obtain ⟨front, w, hw, hbegun, -, hcont⟩ := begun_of_keepsNewline hkeep
  rw [hbegun] at h
  obtain ⟨s₀, hs₀, hstep⟩ := exists_step_of_read_concat h
  have hnested : ∀ e, s₀.mode ≠ .nested e := fun e he => step_word_nested hw he st hstep
  obtain ⟨s, w', hw', htokens⟩ := hcont _ _ (breaks_closersText s₀.outer)
    (spells_closersText s₀.outer)
  obtain ⟨c, hc⟩ := run_word_closers hw' hnested
  refine ⟨s, c, parse_of_run htokens ?_⟩
  rw [run_append, hs₀]
  exact hc

/-- Behind a token that absorbs a newline a word may follow. -/
lemma not_nested_of_absorbsNewline {s : State} {t : Token} (h : s.Behind t)
    (ht : t.absorbsNewline = true) : ∀ e, s.mode ≠ .nested e := by
  intro e he
  have h : t = .rparen ∨ t = rbrace := by simpa [State.Behind, he] using h
  rcases h with rfl | rfl <;> cases ht

/-- Behind any other token a `;` may follow, unless a group or a redirection has just begun. -/
lemma step_semi_of_not_absorbsNewline {s : State} {t : Token} (h : s.Behind t)
    (ht : t.absorbsNewline = false) (hgroup : ¬s.OpensGroup)
    (htarget : ∀ d op, s.mode ≠ .target d op) :
    ∃ l, step s .semi = .ok ⟨.boundary .semi, l, s.outer⟩ := by
  obtain ⟨mode, l, outer⟩ := s
  cases mode with
  | boundary b =>
    cases b with
    | opening =>
      rcases h with ⟨rfl, -⟩ | ⟨-, hopener⟩
      · cases ht
      · exact (hgroup ⟨rfl, hopener⟩).elim
    | semi =>
      obtain rfl : t = .semi := h
      cases ht
    | amp =>
      obtain rfl : t = .amp := h
      cases ht
  | operand op => rcases h with rfl | ⟨c, rfl⟩ <;> cases ht
  | simple d => exact ⟨_, rfl⟩
  | target d op => exact (htarget d op rfl).elim
  | nested e => exact ⟨_, rfl⟩

/-- The shell does not ask for more behind a redirection operator. -/
lemma mode_ne_target {line : String} {st : State} (h : Command.needsContinuation line = true)
    (htokens : Token.tokenize line = .ok (begun line))
    (hread : read .initial (begun line) = .ok st) (d : Draft) (op : RedirectOp) :
    st.mode ≠ .target d op := by
  intro hmode
  obtain ⟨e, herror, hincomplete⟩ := needsContinuation_iff.mp h
  rcases behind_of_read hread with ⟨-, rfl⟩ | ⟨front, t, hfront, hbehind⟩
  · cases hmode
  · obtain ⟨op', rfl⟩ : ∃ op', t = .redirect op' := by simpa [State.Behind, hmode] using hbehind
    have hdrop : Token.dropLastSemi (begun line) = begun line := if_neg (by simp [hfront])
    have hparse : Command.parse line = finish st := by
      rw [parse_of_tokenize htokens, hdrop]
      exact run_of_read hread
    have hfinish : finish st = .error (.missingRedirectTarget op) := by
      unfold finish
      rw [hmode]
    rw [hparse, hfinish] at herror
    cases herror
    cases hincomplete

/-- Behind a newline that ends the last token of the line, a word may follow. -/
lemma exists_read_newline {line : String} {st : State}
    (h : Command.needsContinuation line = true)
    (htokens : Token.tokenize line = .ok (begun line))
    (hread : read .initial (begun line) = .ok st) (hgroup : ¬st.OpensGroup) :
    ∃ st', read st (if separates (begun line) then [.semi] else []) = .ok st' ∧
      st'.outer = st.outer ∧ ∀ e, st'.mode ≠ .nested e := by
  rcases behind_of_read hread with ⟨hnil, rfl⟩ | ⟨front, t, hfront, hbehind⟩
  · rw [hnil]
    exact ⟨.initial, rfl, rfl, nofun⟩
  · have hsep : separates (begun line) = !t.absorbsNewline := by simp [separates, hfront]
    rw [hsep]
    cases ht : t.absorbsNewline with
    | true => exact ⟨st, rfl, rfl, not_nested_of_absorbsNewline hbehind ht⟩
    | false =>
      obtain ⟨l, hl⟩ := step_semi_of_not_absorbsNewline hbehind ht hgroup
        (mode_ne_target h htokens hread)
      exact ⟨⟨.boundary .semi, l, st.outer⟩, (read_singleton st .semi).trans hl, rfl, nofun⟩

/-- **A completable line is completed** by one word and the closers of its open lists. -/
lemma exists_continue {line : String} (h : Command.needsContinuation line = true)
    (hline : Completable line) : ∃ s c, Command.parse (line ++ "\n" ++ s) = .ok c := by
  obtain ⟨st, hread, hgroup⟩ := hline
  by_cases hkeep : (after line).phase.keepsNewline = true
  · exact exists_continue_of_keepsNewline hkeep hread
  · have hkeep : (after line).phase.keepsNewline = false := by simpa using hkeep
    have htokens := tokenize_of_not_keepsNewline hkeep
    obtain ⟨st', hst', houter, hnested⟩ := exists_read_newline h htokens hread hgroup
    have hword : IsWord "a" := by decide
    have hspells : Spells (String.ofList ('a' :: closersText st.outer)).toList
        (.word "a" :: closers st.outer) := by
      rw [String.toList_ofList]
      exact .cons (t := .word "a") hword (breaks_closersText _) (spells_closersText _)
    obtain ⟨c, hc⟩ := run_word_closers (w := "a") (by decide) hnested
    refine ⟨_, c, parse_of_run (tokenize_continue_of_spells hkeep hspells) ?_⟩
    rw [run_append, hread]
    refine (run_append st _ _).trans ?_
    rw [hst', ← houter]
    exact hc

/-- **When a request for more can be met.**  If the shell asks for more behind a line, there is a
text that completes it exactly when the line is completable.

**Proof sketch.** A newline leaves the tokens of the line as they are, up to a last word that it
may go on with.  So an accepted text is read through them, and a newline behind the word that
opens a group is a `;` that the group cannot start with.  Everywhere else the parser takes one
more word, and then the closers of the lists that are open. -/
theorem exists_completion_iff {line : String} (h : Command.needsContinuation line = true) :
    (∃ s c, Command.parse (line ++ "\n" ++ s) = .ok c) ↔ Completable line := by
  constructor
  · rintro ⟨s, c, hparse⟩
    obtain ⟨e, herror, -⟩ := needsContinuation_iff.mp h
    exact completable_of_continue (by simp [herror]) hparse
  · exact exists_continue h

/-- Behind an operator the shell asks for more, and can be given it. -/
theorem exists_completion_pipe :
    Command.needsContinuation "a |" = true ∧
      ∃ s c, Command.parse ("a |" ++ "\n" ++ s) = .ok c := by
  refine ⟨rfl, (exists_completion_iff rfl).mpr ⟨_, rfl, fun h => ?_⟩⟩
  cases h.1

/-- Behind the word that opens a group the shell asks for more, and accepts nothing. -/
theorem no_completion_of_open_brace :
    Command.needsContinuation "\x7b" = true ∧
      ¬∃ s c, Command.parse ("\x7b" ++ "\n" ++ s) = .ok c := by
  refine ⟨rfl, fun ⟨s, c, hparse⟩ => ?_⟩
  have herror : Command.parse "\x7b" = .error (.unterminated .brace) := rfl
  obtain ⟨st, hread, hgroup⟩ := completable_of_continue (by simp [herror]) hparse
  have hst : read .initial (begun "\x7b") =
      .ok ⟨.boundary .opening, .new, [(.new, .brace)]⟩ := rfl
  rw [hst] at hread
  obtain rfl := Except.ok.inj hread
  exact hgroup ⟨rfl, rfl⟩

end Conch.Parser
