import Conch.Proofs.Contents
import Conch.Proofs.Lines
import Conch.Text.Blank
import Mathlib.Data.List.Induction

/-!
# Lines put into one

When the lines of a text are put into one, blanks stand where its newlines were.  Outside
quotations, escapes and comments a blank ends what a newline ends, so all that is lost is the
newline itself.  A comment goes on to the end of the line, and takes with it all that stood on the
lines below.  Blanks at the end of a text belong to its last word or to none.

## Main definitions

* `Scanner.flatten` — blanks in place of newlines.
* `Scanner.State.unbroken`, `Scanner.flatTokens` — what has been read without the newlines.
* `Scanner.State.load` — how many characters of a kind stand in words.

## Main results

* `Scanner.exists_visible` — **what a line put into one is read as**.
* `Scanner.load_run_le` — the characters of words stand in the text.
* `Scanner.tokenize_of_blanks` — a text has the same tokens **without the blanks at its end**, or
  characters are missing in its last words.
-/

set_option autoImplicit false

namespace Conch.Scanner

/-! ## Blanks for newlines -/

/-- The characters with blanks in place of newlines. -/
def flatten (cs : List Char) : List Char := cs.map fun c => if c = '\n' then ' ' else c

/-- The lexemes without newlines. -/
def unbroken (ls : List Lexeme) : List Lexeme := ls.filter (· != .newline)

/-- The state without the newlines that it has seen. -/
def State.unbroken (s : State) : State := ⟨s.phase, s.word, Scanner.unbroken s.out⟩

lemma unbroken_append (xs ys : List Lexeme) : unbroken (xs ++ ys) = unbroken xs ++ unbroken ys :=
  List.filter_append ..

lemma unbroken_pending (p : Phase) : unbroken p.pending = p.pending := by
  cases p <;> rfl

lemma unbroken_extend {p q : Phase} {c : Char} {ls : List Lexeme}
    (h : p.extend c = some (q, ls)) : unbroken ls = ls := by
  unfold Phase.extend at h
  split at h <;> cases h <;> rfl

lemma unbroken_delimiter {q : Phase} {c : Char} {ls : List Lexeme} (hc : c ≠ '\n')
    (h : delimiter c = some (q, ls)) : unbroken ls = ls := by
  unfold delimiter at h
  split at h <;> cases h <;> first | rfl | exact (hc rfl).elim

lemma State.flushed_unbroken (s : State) : s.unbroken.flushed = Scanner.unbroken s.flushed := by
  unfold State.flushed State.unbroken
  split
  · rfl
  · simp [Scanner.unbroken]

lemma State.settle_unbroken (s : State) : s.unbroken.settle = s.settle.unbroken := by
  simp [State.settle, State.unbroken, unbroken_append, unbroken_pending]

/-- Newlines that have been read take no part in a step. -/
lemma step_unbroken (s : State) {c : Char} (hc : c ≠ '\n') :
    step s.unbroken c = (step s c).unbroken := by
  by_cases hopen : s.phase.isOpen = true
  · have hread : s.settle.unbroken.read c = (s.settle.read c).unbroken := by
      have hword : s.settle.unbroken.word = s.settle.word := rfl
      have hout : s.settle.unbroken.out = Scanner.unbroken s.settle.out := rfl
      unfold State.read
      rw [State.flushed_unbroken, hword, hout]
      cases hd : delimiter c with
      | some r => simp [State.unbroken, unbroken_append, unbroken_delimiter hc hd]
      | none => dsimp only; split <;> rfl
    have hphase : s.unbroken.phase = s.phase := rfl
    rw [step_of_isOpen hopen, step_of_isOpen (s := s.unbroken) hopen, hphase,
      State.settle_unbroken, hread]
    cases hext : s.phase.extend c with
    | some r => simp [State.unbroken, unbroken_append, unbroken_extend hext]
    | none => rfl
  · obtain ⟨p, word, out⟩ := s
    cases p with
    | escape | quoted _ | quotedEscape => rfl
    | comment => simp [step, hc, State.unbroken]
    | _ => simp [Phase.isOpen] at hopen

/-- Outside quotations, escapes and comments a blank ends what a newline ends. -/
lemma step_unbroken_newline {s : State} (hopen : s.phase.isOpen = true) :
    step s.unbroken ' ' = (step s '\n').unbroken := by
  have hphase : s.unbroken.phase = s.phase := rfl
  have hblank : s.phase.extend ' ' = none := by cases s.phase <;> rfl
  have hnewline : s.phase.extend '\n' = none := by cases s.phase <;> rfl
  rw [step_of_isOpen hopen, step_of_isOpen (s := s.unbroken) hopen, hphase, hblank, hnewline]
  dsimp only
  rw [State.settle_unbroken]
  show State.mk .bare [] s.settle.unbroken.flushed =
    State.unbroken ⟨.bare, [], .newline :: s.settle.flushed⟩
  rw [State.flushed_unbroken]
  rfl

lemma State.lexemes_unbroken (s : State) : s.unbroken.lexemes = Scanner.unbroken s.lexemes := by
  unfold State.lexemes
  rw [State.settle_unbroken, State.flushed_unbroken]
  simp [Scanner.unbroken]

lemma State.finish_unbroken (s : State) :
    s.unbroken.finish = Scanner.unbroken <$> s.finish := by
  have hphase : s.unbroken.phase = s.phase := rfl
  unfold State.finish
  rw [State.lexemes_unbroken, hphase]
  split <;> rfl

lemma isOpen_of_not_keepsNewline {p : Phase} (h : p.keepsNewline = false) (hp : p ≠ .comment) :
    p.isOpen = true := by
  cases p <;> simp [Phase.keepsNewline, Phase.isOpen] at h hp ⊢

/-- Where a text with one more character has a newline, the text has it, or that character is
one. -/
lemma eq_append_newline {cs front rest : List Char} {c : Char}
    (h : cs ++ [c] = front ++ '\n' :: rest) :
    (cs = front ∧ c = '\n') ∨ ∃ rest', cs = front ++ '\n' :: rest' := by
  rcases List.eq_nil_or_concat rest with rfl | ⟨rest, d, rfl⟩
  · obtain ⟨hcs, hc⟩ := List.append_inj' h rfl
    exact .inl ⟨hcs, List.singleton_inj.mp hc⟩
  · rw [List.concat_eq_append, ← List.cons_append, ← List.append_assoc] at h
    exact .inr ⟨rest, (List.append_inj' h rfl).1⟩

/-- A text in which every newline ends what a blank ends. -/
lemma run_flatten {cs : List Char} (h : ∀ front rest, cs = front ++ '\n' :: rest →
    (run .initial front).phase.isOpen = true) :
    run .initial (flatten cs) = (run .initial cs).unbroken := by
  induction cs using List.reverseRecOn with
  | nil => rfl
  | append_singleton cs c ih =>
    have hcs := ih fun front rest hfront => h front (rest ++ [c]) (by simp [hfront])
    have hflat : flatten (cs ++ [c]) = flatten cs ++ [if c = '\n' then ' ' else c] := by
      simp [flatten]
    rw [hflat, run_append, hcs, run_append]
    by_cases hc : c = '\n'
    · subst hc
      exact step_unbroken_newline (h cs [] rfl)
    · rw [if_neg hc]
      exact step_unbroken _ hc

/-- No newline ends a comment. -/
def NoCommentEnds (cs : List Char) : Prop :=
  ∀ front rest, cs = front ++ '\n' :: rest → (run .initial front).phase ≠ .comment

/-- A text with a newline that ends a comment has a first one. -/
lemma noCommentEnds_or (cs : List Char) : NoCommentEnds cs ∨
    ∃ a rest, cs = a ++ '\n' :: rest ∧ (run .initial a).phase = .comment ∧ NoCommentEnds a := by
  induction cs using List.reverseRecOn with
  | nil => exact .inl (by simp [NoCommentEnds])
  | append_singleton cs c ih =>
    rcases ih with hclear | ⟨a, rest, rfl, hphase, hclear⟩
    · by_cases hc : c = '\n' ∧ (run .initial cs).phase = .comment
      · obtain ⟨rfl, hphase⟩ := hc
        exact .inr ⟨cs, [], rfl, hphase, hclear⟩
      · refine .inl fun front rest hfront hphase => ?_
        rcases eq_append_newline hfront with ⟨rfl, rfl⟩ | ⟨rest', hrest'⟩
        · exact hc ⟨rfl, hphase⟩
        · exact hclear front rest' hrest' hphase
    · exact .inr ⟨a, rest ++ [c], by simp, hphase, hclear⟩

/-- Without a newline a comment goes on. -/
lemma run_comment {s : State} (hs : s.phase = .comment) {cs : List Char} (h : '\n' ∉ cs) :
    run s cs = s := by
  induction cs with
  | nil => rfl
  | cons c cs ih =>
    have hc : c ≠ '\n' := fun hc => h (by simp [hc])
    have hstep : step s c = s := by simp [step, hs, hc]
    rw [run_cons, hstep, ih fun hmem => h (.tail _ hmem)]

lemma newline_not_mem_flatten (cs : List Char) : '\n' ∉ flatten cs := by
  intro h
  obtain ⟨c, -, hc⟩ := List.mem_map.mp h
  split at hc
  · exact absurd hc (by decide)
  · contradiction

lemma toList_newline (front rest : String) :
    (front ++ "\n" ++ rest).toList = front.toList ++ '\n' :: rest.toList := by
  simp

/-- A line is what its characters say. -/
lemma eq_newline {line : String} {front rest : List Char}
    (h : line.toList = front ++ '\n' :: rest) :
    line = String.ofList front ++ "\n" ++ String.ofList rest :=
  String.toList_inj.mp (by rw [h, toList_newline, String.toList_ofList, String.toList_ofList])

lemma append_newline_assoc (a b rest : String) :
    a ++ "\n" ++ b ++ "\n" ++ rest = a ++ "\n" ++ (b ++ "\n" ++ rest) := by
  simp only [String.append_assoc]

/-- No newline of the line belongs to a word. -/
def NewlinesOutside (line : String) : Prop :=
  ∀ front rest, line = front ++ "\n" ++ rest → (after front).phase.keepsNewline = false

lemma NewlinesOutside.left {a b : String} (h : NewlinesOutside (a ++ "\n" ++ b)) :
    NewlinesOutside a :=
  fun front rest hsplit => h front _ (by rw [hsplit, append_newline_assoc])

/-- **What a line put into one is read as.**  If no newline belongs to a word, it is the text in
front of the newline that ends the first comment, or all of the text, without its newlines. -/
lemma exists_visible {line : String} (h : NewlinesOutside line) :
    ∃ a : String, run .initial (flatten line.toList) = (after a).unbroken ∧
      (∀ front rest, a = front ++ "\n" ++ rest → (after front).phase ≠ .comment) ∧
      (line = a ∨ (∃ rest, line = a ++ "\n" ++ rest) ∧ (after a).phase = .comment) := by
  have hkeep : ∀ front rest, line.toList = front ++ '\n' :: rest →
      (run .initial front).phase.keepsNewline = false := by
    intro front rest hfront
    simpa [after] using h _ _ (eq_newline hfront)
  have hclear : ∀ a : String, NoCommentEnds a.toList → ∀ front rest, a = front ++ "\n" ++ rest →
      (after front).phase ≠ .comment :=
    fun a ha front rest hfront => ha front.toList rest.toList (by rw [hfront, toList_newline])
  rcases noCommentEnds_or line.toList with hline | ⟨a, rest, hsplit, hphase, ha⟩
  · have hflat := run_flatten fun front rest hfront =>
      isOpen_of_not_keepsNewline (hkeep front rest hfront) (hline front rest hfront)
    exact ⟨line, hflat, hclear line hline, .inl rfl⟩
  · have hflat : run .initial (flatten a) = (run .initial a).unbroken :=
      run_flatten fun front rest' hfront =>
        isOpen_of_not_keepsNewline
          (hkeep front (rest' ++ '\n' :: rest) (by simp [hsplit, hfront]))
          (ha front rest' hfront)
    refine ⟨String.ofList a, ?_, hclear _ (by rwa [String.toList_ofList]),
      .inr ⟨⟨_, eq_newline hsplit⟩, by simpa [after] using hphase⟩⟩
    have happend : flatten line.toList = flatten a ++ flatten ('\n' :: rest) := by
      rw [hsplit]
      exact List.map_append
    rw [happend, run_append, hflat, after, String.toList_ofList]
    exact run_comment (s := (run .initial a).unbroken) hphase (newline_not_mem_flatten _)

/-! ## Characters of words -/

/-- The characters of a lexeme that is a word. -/
def lexemeChars : Lexeme → List Char
  | .token t => t.chars
  | .newline => []

section Load

variable (p : Char → Bool)

/-- How many of some characters stand in the words among some lexemes. -/
def loadAll (ls : List Lexeme) : Nat := (ls.flatMap lexemeChars).countP p

/-- How many of them stand in the words that have been read, and in the one that has begun. -/
def State.load (s : State) : Nat := s.word.countP p + loadAll p s.out

variable {p}

lemma loadAll_append (xs ys : List Lexeme) :
    loadAll p (xs ++ ys) = loadAll p xs + loadAll p ys := by
  simp [loadAll]

lemma loadAll_unbroken (ls : List Lexeme) : loadAll p (unbroken ls) = loadAll p ls := by
  induction ls with
  | nil => rfl
  | cons l ls ih => cases l <;> simpa [unbroken, loadAll, lexemeChars] using ih

lemma loadAll_of_no_word {ls : List Lexeme} (h : ∀ w, .token (.word w) ∉ ls) :
    loadAll p ls = 0 := by
  have hnil : ls.flatMap lexemeChars = [] := by
    refine List.flatMap_eq_nil_iff.mpr fun l hl => ?_
    cases l with
    | newline => rfl
    | token t =>
      cases t with
      | word w => exact (h w hl).elim
      | _ => rfl
  rw [loadAll, hnil, List.countP_nil]

lemma State.load_flushed (s : State) : loadAll p s.flushed = s.load p := by
  unfold State.flushed State.load
  split
  · rename_i h
    simp [h]
  · simp [loadAll, lexemeChars, Token.chars]

lemma State.load_settle (s : State) : s.settle.load p = s.load p := by
  simp [State.settle, State.load, loadAll_append, loadAll_of_no_word (not_mem_pending s.phase)]

lemma State.load_lexemes (s : State) : loadAll p s.lexemes = s.load p := by
  have hreverse : loadAll p s.lexemes = loadAll p s.settle.flushed :=
    ((List.reverse_perm _).flatMap_right lexemeChars).countP_eq p
  rw [hreverse, State.load_flushed, State.load_settle]

/-- Separators are no words. -/
lemma load_ofLexemes (last : Option Token) (pending : Bool) (ls : List Lexeme) :
    Token.load p (Token.ofLexemes last pending ls) = loadAll p ls := by
  induction ls generalizing last pending with
  | nil => rfl
  | cons l ls ih =>
    cases l with
    | newline => simpa [Token.ofLexemes, loadAll, lexemeChars] using ih last _
    | token t =>
      have hloads : loadAll p (.token t :: ls) = t.chars.countP p + loadAll p ls := by
        simp [loadAll, lexemeChars]
      have hsemi : Token.chars .semi = [] := rfl
      cases pending <;> simp [Token.ofLexemes, Token.load_cons, ih, hloads, hsemi]

/-- A character is read into a word, or is in none. -/
lemma State.load_step (s : State) (c : Char) :
    (step s c).load p ≤ s.load p + if p c then 1 else 0 := by
  by_cases hopen : s.phase.isOpen = true
  · rw [step_of_isOpen hopen]
    cases hext : s.phase.extend c with
    | some r =>
      obtain ⟨-, hls⟩ := extend_eq_some hext
      simp only [State.load, List.countP_nil, loadAll_append, loadAll_of_no_word hls]
      omega
    | none =>
      dsimp only
      unfold State.read
      cases hd : delimiter c with
      | some r =>
        obtain ⟨-, hls⟩ := delimiter_eq_some hd
        have hflushed := State.load_flushed (p := p) s.settle
        rw [State.load_settle] at hflushed
        simp only [State.load, List.countP_nil, loadAll_append, loadAll_of_no_word hls] at *
        omega
      | none =>
        have hsettle := State.load_settle (p := p) s
        dsimp only
        split
        · simp only [State.load, List.countP_nil] at *
          omega
        · simp only [State.load, List.countP_cons] at *
          omega
  · obtain ⟨q, word, out⟩ := s
    cases q with
    | escape | quoted _ | quotedEscape =>
      simp only [step, State.load, List.countP_cons]
      omega
    | comment =>
      simp only [step]
      split
      · simp [State.load, loadAll, lexemeChars]
        omega
      · omega
    | _ => simp [Phase.isOpen] at hopen

/-- All characters of words stand in the text. -/
lemma load_run_le (s : State) (cs : List Char) :
    (run s cs).load p ≤ s.load p + cs.countP p := by
  induction cs generalizing s with
  | nil => simp
  | cons c cs ih =>
    have hstep := State.load_step (p := p) s c
    have hrun := ih (step s c)
    rw [run_cons, List.countP_cons]
    omega

/-! ## Blanks at the end -/

/-- A blank that ends words is a newline or nothing. -/
lemma delimiter_of_isBlank {c : Char} (hc : Text.isBlank c = true) :
    delimiter c = none ∨ ∃ k, delimiter c = some (.bare, List.replicate k .newline) := by
  unfold delimiter
  split
  case h_1 | h_2 | h_3 => exact .inr ⟨0, rfl⟩
  case h_4 => exact .inr ⟨1, rfl⟩
  case h_12 => exact .inl rfl
  all_goals exact absurd hc (by decide)

lemma extend_of_isBlank {c : Char} (hc : Text.isBlank c = true) (q : Phase) :
    q.extend c = none := by
  unfold Phase.extend
  split <;> first | rfl | exact absurd hc (by decide)

lemma State.load_eq_of_lexemes {s s' : State} {k : ℕ}
    (h : s'.lexemes = s.lexemes ++ List.replicate k .newline) : s'.load p = s.load p := by
  have hzero : loadAll p (List.replicate k .newline) = 0 := loadAll_of_no_word (by simp)
  rw [← State.load_lexemes, h, loadAll_append, State.load_lexemes, hzero, Nat.add_zero]

/-- A blank goes on with a word, or changes no token. -/
lemma State.Sound.step_blank {s : State} (hs : s.Sound) {c : Char} (hc : Text.isBlank c = true)
    (hp : p c = true) : s.load p < (Scanner.step s c).load p ∨
      s.phase.keepsNewline = false ∧
        ∃ k, (Scanner.step s c).lexemes = s.lexemes ++ List.replicate k .newline := by
  by_cases hopen : s.phase.isOpen = true
  · rw [step_of_isOpen hopen, extend_of_isBlank hc]
    dsimp only
    rcases delimiter_of_isBlank hc with hd | ⟨k, hd⟩
    · left
      have hhash : ¬(c = '#' ∧ s.settle.word = []) := by
        rintro ⟨rfl, -⟩
        exact absurd hc (by decide)
      have hsettle := State.load_settle (p := p) s
      rw [State.read_of_delimiter_none hd hhash]
      simp only [State.load, List.countP_cons, hp, if_true] at *
      omega
    · refine .inr ⟨by cases h : s.phase <;> simp_all [Phase.isOpen, Phase.keepsNewline], k, ?_⟩
      unfold State.read
      rw [hd]
      simp [State.lexemes, State.settle, State.flushed, Phase.pending]
  · obtain ⟨q, word, out⟩ := s
    cases q with
    | escape | quoted _ | quotedEscape =>
      left
      simp only [Scanner.step, State.load, List.countP_cons, hp, if_true]
      omega
    | comment =>
      right
      obtain rfl : word = [] := hs.word_eq_nil rfl
      by_cases hnewline : c = '\n'
      · exact ⟨rfl, 1, by simp [Scanner.step, hnewline, State.lexemes, State.settle,
          State.flushed, Phase.pending]⟩
      · exact ⟨rfl, 0, by simp [Scanner.step, hnewline]⟩
    | _ => simp [Phase.isOpen] at hopen

/-- **Blanks at the end of a text** go on with its last word, or change no token. -/
lemma State.Sound.run_blanks {s : State} (hs : s.Sound) {cs : List Char}
    (hcs : ∀ c ∈ cs, Text.isBlank c = true) (hp : ∀ c, Text.isBlank c = true → p c = true) :
    s.load p < (Scanner.run s cs).load p ∨
      (cs ≠ [] → s.phase.keepsNewline = false) ∧
        ∃ k, (Scanner.run s cs).lexemes = s.lexemes ++ List.replicate k .newline := by
  induction cs generalizing s with
  | nil => exact .inr ⟨by simp, 0, by simp⟩
  | cons c cs ih =>
    have hc := hcs c (.head _)
    have hstep := hs.step_blank hc (hp c hc)
    have hrun := ih (hs.step c) fun d hd => hcs d (.tail _ hd)
    rw [run_cons]
    rcases hstep with hlt | ⟨hkeep, k, hk⟩
    · rcases hrun with hlt' | ⟨-, l, hl⟩
      · exact .inl (Nat.lt_trans hlt hlt')
      · exact .inl (State.load_eq_of_lexemes hl ▸ hlt)
    · rcases hrun with hlt | ⟨-, l, hl⟩
      · exact .inl (State.load_eq_of_lexemes hk ▸ hlt)
      · refine .inr ⟨fun _ => hkeep, k + l, ?_⟩
        rw [hl, hk, List.append_assoc, List.replicate_append_replicate]

end Load

/-! ## Tokens -/

/-- The tokens of a line without its newlines. -/
def flatTokens (line : String) : List Token :=
  Token.ofLexemes none false (unbroken (after line).lexemes)

/-- Lexemes that are no newlines are tokens, and the first token is the same with and without
newlines. -/
lemma exists_unbroken (ls : List Lexeme) : ∃ ts : List Token, unbroken ls = ts.map .token ∧
    (Token.ofLexemes none false ls).head? = ts.head? := by
  induction ls with
  | nil => exact ⟨[], rfl, rfl⟩
  | cons l ls ih =>
    obtain ⟨ts, hts, hhead⟩ := ih
    cases l with
    | newline => exact ⟨ts, by simpa [unbroken] using hts, by simpa [Token.ofLexemes] using hhead⟩
    | token t => exact ⟨t :: ts, by simpa [unbroken] using hts, by simp [Token.ofLexemes]⟩

lemma head?_flatTokens (line : String) : (flatTokens line).head? = (begun line).head? := by
  obtain ⟨ts, hts, hhead⟩ := exists_unbroken (after line).lexemes
  rw [flatTokens, hts, ofLexemes_map_token, begun, hhead]

/-- What stands on a line below others leaves the scanner where it would by itself. -/
lemma phase_newline {a : String} (ha : (after a).phase.keepsNewline = false) (b : String) :
    (after (a ++ "\n" ++ b)).phase = (after b).phase := by
  obtain ⟨hstep, -⟩ := step_newline (sound_after a) ha
  have hbehind : step (after a) '\n' =
      State.initial.behind (.newline :: (after a).lexemes.reverse) := hstep
  rw [after_append_newline, hbehind, run_behind]
  rfl

/-- The text behind a newline ends outside words if all of it does. -/
lemma NewlinesOutside.right {a b c : String} (h : NewlinesOutside (a ++ "\n" ++ (b ++ "\n" ++ c))) :
    (after b).phase.keepsNewline = false := by
  rw [← phase_newline (h a _ rfl) b]
  exact h _ c (append_newline_assoc a b c).symm

/-- The lexemes of two lines, when the newline between them belongs to no word. -/
lemma lexemes_newline {a : String} (ha : (after a).phase.keepsNewline = false) (b : String) :
    (after (a ++ "\n" ++ b)).lexemes = (after a).lexemes ++ .newline :: (after b).lexemes := by
  obtain ⟨hstep, -⟩ := step_newline (sound_after a) ha
  have hbehind : step (after a) '\n' =
      State.initial.behind (.newline :: (after a).lexemes.reverse) := hstep
  rw [after_append_newline, hbehind, run_behind]
  unfold State.lexemes
  rw [State.settle_behind, State.flushed_behind]
  simp [after]

lemma flatTokens_newline {a : String} (ha : (after a).phase.keepsNewline = false) (b : String) :
    flatTokens (a ++ "\n" ++ b) = flatTokens a ++ flatTokens b := by
  obtain ⟨ts, hts, -⟩ := exists_unbroken (after a).lexemes
  obtain ⟨us, hus, -⟩ := exists_unbroken (after b).lexemes
  have hline : unbroken (after (a ++ "\n" ++ b)).lexemes = (ts ++ us).map .token := by
    rw [lexemes_newline ha, unbroken_append, List.map_append, ← hts, ← hus]
    rfl
  simp only [flatTokens, hline, hts, hus, ofLexemes_map_token]

lemma begun_newline {a : String} (ha : (after a).phase.keepsNewline = false) (b : String) :
    begun (a ++ "\n" ++ b) =
      begun a ++ if begun b = [] then [] else separator (begun a) ++ begun b := by
  rw [begun, lexemes_newline ha, ofLexemes_append_newline]
  exact congrArg (begun a ++ ·) (ofLexemes_behind_newline (begun a).getLast? (after b).lexemes)

/-- A line of its own has no newline to lose. -/
lemma flatTokens_of_newline_not_mem {line : String} (h : '\n' ∉ line.toList) :
    flatTokens line = begun line := by
  have hflat : flatten line.toList = line.toList :=
    (List.map_congr_left fun c hc => if_neg fun heq : c = '\n' => h (heq ▸ hc)).trans
      (List.map_id line.toList)
  have hrun : run .initial (flatten line.toList) = (after line).unbroken :=
    run_flatten fun front rest hfront => (h (by simp [hfront])).elim
  rw [hflat] at hrun
  have hlexemes : (after line).lexemes = unbroken (after line).lexemes := by
    rw [← State.lexemes_unbroken, ← hrun]
    rfl
  rw [flatTokens, ← hlexemes, begun]

section Load

variable {p : Char → Bool}

lemma load_begun (line : String) : Token.load p (begun line) = (after line).load p := by
  rw [begun, load_ofLexemes, State.load_lexemes]

end Load

/-- The lexemes of a text are those of its last state. -/
lemma lexemes_of_finish {s : State} {ls : List Lexeme} (h : s.finish = .ok ls) :
    ls = s.lexemes := by
  unfold State.finish at h
  split at h <;> cases h
  rfl

lemma begun_of_tokenize {line : String} {ts : List Token} (h : Token.tokenize line = .ok ts) :
    begun line = ts := by
  rw [tokenize_eq] at h
  obtain ⟨ls, hls, rfl⟩ := exists_of_map_eq_ok h
  rw [begun, lexemes_of_finish hls]

/-- Newlines behind the last token separate it from nothing. -/
lemma ofLexemes_append_newlines (ls : List Lexeme) (k : ℕ) :
    Token.ofLexemes none false (ls ++ List.replicate k .newline) =
      Token.ofLexemes none false ls := by
  have hnewlines : ∀ last pending,
      Token.ofLexemes last pending (List.replicate k .newline) = [] := by
    induction k with
    | zero => exact fun _ _ => rfl
    | succ k ih => exact fun last pending => ih last _
  obtain ⟨p, -, happend⟩ := ofLexemes_append none false ls nofun
  rw [happend, hnewlines, List.append_nil]

/-- A line that is read as another one without its newlines. -/
lemma tokenize_of_unbroken {line a : String} (h : after line = (after a).unbroken) :
    Token.tokenize line = (fun _ => flatTokens a) <$> (after a).finish := by
  rw [tokenize_eq, h, State.finish_unbroken, ← comp_map]
  cases hfinish : (after a).finish with
  | error q => rfl
  | ok ls =>
    obtain rfl := lexemes_of_finish hfinish
    rfl

/-- **Without the blanks at its end** a text has the same tokens, or characters are missing in its
last words. -/
lemma tokenize_of_blanks {p : Char → Bool} (hp : ∀ c, Text.isBlank c = true → p c = true)
    {line front : String} {cs : List Char} (hline : line.toList = front.toList ++ cs)
    (hcs : ∀ c ∈ cs, Text.isBlank c = true) {ts : List Token}
    (h : Token.tokenize line = .ok ts) :
    (after front).load p < (after line).load p ∨ Token.tokenize front = .ok ts := by
  have hafter : after line = run (after front) cs := by rw [after, hline, run_append]; rfl
  rcases (sound_after front).run_blanks hcs hp with hlt | ⟨hkeep, k, hk⟩
  · exact .inl (hafter ▸ hlt)
  · right
    cases cs with
    | nil =>
      have hsame : front = line := String.toList_inj.mp (by simpa using hline.symm)
      rw [hsame, h]
    | cons c cs =>
      have hbegun : begun line = begun front := by
        rw [begun, hafter, hk, ofLexemes_append_newlines, begun]
      rw [tokenize_of_not_keepsNewline (hkeep (List.cons_ne_nil c cs)), ← hbegun,
        begun_of_tokenize h]

/-- A newline that belongs to a word is one of its characters. -/
lemma exists_word_of_keepsNewline {front rest : String}
    (hkeep : (after front).phase.keepsNewline = true) {ts : List Token}
    (h : Token.tokenize (front ++ "\n" ++ rest) = .ok ts) :
    ∃ w, .word w ∈ ts ∧ '\n' ∈ w.toList := by
  obtain ⟨p, hstep, hp⟩ := step_newline_of_keepsNewline hkeep
  rw [tokenize_eq, after_append_newline, hstep] at h
  obtain ⟨ls, hls, rfl⟩ := exists_of_map_eq_ok h
  have hp' : p = .bare ∨ p.keepsNewline = true := by
    rcases hp with rfl | ⟨q, rfl⟩
    · exact .inl rfl
    · exact .inr rfl
  obtain ⟨w, more, rfl, hmem⟩ := finish_run_begun _ hp' (List.cons_ne_nil _ _) hls
  obtain ⟨front', hfront'⟩ := ofLexemes_append_token (after front).out.reverse
  exact ⟨w, by simp [hfront'], hmem _ (.head _)⟩

end Conch.Scanner
