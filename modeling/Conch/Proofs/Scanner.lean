import Conch.Token.Scan
import Mathlib.Tactic.Common

/-!
# The scanner, one character at a time

`Lexeme.scan` looks ahead to find the longest operator and reaches into the rest of the input.
Here the same lexemes come from a machine that reads one character after the other and keeps
what it has not decided yet in its phase.  What the machine knows at the end of a text is a
state, so what a text does to the text behind it is a matter of that state alone.

## Main definitions

* `Conch.Scanner.Phase`, `Conch.Scanner.State` — what has been read.
* `Conch.Scanner.step`, `Conch.Scanner.run` — one character, and the characters of a text.
* `Conch.Scanner.IsWord`, `Conch.Scanner.Dangles` — words that end where they are, and words
  that end in a backslash with nothing behind it.
* `Conch.Scanner.Spells` — a text in which the given tokens stand apart.

## Main results

* `Conch.Scanner.scan_eq_finish_run` — the machine finds the lexemes of `Lexeme.scan`.
* `Conch.Scanner.sound_after` — every word that the machine has ended is a word by itself.
* `Conch.Scanner.Spells.finish_run` — a text that spells tokens is scanned into them.
* `Conch.Scanner.step_newline` — what a newline makes of the state before it.
-/

set_option autoImplicit false

namespace Conch.Scanner

/-! ## The machine -/

/-- What the characters read so far leave open. -/
inductive Phase where
  /-- Between words, or in the unquoted part of one. -/
  | bare
  /-- Behind an unquoted backslash. -/
  | escape
  /-- Inside a quotation. -/
  | quoted (q : Quote)
  /-- Behind a backslash inside double quotes. -/
  | quotedEscape
  /-- Behind a `#`, up to the end of the line. -/
  | comment
  /-- Behind `|`. -/
  | bar
  /-- Behind `&`. -/
  | amp
  /-- Behind `>`. -/
  | gt
  /-- Behind a `2` that starts a word. -/
  | two
  /-- Behind `2>`. -/
  | twoGt
  /-- Behind `2>&`. -/
  | twoGtAmp
  deriving DecidableEq, Repr

/-- The state of the machine.  What comes last stands first. -/
structure State where
  phase : Phase
  /-- The characters of the current word. -/
  word : List Char
  /-- The lexemes in front of it. -/
  out : List Lexeme
  deriving DecidableEq, Repr

/-- Before the first character. -/
def State.initial : State := ⟨.bare, [], []⟩

/-- The operators that the phase stands for when nothing continues them, last first. -/
def Phase.pending : Phase → List Lexeme
  | bar => [.token .pipe]
  | amp => [.token .amp]
  | gt => [.token (.redirect .output)]
  | twoGt => [.token (.redirect .error)]
  | twoGtAmp => [.token .amp, .token (.redirect .error)]
  | _ => []

/-- The character that continues an operator, with the phase and the lexemes it leads to. -/
def Phase.extend : Phase → Char → Option (Phase × List Lexeme)
  | bar, '|' => some (bare, [.token (.connector .or)])
  | amp, '&' => some (bare, [.token (.connector .and)])
  | amp, '>' => some (bare, [.token (.redirect .both)])
  | gt, '>' => some (bare, [.token (.redirect .append)])
  | gt, '&' => some (bare, [.token (.redirect .bothAlt)])
  | two, '>' => some (twoGt, [])
  | twoGt, '>' => some (bare, [.token (.redirect .errorAppend)])
  | twoGt, '&' => some (twoGtAmp, [])
  | twoGtAmp, '1' => some (bare, [.token (.redirect .errorToOutput)])
  | twoGtAmp, '&' => some (bare, [.token (.connector .and), .token (.redirect .error)])
  | twoGtAmp, '>' => some (bare, [.token (.redirect .both), .token (.redirect .error)])
  | _, _ => none

/-- The unquoted characters that end a word, with the phase and the lexemes they lead to. -/
def delimiter : Char → Option (Phase × List Lexeme)
  | ' ' | '\t' | '\r' => some (.bare, [])
  | '\n' => some (.bare, [.newline])
  | ';' => some (.bare, [.token .semi])
  | '(' => some (.bare, [.token .lparen])
  | ')' => some (.bare, [.token .rparen])
  | '<' => some (.bare, [.token (.redirect .input)])
  | '|' => some (.bar, [])
  | '&' => some (.amp, [])
  | '>' => some (.gt, [])
  | _ => none

/-- The phase behind an unquoted character that goes on with the word `word`. -/
def inWord (word : List Char) : Char → Phase
  | '\'' => .quoted .single
  | '"' => .quoted .double
  | '\\' => .escape
  | '2' => if word = [] then .two else .bare
  | _ => .bare

/-- The lexemes read so far when the current word ends here, last first. -/
def State.flushed (s : State) : List Lexeme :=
  if s.word = [] then s.out else .token (.word (String.ofList s.word.reverse)) :: s.out

/-- The state after deciding that nothing continues the operator of the phase. -/
def State.settle (s : State) : State := ⟨.bare, s.word, s.phase.pending ++ s.out⟩

/-- An unquoted character that continues no operator. -/
def State.read (s : State) (c : Char) : State :=
  match delimiter c with
  | some (p, ls) => ⟨p, [], ls ++ s.flushed⟩
  | none =>
    if c = '#' ∧ s.word = [] then ⟨.comment, [], s.out⟩
    else ⟨inWord s.word c, c :: s.word, s.out⟩

lemma State.read_of_delimiter_none {s : State} {c : Char} (hd : delimiter c = none)
    (hhash : ¬(c = '#' ∧ s.word = [])) : s.read c = ⟨inWord s.word c, c :: s.word, s.out⟩ := by
  unfold State.read
  rw [hd]
  exact if_neg hhash

/-- Read one character. -/
def step (s : State) (c : Char) : State :=
  match s.phase with
  | .escape => ⟨.bare, c :: s.word, s.out⟩
  | .quoted q =>
    ⟨if c = q.mark then .bare else if q = .double ∧ c = '\\' then .quotedEscape else .quoted q,
      c :: s.word, s.out⟩
  | .quotedEscape => ⟨.quoted .double, c :: s.word, s.out⟩
  | .comment => if c = '\n' then ⟨.bare, [], .newline :: s.out⟩ else s
  | p => match p.extend c with
    | some (p, ls) => ⟨p, [], ls ++ s.out⟩
    | none => s.settle.read c

/-- Read the characters of a text. -/
def run (s : State) (cs : List Char) : State := cs.foldl step s

/-- The lexemes of a text that ends here. -/
def State.lexemes (s : State) : List Lexeme := s.settle.flushed.reverse

/-- The lexemes of a text that ends here, or the quotation that it leaves open. -/
def State.finish (s : State) : Except Quote (List Lexeme) :=
  match s.phase with
  | .quoted q => .error q
  | .quotedEscape => .error .double
  | _ => .ok s.lexemes

/-- The state at the end of a text. -/
def after (text : String) : State := run .initial text.toList

@[simp] lemma run_nil (s : State) : run s [] = s := rfl

@[simp] lemma run_cons (s : State) (c : Char) (cs : List Char) :
    run s (c :: cs) = run (step s c) cs := rfl

@[simp] lemma run_append (s : State) (xs ys : List Char) :
    run s (xs ++ ys) = run (run s xs) ys :=
  List.foldl_append

@[simp] lemma after_append (a b : String) : after (a ++ b) = run (after a) b.toList := by
  simp [after]

/-! ## Lexemes in front

The lexemes that are already there take no part in a step. -/

/-- The state with the lexemes `ls` in front of its own. -/
def State.behind (s : State) (ls : List Lexeme) : State := ⟨s.phase, s.word, s.out ++ ls⟩

@[simp] lemma State.flushed_behind (s : State) (ls : List Lexeme) :
    (s.behind ls).flushed = s.flushed ++ ls := by
  unfold flushed behind
  split <;> simp

@[simp] lemma State.settle_behind (s : State) (ls : List Lexeme) :
    (s.behind ls).settle = s.settle.behind ls := by
  simp [settle, behind]

lemma State.read_behind (s : State) (ls : List Lexeme) (c : Char) :
    (s.behind ls).read c = (s.read c).behind ls := by
  have hword : (s.behind ls).word = s.word := rfl
  have hout : (s.behind ls).out = s.out ++ ls := rfl
  unfold read
  rw [flushed_behind, hword, hout]
  split
  · simp [behind]
  · split <;> simp [behind]

/-- A step adds to the lexemes in front and does not read them. -/
lemma step_behind (s : State) (ls : List Lexeme) (c : Char) :
    step (s.behind ls) c = (step s c).behind ls := by
  have hphase : (s.behind ls).phase = s.phase := rfl
  have hword : (s.behind ls).word = s.word := rfl
  have hout : (s.behind ls).out = s.out ++ ls := rfl
  unfold step
  rw [hphase, hword, hout, State.settle_behind, State.read_behind]
  split
  · rfl
  · rfl
  · rfl
  · split
    · simp [State.behind]
    · rfl
  · split
    · simp [State.behind]
    · rfl

/-- A run adds to the lexemes in front and does not read them. -/
lemma run_behind (s : State) (ls : List Lexeme) (cs : List Char) :
    run (s.behind ls) cs = (run s cs).behind ls := by
  induction cs generalizing s with
  | nil => rfl
  | cons c cs ih => rw [run_cons, run_cons, step_behind, ih]

lemma State.finish_behind (s : State) (ls : List Lexeme) :
    (s.behind ls).finish = (ls.reverse ++ ·) <$> s.finish := by
  unfold finish lexemes
  rw [settle_behind, flushed_behind, List.reverse_append]
  have hphase : (s.behind ls).phase = s.phase := rfl
  rw [hphase]
  split <;> rfl

/-- The lexemes in front of a run come first in what it finds. -/
lemma finish_run_out (p : Phase) (word : List Char) (out : List Lexeme) (cs : List Char) :
    (run ⟨p, word, out⟩ cs).finish = (out.reverse ++ ·) <$> (run ⟨p, word, []⟩ cs).finish := by
  have h : (⟨p, word, out⟩ : State) = (State.mk p word []).behind out := by
    simp [State.behind]
  rw [h, run_behind, State.finish_behind]

/-! ## Undecided operators -/

/-- The phase stands for an operator, or for a `2` that may start one. -/
def Phase.isOpen : Phase → Bool
  | bare | bar | amp | gt | two | twoGt | twoGtAmp => true
  | escape | quoted _ | quotedEscape | comment => false

lemma step_of_isOpen {s : State} (h : s.phase.isOpen = true) (c : Char) :
    step s c = match s.phase.extend c with
      | some (p, ls) => ⟨p, [], ls ++ s.out⟩
      | none => s.settle.read c := by
  unfold step
  split <;> first | rfl | simp_all [Phase.isOpen]

lemma State.finish_of_isOpen {s : State} (h : s.phase.isOpen = true) :
    s.finish = .ok s.lexemes := by
  unfold finish
  split <;> first | rfl | simp_all [Phase.isOpen]

lemma step_bare (word : List Char) (out : List Lexeme) (c : Char) :
    step ⟨.bare, word, out⟩ c = State.read ⟨.bare, word, out⟩ c := by
  rw [step_of_isOpen rfl]
  simp [Phase.extend, State.settle, Phase.pending]

/-- An operator that the text does not continue may be decided before the text is read. -/
lemma finish_run_settle {s : State} (h : s.phase.isOpen = true) {cs : List Char}
    (hcs : ∀ c ∈ cs.head?, s.phase.extend c = none) :
    (run s cs).finish = (run s.settle cs).finish := by
  cases cs with
  | nil =>
    rw [run_nil, run_nil, State.finish_of_isOpen h, State.finish_of_isOpen rfl]
    simp [State.lexemes, State.settle, Phase.pending]
  | cons c cs =>
    have hc : s.phase.extend c = none := hcs c rfl
    rw [run_cons, run_cons, step_of_isOpen h, hc]
    have hs : s.settle = ⟨.bare, s.word, s.phase.pending ++ s.out⟩ := rfl
    rw [hs, step_bare]

/-! ## Agreement with `Lexeme.scan` -/

/-- The phase that a mode of `Lexeme.scan` stands for. -/
def ofMode : Lexeme.Mode → Phase
  | .bare => .bare
  | .quoted q => .quoted q
  | .comment => .comment

lemma reverse_flushed (word : List Char) :
    (State.mk .bare word []).flushed.reverse = Lexeme.flush word [] := by
  cases word <;> rfl

lemma flush_eq_append (word : List Char) (ls : List Lexeme) :
    Lexeme.flush word ls = Lexeme.flush word [] ++ ls := by
  cases word <;> rfl

/-- Behind a word that ends, the text goes on as from its start. -/
lemma finish_run_flushed (word : List Char) (ls : List Lexeme) (cs : List Char) :
    (run ⟨.bare, [], ls ++ (State.mk .bare word []).flushed⟩ cs).finish =
      (fun rest => Lexeme.flush word (ls.reverse ++ rest)) <$> (run .initial cs).finish := by
  rw [finish_run_out]
  refine congrArg (· <$> _) (funext fun rest => ?_)
  rw [List.reverse_append, reverse_flushed, List.append_assoc, ← flush_eq_append]

/-- The same behind a word and an operator that the text does not continue. -/
lemma finish_run_pending (p : Phase) (hp : p.isOpen = true) (word : List Char) {cs : List Char}
    (hcs : ∀ c ∈ cs.head?, p.extend c = none) :
    (run ⟨p, [], (State.mk .bare word []).flushed⟩ cs).finish =
      (fun rest => Lexeme.flush word (p.pending.reverse ++ rest)) <$> (run .initial cs).finish := by
  rw [finish_run_settle hp hcs]
  exact finish_run_flushed word p.pending cs

/-- A `2>&` that no `1` follows is the operator `2>` and the start of another. -/
lemma finish_run_twoGtAmp (out : List Lexeme) {cs : List Char} (h : ∀ c ∈ cs.head?, c ≠ '1') :
    (run ⟨.twoGtAmp, [], out⟩ cs).finish =
      (run ⟨.amp, [], .token (.redirect .error) :: out⟩ cs).finish := by
  cases cs with
  | nil => rfl
  | cons c cs =>
    have hc : c ≠ '1' := h c rfl
    have hstep : step ⟨.twoGtAmp, [], out⟩ c =
        step ⟨.amp, [], .token (.redirect .error) :: out⟩ c := by
      rw [step_of_isOpen rfl, step_of_isOpen rfl]
      by_cases hamp : c = '&'
      · subst hamp; rfl
      by_cases hgt : c = '>'
      · subst hgt; rfl
      simp [Phase.extend, hc, hamp, hgt, State.settle, Phase.pending]
    rw [run_cons, run_cons, hstep]

/-- The operator `2>` in front of a text that does not make it a longer one. -/
lemma finish_run_twoGt {cs : List Char} (hjoin : ∀ rest, cs = '&' :: '1' :: rest → False)
    (happend : ∀ rest, cs = '>' :: rest → False) :
    (run ⟨.twoGt, [], []⟩ cs).finish =
      ([.token (.redirect .error)] ++ ·) <$> (run .initial cs).finish := by
  by_cases hamp : ∃ rest, cs = '&' :: rest
  · obtain ⟨rest, rfl⟩ := hamp
    have h1 : ∀ c ∈ rest.head?, c ≠ '1' := by
      cases rest with
      | nil => simp
      | cons d rest => simpa using fun h : d = '1' => hjoin rest (by rw [h])
    calc (run ⟨.twoGtAmp, [], []⟩ rest).finish
        = (run ⟨.amp, [], [.token (.redirect .error)]⟩ rest).finish := finish_run_twoGtAmp [] h1
      _ = ([.token (.redirect .error)] ++ ·) <$> (run ⟨.amp, [], []⟩ rest).finish :=
          finish_run_out _ _ _ _
  · refine finish_run_pending .twoGt rfl [] fun c hc => ?_
    cases cs with
    | nil => simp at hc
    | cons d cs =>
      obtain rfl : d = c := by simpa using hc
      have h1 : d ≠ '>' := fun h => happend cs (by rw [h])
      have h2 : d ≠ '&' := fun h => hamp ⟨cs, by rw [h]⟩
      simp [Phase.extend, h1, h2]

lemma head?_ne {cs : List Char} {d : Char} (h : ∀ rest, cs = d :: rest → False) :
    ∀ c ∈ cs.head?, c ≠ d := by
  intro c hc hcd
  cases cs with
  | nil => simp at hc
  | cons e cs =>
    obtain rfl : e = c := by simpa using hc
    exact h cs (by rw [hcd])

/-- A character that starts nothing of its own goes on with the word.  A `2` that starts a word
is such a character when no `>` follows it, and a backslash is one at the end of the text. -/
lemma finish_run_push {word : List Char} {c : Char} {cs : List Char} (hd : delimiter c = none)
    (hsingle : c ≠ '\'') (hdouble : c ≠ '"') (hescape : c = '\\' → cs = [])
    (hhash : c = '#' → word ≠ []) (htwo : c = '2' → word = [] → ∀ d ∈ cs.head?, d ≠ '>') :
    (run ⟨.bare, word, []⟩ (c :: cs)).finish = (run ⟨.bare, c :: word, []⟩ cs).finish := by
  have hcomment : ¬(c = '#' ∧ word = []) := fun h => hhash h.1 h.2
  rw [run_cons, step_bare, State.read_of_delimiter_none hd hcomment]
  by_cases h2 : c = '2' ∧ word = []
  · obtain ⟨rfl, rfl⟩ := h2
    have hin : inWord [] '2' = .two := rfl
    rw [hin]
    exact finish_run_settle rfl fun d hd => by simp [Phase.extend, htwo rfl rfl d hd]
  · by_cases hesc : c = '\\'
    · rw [hescape hesc, hesc]; rfl
    · have hin : inWord word c = .bare := by unfold inWord; split <;> simp_all
      rw [hin]

/-- **The machine agrees with the scanner**: it finds the same lexemes, and leaves the same
quotation open.

**Proof sketch.** Induction along `Lexeme.scan`.  Where the scanner looks ahead and finds the
longer operator the machine makes the same moves.  Where it finds the shorter one, the machine
is still undecided, and `finish_run_pending` decides for it. -/
lemma scan_eq_finish_run (m : Lexeme.Mode) (word cs : List Char)
    (hword : m = .comment → word = []) :
    Lexeme.scan m word cs = (run ⟨ofMode m, word, []⟩ cs).finish := by
  fun_induction Lexeme.scan m word cs with
  | case1 word => rw [← reverse_flushed]; rfl
  | case2 q => rfl
  | case3 word => rw [hword rfl]; rfl
  | case4 word cs ih =>
    obtain rfl := hword rfl
    rw [ih (by simp), bind_pure_comp]
    exact (finish_run_flushed [] [.newline] cs).symm
  | case5 word c cs hc ih =>
    have hne : c ≠ '\n' := hc
    rw [ih hword]
    simp [ofMode, step, hne]
  | case6 word c cs ih => rw [ih (by simp)]; rfl
  | case7 q word cs _ ih =>
    rw [ih (by simp)]
    simp [ofMode, step]
  | case8 q word c cs hne hc ih =>
    by_cases hq : q = .double ∧ c = '\\'
    · -- the text ends behind a backslash inside the quotation
      obtain ⟨rfl, rfl⟩ := hq
      have hcs : cs = [] := by
        cases cs with
        | nil => rfl
        | cons d cs => exact (hne d cs rfl rfl rfl).elim
      subst hcs
      rfl
    · rw [ih (by simp)]
      simp [ofMode, step, hc, hq]
  | case9 word cs ih => rw [ih (by simp)]; rfl
  | case10 word cs ih => rw [ih (by simp)]; rfl
  | case11 word c cs ih => rw [ih (by simp)]; rfl
  | case12 word cs ih =>
    rw [ih (by simp), bind_pure_comp]
    exact (finish_run_flushed word [.newline] cs).symm
  | case13 word cs ih =>
    rw [ih (by simp), bind_pure_comp]
    exact (finish_run_flushed word [.token .semi] cs).symm
  | case14 word cs ih =>
    rw [ih (by simp), bind_pure_comp]
    exact (finish_run_flushed word [.token (.connector .or)] cs).symm
  | case15 word cs hor ih =>
    rw [ih (by simp), bind_pure_comp]
    exact (finish_run_pending .bar rfl word fun c hc => by
      simp [Phase.extend, head?_ne hor c hc]).symm
  | case16 word cs ih =>
    rw [ih (by simp), bind_pure_comp]
    exact (finish_run_flushed word [.token (.connector .and)] cs).symm
  | case17 word cs ih =>
    rw [ih (by simp), bind_pure_comp]
    exact (finish_run_flushed word [.token (.redirect .both)] cs).symm
  | case18 word cs hand hboth ih =>
    rw [ih (by simp), bind_pure_comp]
    exact (finish_run_pending .amp rfl word fun c hc => by
      simp [Phase.extend, head?_ne hand c hc, head?_ne hboth c hc]).symm
  | case19 word cs ih =>
    rw [ih (by simp), bind_pure_comp]
    exact (finish_run_flushed word [.token .lparen] cs).symm
  | case20 word cs ih =>
    rw [ih (by simp), bind_pure_comp]
    exact (finish_run_flushed word [.token .rparen] cs).symm
  | case21 word cs ih =>
    rw [ih (by simp), bind_pure_comp]
    exact (finish_run_flushed word [.token (.redirect .input)] cs).symm
  | case22 word cs ih =>
    rw [ih (by simp), bind_pure_comp]
    exact (finish_run_flushed word [.token (.redirect .append)] cs).symm
  | case23 word cs ih =>
    rw [ih (by simp), bind_pure_comp]
    exact (finish_run_flushed word [.token (.redirect .bothAlt)] cs).symm
  | case24 word cs happend hboth ih =>
    rw [ih (by simp), bind_pure_comp]
    exact (finish_run_pending .gt rfl word fun c hc => by
      simp [Phase.extend, head?_ne happend c hc, head?_ne hboth c hc]).symm
  | case25 cs ih =>
    rw [ih (by simp), bind_pure_comp]
    exact (finish_run_flushed [] [.token (.redirect .errorToOutput)] cs).symm
  | case26 cs ih =>
    rw [ih (by simp), bind_pure_comp]
    exact (finish_run_flushed [] [.token (.redirect .errorAppend)] cs).symm
  | case27 cs hjoin happend ih =>
    rw [ih (by simp), bind_pure_comp]
    exact (finish_run_twoGt hjoin happend).symm
  | case28 cs ih => rw [ih (by simp)]; rfl
  | case29 word c cs _ _ _ _ _ _ _ _ _ _ _ _ _ _ _ _ _ _ _ _ hc ih =>
    rw [ih (by simp), bind_pure_comp]
    have hd : delimiter c = some (.bare, []) := by
      rcases hc with rfl | rfl | rfl <;> rfl
    have hrun : (run ⟨.bare, word, []⟩ (c :: cs)).finish =
        (run ⟨.bare, [], [] ++ (State.mk .bare word []).flushed⟩ cs).finish := by
      rw [run_cons, step_bare, State.read, hd]
    exact ((finish_run_flushed word [] cs).symm.trans hrun.symm)
  | case30 word c cs hsingle hdouble hesc hnl hsemi _ hbar _ _ hamp hlp hrp hlt _ _ hgt _ _ htwo
      hhash hblank ih =>
    rw [ih (by simp)]
    have hd : delimiter c = none := by
      unfold delimiter
      split <;> simp_all
    refine (finish_run_push hd hsingle hdouble (fun h => ?_) (fun h hw => hhash hw h)
      fun h hw => head?_ne fun rest => htwo rest hw h).symm
    cases cs with
    | nil => rfl
    | cons d cs => exact (hesc d cs h rfl).elim

/-- The tokens of a text are those of the lexemes that the machine finds. -/
lemma tokenize_eq (text : String) :
    Token.tokenize text = Token.ofLexemes none false <$> (after text).finish := by
  unfold Token.tokenize
  rw [scan_eq_finish_run _ _ _ (by simp), bind_pure_comp]
  rfl

/-! ## Words -/

/-- The text is one word, and a delimiter behind it would end it: from the start, the machine
takes all of it into the current word and leaves no quotation and no escape open. -/
def IsWord (w : String) : Prop :=
  w ≠ "" ∧ (after w = ⟨.bare, w.toList.reverse, []⟩ ∨ after w = ⟨.two, w.toList.reverse, []⟩)

/-- The text is one word that ends in an unquoted backslash with nothing to escape. -/
def Dangles (w : String) : Prop := after w = ⟨.escape, w.toList.reverse, []⟩

instance (w : String) : Decidable (IsWord w) := inferInstanceAs (Decidable (_ ∧ (_ ∨ _)))

instance (w : String) : Decidable (Dangles w) := inferInstanceAs (Decidable (_ = _))

/-- The phases in which the characters just read belong to a word. -/
def Phase.holdsWord : Phase → Bool
  | bare | escape | quoted _ | quotedEscape | two => true
  | comment | bar | amp | gt | twoGt | twoGtAmp => false

/-- What holds of every state that the machine reaches: the current word by itself leads to the
same phase, and the words in front are words by themselves. -/
structure State.Sound (s : State) : Prop where
  run_word : s.phase.holdsWord = true → run .initial s.word.reverse = ⟨s.phase, s.word, []⟩
  word_eq_nil : s.phase.holdsWord = false → s.word = []
  isWord_of_mem : ∀ w, .token (.word w) ∈ s.out → IsWord w

/-- The lexemes of an operator are no words, and behind it no word has begun. -/
lemma extend_eq_some {p q : Phase} {c : Char} {ls : List Lexeme}
    (h : p.extend c = some (q, ls)) :
    (q.holdsWord = true → q = .bare) ∧ ∀ w, .token (.word w) ∉ ls := by
  unfold Phase.extend at h
  split at h <;> simp_all [Phase.holdsWord] <;> obtain ⟨rfl, rfl⟩ := h <;> simp

/-- The lexemes of a delimiter are no words, and behind it no word has begun. -/
lemma delimiter_eq_some {q : Phase} {c : Char} {ls : List Lexeme}
    (h : delimiter c = some (q, ls)) :
    (q.holdsWord = true → q = .bare) ∧ ∀ w, .token (.word w) ∉ ls := by
  unfold delimiter at h
  split at h <;> simp_all [Phase.holdsWord] <;> obtain ⟨rfl, rfl⟩ := h <;> simp

lemma holdsWord_inWord (word : List Char) (c : Char) : (inWord word c).holdsWord = true := by
  unfold inWord
  split <;> [rfl; rfl; rfl; split <;> rfl; rfl]

lemma not_mem_pending (p : Phase) (w : String) : .token (.word w) ∉ p.pending := by
  cases p <;> simp [Phase.pending]

lemma mem_flushed {s : State} {w : String} (h : .token (.word w) ∈ s.flushed) :
    (s.word ≠ [] ∧ w = String.ofList s.word.reverse) ∨ .token (.word w) ∈ s.out := by
  unfold State.flushed at h
  split at h
  · exact .inr h
  · rename_i hw
    rcases List.mem_cons.mp h with h | h
    · exact .inl ⟨hw, by simpa using h⟩
    · exact .inr h

namespace State.Sound

lemma initial : State.initial.Sound where
  run_word _ := rfl
  word_eq_nil h := by simp [State.initial, Phase.holdsWord] at h
  isWord_of_mem w hw := by simp [State.initial] at hw

/-- A state in which no word has begun. -/
lemma of_word_nil {p : Phase} {out : List Lexeme} (hp : p.holdsWord = true → p = .bare)
    (hout : ∀ w, .token (.word w) ∈ out → IsWord w) : (State.mk p [] out).Sound where
  run_word h := by obtain rfl := hp h; rfl
  word_eq_nil _ := rfl
  isWord_of_mem := hout

/-- A state whose current word has just got its character `c`. -/
lemma of_word_cons {p q : Phase} {word : List Char} {c : Char} {out : List Lexeme}
    (hq : q.holdsWord = true) (hword : run .initial word.reverse = ⟨p, word, []⟩)
    (hstep : Scanner.step ⟨p, word, []⟩ c = ⟨q, c :: word, []⟩)
    (hout : ∀ w, .token (.word w) ∈ out → IsWord w) : (State.mk q (c :: word) out).Sound where
  run_word _ := by
    rw [List.reverse_cons, run_append, hword, run_cons, run_nil, hstep]
  word_eq_nil h := by simp [hq] at h
  isWord_of_mem := hout

/-- The words that an operator or a delimiter ends are words by themselves. -/
lemma isWord_of_mem_flushed {s : State} (h : s.Sound) (hs : s.phase.isOpen = true) {w : String}
    (hw : .token (.word w) ∈ s.settle.flushed) : IsWord w := by
  rcases mem_flushed hw with ⟨hne, rfl⟩ | hw
  · have hne' : s.word ≠ [] := hne
    have hholds : s.phase.holdsWord = true := by
      by_contra hno
      exact hne' (h.word_eq_nil (by simpa using hno))
    have hrun : after (String.ofList s.word.reverse) = ⟨s.phase, s.word, []⟩ := by
      simpa [after] using h.run_word hholds
    refine ⟨by simpa [State.settle] using hne', ?_⟩
    have hp : s.phase = .bare ∨ s.phase = .two := by
      cases hph : s.phase <;> simp [hph, Phase.isOpen, Phase.holdsWord] at hs hholds ⊢
    rcases hp with hp | hp <;> simp [State.settle, hrun, hp]
  · rcases List.mem_append.mp hw with hw | hw
    · exact (not_mem_pending _ _ hw).elim
    · exact h.isWord_of_mem w hw

/-- **A step keeps the state sound.**

**Proof sketch.** A character that goes on with the current word extends the run of that word by
the same step.  All others end the word where an operator or a delimiter may end it, and leave
no word begun. -/
lemma step {s : State} (h : s.Sound) (c : Char) : (Scanner.step s c).Sound := by
  obtain ⟨p, word, out⟩ := s
  by_cases hopen : p.isOpen = true
  · rw [step_of_isOpen hopen]
    cases hext : p.extend c with
    | some r =>
      obtain ⟨hq, hls⟩ := extend_eq_some hext
      refine of_word_nil hq fun w hw => h.isWord_of_mem w ?_
      exact (List.mem_append.mp hw).resolve_left (hls w)
    | none =>
      have hflushed := fun w => isWord_of_mem_flushed h hopen (w := w)
      have hsettled : ∀ w, .token (.word w) ∈ p.pending ++ out → IsWord w := fun w hw =>
        h.isWord_of_mem w ((List.mem_append.mp hw).resolve_left (not_mem_pending p w))
      cases hd : delimiter c with
      | some r =>
        obtain ⟨hq, hls⟩ := delimiter_eq_some hd
        simp only [State.read, hd]
        refine of_word_nil hq fun w hw => hflushed w ?_
        exact (List.mem_append.mp hw).resolve_left (hls w)
      | none =>
        by_cases hhash : c = '#' ∧ word = []
        · obtain ⟨rfl, rfl⟩ := hhash
          exact of_word_nil (by simp [Phase.holdsWord]) hsettled
        · rw [State.read_of_delimiter_none hd hhash]
          by_cases hholds : p.holdsWord = true
          · refine of_word_cons (holdsWord_inWord word c) (h.run_word hholds) ?_ hsettled
            have hpending : p.pending = [] := by
              cases p <;> simp [Phase.isOpen, Phase.holdsWord, Phase.pending] at hopen hholds ⊢
            rw [step_of_isOpen hopen, hext, State.read_of_delimiter_none hd hhash]
            simp [State.settle, hpending]
          · obtain rfl : word = [] := h.word_eq_nil (by simpa using hholds)
            refine of_word_cons (holdsWord_inWord [] c) (p := .bare) rfl ?_ hsettled
            rw [step_bare, State.read_of_delimiter_none hd hhash]
  · have hout := h.isWord_of_mem
    cases p with
    | escape => exact of_word_cons rfl (h.run_word rfl) rfl hout
    | quotedEscape => exact of_word_cons rfl (h.run_word rfl) rfl hout
    | quoted q =>
      refine of_word_cons ?_ (h.run_word rfl) rfl hout
      split_ifs <;> rfl
    | comment =>
      simp only [Scanner.step]
      split
      · exact of_word_nil (by simp [Phase.holdsWord]) fun w hw => hout w (by simpa using hw)
      · exact h
    | _ => simp [Phase.isOpen] at hopen

/-- A run keeps the state sound. -/
lemma run {s : State} (h : s.Sound) (cs : List Char) : (Scanner.run s cs).Sound := by
  induction cs generalizing s with
  | nil => exact h
  | cons c cs ih => exact ih (h.step c)

end State.Sound

/-- **What a text leaves behind is sound**, whatever the text is. -/
lemma sound_after (text : String) : (after text).Sound := State.Sound.initial.run _

/-- The lexemes of a text: all its words are words by themselves, but for a last one in which the
text ends behind an unquoted backslash. -/
lemma lexemes_after {text : String} {ls : List Lexeme} (h : (after text).finish = .ok ls) :
    (∀ w, .token (.word w) ∈ ls → IsWord w) ∨
      (after text).phase = .escape ∧ ∃ front w, ls = front ++ [.token (.word w)] ∧ Dangles w ∧
        ∀ v, .token (.word v) ∈ front → IsWord v := by
  have hs := sound_after text
  set s := after text
  by_cases hopen : s.phase.isOpen = true
  · rw [State.finish_of_isOpen hopen, Except.ok.injEq] at h
    subst h
    exact .inl fun w hw => hs.isWord_of_mem_flushed hopen (List.mem_reverse.mp hw)
  · obtain ⟨p, word, out⟩ := s
    cases p with
    | escape =>
      have hne : word ≠ [] := by
        rintro rfl
        simpa [State.initial] using hs.run_word rfl
      have hword : Dangles (String.ofList word.reverse) := by
        simpa [Dangles, after] using hs.run_word rfl
      have hls : ls = out.reverse ++ [.token (.word (String.ofList word.reverse))] := by
        simpa [State.finish, State.lexemes, State.settle, State.flushed, Phase.pending, hne]
          using h.symm
      exact .inr ⟨rfl, out.reverse, _, hls, hword, fun v hv =>
        hs.isWord_of_mem v (List.mem_reverse.mp hv)⟩
    | comment =>
      obtain rfl : word = [] := hs.word_eq_nil rfl
      have hls : ls = out.reverse := by
        simpa [State.finish, State.lexemes, State.settle, State.flushed, Phase.pending]
          using h.symm
      exact .inl fun w hw => hs.isWord_of_mem w (by simpa [hls] using hw)
    | quoted q => simp [State.finish] at h
    | quotedEscape => simp [State.finish] at h
    | _ => simp [Phase.isOpen] at hopen

/-! ## Texts that spell tokens -/

/-- The characters that end a word and continue no operator. -/
def isBreak (c : Char) : Bool := c = ' ' || c = ';' || c = ')'

/-- The text ends at once, or starts with a character that ends a word and continues no
operator. -/
def Breaks (cs : List Char) : Prop := ∀ c ∈ cs.head?, isBreak c = true

/-- The token stands apart when a break follows it: it is no word, or a word by itself. -/
def IsClean : Token → Prop
  | .word w => IsWord w
  | _ => True

/-- The text spells the tokens, with something between two neighbours that would otherwise run
together.  Only the last may be a word that ends in a backslash. -/
inductive Spells : List Char → List Token → Prop where
  | nil : Spells [] []
  | blank {cs : List Char} {ts : List Token} : Spells cs ts → Spells (' ' :: cs) ts
  | lparen {cs : List Char} {ts : List Token} : Spells cs ts → Spells ('(' :: cs) (.lparen :: ts)
  | cons {t : Token} {cs : List Char} {ts : List Token} : IsClean t → Breaks cs → Spells cs ts →
      Spells (t.describe.toList ++ cs) (t :: ts)
  | dangling {w : String} : Dangles w → Spells w.toList [.word w]

lemma extend_of_isBreak {c : Char} (h : isBreak c = true) (p : Phase) : p.extend c = none := by
  have hc : c = ' ' ∨ c = ';' ∨ c = ')' := by simpa [isBreak, or_assoc] using h
  rcases hc with rfl | rfl | rfl <;> cases p <;> rfl

lemma delimiter_of_isBreak {c : Char} (h : isBreak c = true) :
    ∃ ls, delimiter c = some (.bare, ls) := by
  have hc : c = ' ' ∨ c = ';' ∨ c = ')' := by simpa [isBreak, or_assoc] using h
  rcases hc with rfl | rfl | rfl <;> exact ⟨_, rfl⟩

lemma Breaks.extend_eq_none {cs : List Char} (h : Breaks cs) (p : Phase) :
    ∀ c ∈ cs.head?, p.extend c = none :=
  fun c hc => extend_of_isBreak (h c hc) p

/-- A break ends the current word. -/
lemma finish_run_word {word : List Char} (hword : word ≠ []) (out : List Lexeme) {cs : List Char}
    (hcs : Breaks cs) :
    (run ⟨.bare, word, out⟩ cs).finish =
      (run ⟨.bare, [], .token (.word (String.ofList word.reverse)) :: out⟩ cs).finish := by
  cases cs with
  | nil => simp [State.finish, State.lexemes, State.settle, State.flushed, Phase.pending, hword]
  | cons c cs =>
    obtain ⟨ls, hd⟩ := delimiter_of_isBreak (hcs c rfl)
    rw [run_cons, run_cons, step_bare, step_bare]
    simp [State.read, hd, State.flushed, hword]

/-- A word by itself, in front of a break. -/
lemma finish_run_isWord {w : String} (hw : IsWord w) (out : List Lexeme) {cs : List Char}
    (hcs : Breaks cs) :
    (run ⟨.bare, [], out⟩ (w.toList ++ cs)).finish =
      (run ⟨.bare, [], .token (.word w) :: out⟩ cs).finish := by
  have hne : w.toList.reverse ≠ [] := by simpa using hw.1
  have hrun : run ⟨.bare, [], out⟩ w.toList = (after w).behind out := run_behind .initial out _
  have hback : String.ofList w.toList.reverse.reverse = w := by simp
  have hend := finish_run_word hne out hcs
  rw [hback] at hend
  rw [run_append, hrun, ← hend]
  rcases hw.2 with h | h
  · rw [h]; rfl
  · rw [h]
    exact finish_run_settle rfl (hcs.extend_eq_none _)

/-- **A token in front of a break is scanned as it is described.** -/
lemma finish_run_describe {t : Token} (ht : IsClean t) (out : List Lexeme) {cs : List Char}
    (hcs : Breaks cs) :
    (run ⟨.bare, [], out⟩ (t.describe.toList ++ cs)).finish =
      (run ⟨.bare, [], .token t :: out⟩ cs).finish := by
  have hsettle : ∀ {p : Phase}, p.isOpen = true →
      (run ⟨p, [], out⟩ cs).finish = (run ⟨.bare, [], p.pending ++ out⟩ cs).finish :=
    fun hp => finish_run_settle hp (hcs.extend_eq_none _)
  cases t with
  | word w => exact finish_run_isWord ht out hcs
  | pipe => exact hsettle (p := .bar) rfl
  | connector c => cases c <;> rfl
  | semi => rfl
  | amp => exact hsettle (p := .amp) rfl
  | lparen => rfl
  | rparen => rfl
  | redirect op =>
    cases op with
    | output => exact hsettle (p := .gt) rfl
    | error => exact hsettle (p := .twoGt) rfl
    | _ => rfl

/-- **A text that spells tokens is scanned into them.** -/
lemma Spells.finish_run {cs : List Char} {ts : List Token} (h : Spells cs ts)
    (out : List Lexeme) :
    (run ⟨.bare, [], out⟩ cs).finish = .ok (out.reverse ++ ts.map .token) := by
  induction h generalizing out with
  | nil => simp [State.finish, State.lexemes, State.settle, State.flushed, Phase.pending]
  | blank _ ih => exact ih out
  | lparen _ ih =>
    refine (ih (.token .lparen :: out)).trans ?_
    simp
  | cons ht hcs _ ih =>
    rw [finish_run_describe ht out hcs, ih]
    simp
  | @dangling w hw =>
    have hne : w.toList.reverse ≠ [] := by
      intro hnil
      unfold Dangles after at hw
      rw [show w.toList = [] by simpa using hnil] at hw
      simp [State.initial] at hw
    have hrun : run ⟨.bare, [], out⟩ w.toList = (after w).behind out := run_behind .initial out _
    rw [hrun, hw]
    simp [State.behind, State.finish, State.lexemes, State.settle, State.flushed, Phase.pending,
      List.reverse_eq_nil_iff.not.mp hne]

/-- Tokens without newlines between them are left as they are. -/
lemma ofLexemes_map_token (last : Option Token) (ts : List Token) :
    Token.ofLexemes last false (ts.map .token) = ts := by
  induction ts generalizing last with
  | nil => rfl
  | cons t ts ih => simp [Token.ofLexemes, ih]

/-- Lexemes or tokens that are found come from lexemes that are found. -/
lemma exists_of_map_eq_ok {α β : Type} {f : α → β} {x : Except Quote α} {b : β}
    (h : f <$> x = .ok b) : ∃ a, x = .ok a ∧ f a = b := by
  cases x with
  | error q => cases h
  | ok a => exact ⟨a, rfl, Except.ok.inj h⟩

/-- The tokens are those among the lexemes, and `;` for newlines. -/
lemma mem_ofLexemes {last : Option Token} {pending : Bool} {ls : List Lexeme} {t : Token}
    (h : t ∈ Token.ofLexemes last pending ls) : t = .semi ∨ .token t ∈ ls := by
  induction ls generalizing last pending with
  | nil => simp [Token.ofLexemes] at h
  | cons l ls ih =>
    cases l with
    | newline =>
      rcases ih h with h | h
      · exact .inl h
      · exact .inr (.tail _ h)
    | token u =>
      have hmem : t = .semi ∨ t = u ∨ t ∈ Token.ofLexemes (some u) false ls := by
        unfold Token.ofLexemes at h
        split at h
        · simpa using h
        · exact .inr (by simpa using h)
      rcases hmem with h | rfl | h
      · exact .inl h
      · exact .inr (.head _)
      · rcases ih h with h | h
        · exact .inl h
        · exact .inr (.tail _ h)

/-- Lexemes behind others: what is in front matters through its last token, and through a newline
that waits for a token to separate from it. -/
lemma ofLexemes_append (last : Option Token) (pending : Bool) (xs : List Lexeme)
    (hp : pending = true → last.any (!·.absorbsNewline) = true) :
    ∃ p, (p = true →
        ((Token.ofLexemes last pending xs).getLast?.or last).any (!·.absorbsNewline) = true) ∧
      ∀ ys, Token.ofLexemes last pending (xs ++ ys) = Token.ofLexemes last pending xs ++
        Token.ofLexemes ((Token.ofLexemes last pending xs).getLast?.or last) p ys := by
  induction xs generalizing last pending with
  | nil => exact ⟨pending, hp, fun _ => rfl⟩
  | cons l xs ih =>
    cases l with
    | newline =>
      refine ih last _ fun h => ?_
      rcases Bool.or_eq_true_iff.mp h with h | h
      · exact hp h
      · exact h
    | token t =>
      obtain ⟨p, hinv, happend⟩ := ih (some t) false nofun
      have hfirst : ∀ zs, Token.ofLexemes last pending (.token t :: zs) =
          (if pending then [.semi] else []) ++ t :: Token.ofLexemes (some t) false zs := by
        intro zs
        cases pending <;> rfl
      have hlast : (Token.ofLexemes last pending (.token t :: xs)).getLast?.or last =
          (Token.ofLexemes (some t) false xs).getLast?.or (some t) := by
        rw [hfirst, List.getLast?_append, List.getLast?_cons]
        cases (Token.ofLexemes (some t) false xs).getLast? <;> rfl
      refine ⟨p, ?_, fun ys => ?_⟩
      · rw [hlast]
        exact hinv
      · rw [hlast, List.cons_append, hfirst, hfirst, happend ys]
        simp

lemma Spells.tokenize {text : String} {ts : List Token} (h : Spells text.toList ts) :
    Token.tokenize text = .ok ts := by
  rw [tokenize_eq, after, State.initial, h.finish_run []]
  exact congrArg Except.ok (ofLexemes_map_token none ts)

/-! ## Newlines -/

/-- A newline read in this phase belongs to the current word. -/
def Phase.keepsNewline : Phase → Bool
  | escape | quoted _ | quotedEscape => true
  | _ => false

/-- Outside quotations and escapes a newline ends what is in front of it, as the end of the text
would. -/
lemma step_newline {s : State} (h : s.Sound) (hs : s.phase.keepsNewline = false) :
    step s '\n' = ⟨.bare, [], .newline :: s.lexemes.reverse⟩ ∧ s.finish = .ok s.lexemes := by
  obtain ⟨p, word, out⟩ := s
  by_cases hopen : p.isOpen = true
  · refine ⟨?_, State.finish_of_isOpen hopen⟩
    have hext : p.extend '\n' = none := by cases p <;> rfl
    rw [step_of_isOpen hopen, hext, State.lexemes, List.reverse_reverse]
    rfl
  · cases p with
    | comment =>
      obtain rfl : word = [] := h.word_eq_nil rfl
      simp [step, State.lexemes, State.finish, State.settle, State.flushed, Phase.pending]
    | escape | quoted _ | quotedEscape => simp [Phase.keepsNewline] at hs
    | _ => simp [Phase.isOpen] at hopen

/-- Inside a quotation or behind a backslash a newline is a character of the word. -/
lemma step_newline_of_keepsNewline {s : State} (hs : s.phase.keepsNewline = true) :
    ∃ p, step s '\n' = ⟨p, '\n' :: s.word, s.out⟩ ∧ (p = .bare ∨ ∃ q, p = .quoted q) := by
  obtain ⟨p, word, out⟩ := s
  cases p with
  | escape => exact ⟨.bare, rfl, .inl rfl⟩
  | quotedEscape => exact ⟨.quoted .double, rfl, .inr ⟨_, rfl⟩⟩
  | quoted q => cases q <;> exact ⟨_, rfl, .inr ⟨_, rfl⟩⟩
  | _ => simp [Phase.keepsNewline] at hs

end Conch.Scanner
