import Conch.Proofs.Flattening
import Conch.Proofs.Recollection
import Conch.Proofs.Separators
import Conch.Shell

/-!
# Commands recalled from the history

The shell puts a command of several lines into the history on one line, with a blank for each
newline and without the blanks at its end.  A newline may be a `;`, the end of a comment, a
character of a word, or nothing; a blank between words is nothing.  So the entry is the same command
only where the newlines of the command do no more than a blank does, and this module says where that
is.

## Main definitions

* `Parser.IdleNewline` — a newline is no `;`, or one that means nothing.
* `Command.Passes` — a blank may stand for a newline.
* `Command.Recallable` — a command that the history keeps as it is.

## Main results

* `Parser.read_flatTokens` — newlines that are idle may be left out.
* `Parser.idleNewlines_of_accepts` — newlines that may be left out are idle.
* `Command.parse_recalled_iff` — **which commands a history brings back**.
* `Command.parse_recalled_ne_subshell` — a command that it does not.
-/

set_option autoImplicit false

namespace Conch.Parser

open Grammar Scanner

/-! ## Lines without their newlines -/

/-- The token behind a newline is idle there: the newline is no `;`, or one that means nothing. -/
def IdleNewline (front rest : String) : Prop :=
  separates (begun front) = true → ∀ t ∈ (begun rest).head?,
    ∃ s, read .initial (begun front) = .ok s ∧ s.Idle t

/-- What stands on later lines does not matter if a token stands in front of it. -/
lemma IdleNewline.left {front rest more : String} (h : IdleNewline front (rest ++ "\n" ++ more))
    (hkeep : (after rest).phase.keepsNewline = false) : IdleNewline front rest := by
  intro hsep t ht
  refine h hsep t ?_
  rw [begun_newline hkeep, List.head?_append, ht]
  rfl

/-- All newlines of the line are idle. -/
def IdleNewlines (line : String) : Prop :=
  ∀ front rest, line = front ++ "\n" ++ rest → IdleNewline front rest

lemma IdleNewlines.left {a b : String} (h : IdleNewlines (a ++ "\n" ++ b))
    (hout : NewlinesOutside (a ++ "\n" ++ b)) : IdleNewlines a := by
  rintro front rest rfl
  rw [append_newline_assoc] at h hout
  exact (h front _ rfl).left hout.right

/-- A text with a newline has a last one. -/
lemma exists_last_newline {line : String} (h : '\n' ∈ line.toList) :
    ∃ front rest : String, line = front ++ "\n" ++ rest ∧ '\n' ∉ rest.toList := by
  obtain ⟨xs, ys, hsplit, hxs⟩ := List.eq_append_cons_of_mem (List.mem_reverse.mpr h)
  have hline : line.toList = ys.reverse ++ '\n' :: xs.reverse := by
    rw [← List.reverse_reverse line.toList, hsplit]
    simp
  exact ⟨_, _, eq_newline hline, by simpa using hxs⟩

/-- What reads some tokens reads those at their start. -/
lemma exists_read_of_append {s s' : State} {ts us : List Token} (h : read s (ts ++ us) = .ok s') :
    ∃ s₁, read s ts = .ok s₁ ∧ read s₁ us = .ok s' := by
  rw [read_append] at h
  exact exists_of_bind_eq_ok h

/-- **Newlines that are idle may be left out.**

**Proof sketch.** Induction on the lines.  Behind the last newline stands a line whose first token
is read in the same way with and without a `;` in front of it; from there on the tokens are the
same. -/
lemma read_flatTokens {line : String} {s : State} (hout : NewlinesOutside line)
    (hidle : IdleNewlines line) (h : read .initial (begun line) = .ok s) :
    read .initial (flatTokens line) = .ok s := by
  generalize hn : line.toList.length = n
  induction n using Nat.strong_induction_on generalizing line s with
  | _ n ih =>
    by_cases hmem : '\n' ∈ line.toList
    · obtain ⟨front, rest, rfl, hrest⟩ := exists_last_newline hmem
      have hkeep := hout front rest rfl
      have hless : front.toList.length < n := by
        rw [← hn, toList_newline, List.length_append, List.length_cons]
        omega
      rw [begun_newline hkeep] at h
      obtain ⟨s₁, hs₁, hread⟩ := exists_read_of_append h
      have hfront := ih _ hless hout.left (hidle.left hout) hs₁ rfl
      rw [flatTokens_newline hkeep, flatTokens_of_newline_not_mem hrest, read_append, hfront]
      show read s₁ (begun rest) = .ok s
      cases hts : begun rest with
      | nil => simpa [hts] using hread
      | cons t ts =>
        rw [hts, if_neg (List.cons_ne_nil t ts)] at hread
        by_cases hsep : separates (begun front) = true
        · rw [separator, if_pos hsep] at hread
          obtain ⟨s₂, hsemi, hread₂⟩ := exists_of_bind_eq_ok hread
          obtain ⟨s₃, ht, hread₃⟩ := exists_of_bind_eq_ok hread₂
          obtain ⟨s', hs', hidle⟩ := hidle front rest rfl hsep t (by simp [hts])
          obtain rfl : s' = s₁ := Except.ok.inj (hs'.symm.trans hs₁)
          have hstep := step_of_idle hsemi ht hidle
          exact (congrArg (· >>= fun s => read s ts) hstep).trans hread₃
        · rw [separator, if_neg hsep] at hread
          exact hread
    · rw [flatTokens_of_newline_not_mem hmem, h]

/-- The parser is not behind `&` where a newline separates. -/
lemma mode_ne_amp {ts : List Token} {s : State} (h : read .initial ts = .ok s)
    (hsep : separates ts = true) : s.mode ≠ .boundary .amp := by
  intro hmode
  rcases behind_of_read h with ⟨-, rfl⟩ | ⟨front, t, rfl, hbehind⟩
  · cases hmode
  · obtain rfl : t = .amp := by simpa [State.Behind, hmode] using hbehind
    simp [separates, Token.absorbsNewline] at hsep

/-- **Newlines that may be left out are idle.**  Here `more` stands behind the line where its
newlines are kept.

**Proof sketch.** Induction on the newlines, from the first on.  If all newlines in front of one are
idle, the parser comes to it in the same state with and without them.  What follows leads to the
same tree from there, so the token behind the newline is idle. -/
lemma idleNewlines_of_accepts {line : String} {more : List Token} {s₁ s₂ : State} {c : Command}
    (hout : NewlinesOutside line) (h₁ : read .initial (begun line ++ more) = .ok s₁)
    (hc₁ : s₁.Accepts c) (h₂ : read .initial (flatTokens line) = .ok s₂) (hc₂ : s₂.Accepts c) :
    IdleNewlines line := by
  intro front rest hline
  generalize hn : front.toList.length = n
  induction n using Nat.strong_induction_on generalizing front rest with
  | _ n ih =>
    subst hline
    intro hsep t ht
    have hkeep := hout front rest rfl
    obtain ⟨ts, hts⟩ := List.head?_eq_some_iff.mp ht
    obtain ⟨us, hus⟩ : ∃ us, flatTokens rest = t :: us :=
      List.head?_eq_some_iff.mp ((head?_flatTokens rest).trans ht)
    rw [begun_newline hkeep, hts, if_neg (List.cons_ne_nil t ts), separator, if_pos hsep,
      List.append_assoc] at h₁
    obtain ⟨s, hs, hread⟩ := exists_read_of_append h₁
    obtain ⟨s', hsemi, hread'⟩ := exists_of_bind_eq_ok hread
    obtain ⟨s'', ht₁, hread₁⟩ := exists_of_bind_eq_ok hread'
    -- the newlines in front of this one are idle
    have hfront : IdleNewlines front := by
      rintro f r rfl
      rw [append_newline_assoc] at ih hout
      have hless : f.toList.length < n := by
        rw [← hn, toList_newline, List.length_append, List.length_cons]
        omega
      exact (ih _ hless f _ rfl rfl).left hout.right
    have hflat := read_flatTokens hout.left hfront hs
    rw [flatTokens_newline hkeep, hus] at h₂
    obtain ⟨s₀, hs₀, hread''⟩ := exists_read_of_append h₂
    obtain rfl : s = s₀ := Except.ok.inj (hflat.symm.trans hs₀)
    obtain ⟨s₃, ht₂, hread₂⟩ := exists_of_bind_eq_ok hread''
    exact ⟨s, hs, idle_of_accepts (settled_of_read_initial hs) (mode_ne_amp hs hsep) hsemi ht₁
      hread₁ hc₁ ht₂ hread₂ hc₂⟩

end Conch.Parser

namespace Conch.Command

open Conch.Parser Conch.Scanner

/-! ## Commands of several lines -/

/-- A blank may stand for the newline between two parts of a line. -/
structure Passes (front rest : String) : Prop where
  /-- The newline stands outside quotations and escapes. -/
  outside : (after front).phase.keepsNewline = false
  /-- If it ends a comment, there is nothing behind it. -/
  comment : (after front).phase = .comment → ∀ t ∈ begun rest, t = .semi
  /-- If it separates two tokens, a `;` between them means nothing. -/
  idle : IdleNewline front rest

lemma parse_iff_accepts {line : String} {ts : List Token} (h : Token.tokenize line = .ok ts)
    (c : Command) : parse line = .ok c ↔ ∃ s, read .initial ts = .ok s ∧ s.Accepts c := by
  rw [parse_of_tokenize h, ofTokens_dropLastSemi_iff]

/-- A line that is read as a part of another one, without the newlines of that part. -/
lemma parse_of_visible {entry a : String} {s : Parser.State} {ls : List Lexeme} {c : Command}
    (hafter : after entry = (after a).unbroken) (hfinish : (after a).finish = .ok ls)
    (hout : NewlinesOutside a) (hidle : IdleNewlines a) (h : read .initial (begun a) = .ok s)
    (hc : s.Accepts c) : parse entry = .ok c := by
  have htokens := tokenize_of_unbroken hafter
  rw [hfinish] at htokens
  exact (parse_iff_accepts htokens c).mpr ⟨s, read_flatTokens hout hidle h, hc⟩

/-- Separators below a line add nothing to it. -/
lemma exists_accepts_of_semi {a below : String} {s : Parser.State} {c : Command}
    (hkeep : (after a).phase.keepsNewline = false) (hbelow : ∀ t ∈ begun below, t = .semi)
    (h : read .initial (begun (a ++ "\n" ++ below)) = .ok s) (hc : s.Accepts c) :
    ∃ s', read .initial (begun a) = .ok s' ∧ s'.Accepts c := by
  rw [begun_newline hkeep] at h
  obtain ⟨s', hs', hread⟩ := exists_read_of_append h
  refine ⟨s', hs', accepts_of_semis hread (fun t ht => ?_) hc⟩
  have hmem : t ∈ separator (begun a) ∨ t ∈ begun below := by
    split at ht
    · cases ht
    · exact List.mem_append.mp ht
  rcases hmem with ht | ht
  · unfold separator at ht
    split at ht
    · exact List.mem_singleton.mp ht
    · cases ht
  · exact hbelow t ht

/-- **A line that passes** is the same command on one line. -/
lemma parse_flatten {line entry : String} {c : Command}
    (hentry : entry.toList = flatten line.toList) (h : parse line = .ok c)
    (hpass : ∀ front rest, line = front ++ "\n" ++ rest → Passes front rest) :
    parse entry = .ok c := by
  have hout : NewlinesOutside line := fun front rest hsplit => (hpass front rest hsplit).outside
  have hidle : IdleNewlines line := fun front rest hsplit => (hpass front rest hsplit).idle
  obtain ⟨ts, hts, -⟩ := parse_eq_ok_iff.mp h
  obtain ⟨s, hread, hc⟩ := (parse_iff_accepts hts c).mp h
  rw [← begun_of_tokenize hts] at hread
  obtain ⟨a, hafter, -, ha⟩ := exists_visible hout
  rw [← hentry] at hafter
  rcases ha with rfl | ⟨⟨below, rfl⟩, hphase⟩
  · rw [tokenize_eq] at hts
    obtain ⟨ls, hfinish, -⟩ := exists_of_map_eq_ok hts
    exact parse_of_visible hafter hfinish hout hidle hread hc
  · have hkeep := hout a below rfl
    have hbelow := (hpass a below rfl).comment hphase
    obtain ⟨s', hs', hc'⟩ := exists_accepts_of_semi hkeep hbelow hread hc
    exact parse_of_visible hafter (step_newline (sound_after a) hkeep).2 hout.left
      (hidle.left hout) hs' hc'

/-- The characters of a word that are no braces: braces open and close groups, and are then no
words. -/
def isPlainChar (c : Char) : Bool := c ≠ '\x7b' && c ≠ '\x7d'

lemma isPlainChar_of_isBlank (c : Char) (h : Text.isBlank c = true) : isPlainChar c = true := by
  by_contra hc
  have hbrace : c = '\x7b' ∨ c = '\x7d' := by
    by_contra hne
    rw [not_or] at hne
    exact hc (by simp [isPlainChar, hne.1, hne.2])
  rcases hbrace with rfl | rfl <;> exact absurd h (by decide)

/-- Accepted lines with the same tree have the same characters in their words. -/
lemma load_eq_of_parse {p : Char → Bool} (hp : p '\x7b' = false ∧ p '\x7d' = false)
    {line entry : String} {c : Command} (hline : parse line = .ok c)
    (hentry : parse entry = .ok c) : (after line).load p = (after entry).load p := by
  have hload : ∀ {text : String}, parse text = .ok c → (after text).load p = c.load p := by
    intro text h
    obtain ⟨ts, hts, -⟩ := parse_eq_ok_iff.mp h
    obtain ⟨s, hread, hc⟩ := (parse_iff_accepts hts c).mp h
    rw [load_of_accepts hp hread hc, ← begun_of_tokenize hts, load_begun]
  rw [hload hline, hload hentry]

/-- A line with a newline in a word is another command on one line. -/
lemma outside_of_parse {line entry front rest : String} {cs : List Char} {c : Command}
    (hentry : entry.toList = flatten cs) (hline : line = front ++ "\n" ++ rest)
    (h : parse line = .ok c) (h' : parse entry = .ok c) :
    (after front).phase.keepsNewline = false := by
  by_contra hkeep
  rw [Bool.not_eq_false] at hkeep
  subst hline
  obtain ⟨ts, hts, -⟩ := parse_eq_ok_iff.mp h
  obtain ⟨w, hw, hmem⟩ := exists_word_of_keepsNewline hkeep hts
  have hsame := load_eq_of_parse (p := (· = '\n')) (by decide) h h'
  have hpos : 0 < (after (front ++ "\n" ++ rest)).load (· = '\n') := by
    have hchars : '\n' ∈ ts.flatMap Token.chars := List.mem_flatMap.mpr ⟨_, hw, hmem⟩
    rw [← load_begun, begun_of_tokenize hts]
    exact List.countP_pos_iff.mpr ⟨'\n', hchars, by simp⟩
  have hzero : (after entry).load (· = '\n') = 0 := by
    have hle := load_run_le (p := (· = '\n')) .initial entry.toList
    have hnone : entry.toList.countP (· = '\n') = 0 := by
      rw [hentry, List.countP_eq_zero]
      intro c hc heq
      obtain rfl : c = '\n' := of_decide_eq_true heq
      exact newline_not_mem_flatten cs hc
    have hinitial : Scanner.State.initial.load (· = '\n') = 0 := rfl
    rw [hnone, hinitial] at hle
    exact Nat.le_zero.mp hle
  rw [hsame, hzero] at hpos
  exact Nat.lt_irrefl 0 hpos

/-- Where only separators follow a newline, it separates nothing: two in a row are rejected. -/
lemma idleNewline_of_semi {front rest : String} {s : Parser.State}
    (hkeep : (after front).phase.keepsNewline = false)
    (h : read .initial (begun (front ++ "\n" ++ rest)) = .ok s)
    (hrest : ∀ t ∈ (begun rest).head?, t = .semi) : IdleNewline front rest := by
  intro hsep t ht
  obtain rfl := hrest t ht
  obtain ⟨ts, hts⟩ := List.head?_eq_some_iff.mp ht
  rw [begun_newline hkeep, hts, if_neg (List.cons_ne_nil _ ts), separator, if_pos hsep] at h
  obtain ⟨s₁, -, h₁⟩ := exists_read_of_append h
  obtain ⟨s₂, hsemi, h₂⟩ := exists_of_bind_eq_ok h₁
  obtain ⟨s₃, hsemi', -⟩ := exists_of_bind_eq_ok h₂
  exact (step_semi_ne_ok (.inl ⟨.semi, mode_of_step_semi hsemi, by decide⟩) s₃ hsemi').elim

/-- Two newlines of a line are the same, or one stands in front of the other. -/
lemma newline_cases {front rest front' rest' : String}
    (h : front ++ "\n" ++ rest = front' ++ "\n" ++ rest') :
    (∃ mid, front' = front ++ "\n" ++ mid ∧ rest = mid ++ "\n" ++ rest') ∨
      (front = front' ∧ rest = rest') ∨
      ∃ mid, front = front' ++ "\n" ++ mid ∧ rest' = mid ++ "\n" ++ rest := by
  -- a newline behind some characters, or in front of them, is one of the text
  have hright : ∀ {x y : String} {cs : List Char}, x.toList = y.toList ++ '\n' :: cs →
      x = y ++ "\n" ++ String.ofList cs := fun h => by simpa using eq_newline h
  have hleft : ∀ {x y : String} {cs : List Char}, x.toList = cs ++ '\n' :: y.toList →
      x = String.ofList cs ++ "\n" ++ y := fun h => by simpa using eq_newline h
  have hlist := congrArg String.toList h
  rw [toList_newline, toList_newline] at hlist
  rcases List.append_eq_append_iff.mp hlist with ⟨cs, hfront, hrest⟩ | ⟨cs, hfront, hrest⟩
  · rcases List.cons_eq_append_iff.mp hrest with ⟨rfl, heq⟩ | ⟨mid, rfl, hmid⟩
    · rw [List.append_nil] at hfront
      exact .inr (.inl ⟨(String.toList_inj.mp hfront).symm,
        String.toList_inj.mp (List.cons.inj heq).2.symm⟩)
    · exact .inl ⟨String.ofList mid, hright hfront, hleft hmid⟩
  · rcases List.cons_eq_append_iff.mp hrest with ⟨rfl, heq⟩ | ⟨mid, rfl, hmid⟩
    · rw [List.append_nil] at hfront
      exact .inr (.inl ⟨String.toList_inj.mp hfront,
        String.toList_inj.mp (List.cons.inj heq).2⟩)
    · exact .inr (.inr ⟨String.ofList mid, hright hfront, hleft hmid⟩)

/-- Below an accepted line that ends in a comment, tokens that add nothing to its tree are
separators. -/
lemma eq_semi_below {a rest : String} {s s' : Parser.State} {c : Command}
    (hkeep : (after a).phase.keepsNewline = false)
    (h : read .initial (begun a) = .ok s) (hs : s.Accepts c)
    (h' : read .initial (begun (a ++ "\n" ++ rest)) = .ok s') (hs' : s'.Accepts c) :
    ∀ t ∈ begun rest, t = .semi := by
  rw [begun_newline hkeep] at h'
  by_cases hnil : begun rest = []
  · simp [hnil]
  · rw [if_neg hnil] at h'
    exact eq_semi_of_accepts h hs h' hs'

/-- Behind a newline there are only separators if there are only separators in a text that holds
it. -/
lemma eq_semi_of_newline {a rest : String} (hkeep : (after a).phase.keepsNewline = false)
    (h : ∀ t ∈ begun (a ++ "\n" ++ rest), t = .semi) : ∀ t ∈ begun rest, t = .semi := by
  intro t ht
  refine h t ?_
  rw [begun_newline hkeep, if_neg (List.ne_nil_of_mem ht)]
  exact List.mem_append_right _ (List.mem_append_right _ ht)

/-- A newline in front of the end of a comment, below which there are only separators. -/
lemma passes_before {front mid below : String} {s : Parser.State}
    (hout : NewlinesOutside (front ++ "\n" ++ (mid ++ "\n" ++ below)))
    (h : read .initial (begun (front ++ "\n" ++ (mid ++ "\n" ++ below))) = .ok s)
    (hclear : (after front).phase ≠ .comment) (hidle : IdleNewline front mid)
    (hbelow : ∀ t ∈ begun below, t = .semi) : Passes front (mid ++ "\n" ++ below) := by
  have hkeep := hout front _ rfl
  refine ⟨hkeep, fun hcomment => (hclear hcomment).elim, ?_⟩
  cases hts : begun mid with
  | nil =>
    refine idleNewline_of_semi hkeep h fun t ht => ?_
    rw [begun_newline hout.right, hts] at ht
    split at ht
    · cases ht
    · exact hbelow t (List.mem_of_mem_head? ht)
  | cons u us =>
    intro hsep t ht
    refine hidle hsep t ?_
    rw [begun_newline hout.right, hts] at ht
    rw [hts]
    exact ht

/-- All newlines of a line pass if those in front of the first comment that a newline ends are idle,
and there are only separators below. -/
lemma passes_of_idleNewlines {a below : String} {s : Parser.State}
    (hout : NewlinesOutside (a ++ "\n" ++ below))
    (h : read .initial (begun (a ++ "\n" ++ below)) = .ok s)
    (hclear : ∀ front rest, a = front ++ "\n" ++ rest → (after front).phase ≠ .comment)
    (hidle : IdleNewlines a) (hbelow : ∀ t ∈ begun below, t = .semi) {front rest : String}
    (hsplit : a ++ "\n" ++ below = front ++ "\n" ++ rest) : Passes front rest := by
  have hlast : (∀ t ∈ begun rest, t = .semi) → Passes front rest := by
    intro hrest
    rw [hsplit] at h hout
    have hkeep := hout front rest rfl
    exact ⟨hkeep, fun _ => hrest,
      idleNewline_of_semi hkeep h fun t ht => hrest t (List.mem_of_mem_head? ht)⟩
  rcases newline_cases hsplit.symm with ⟨mid, rfl, rfl⟩ | ⟨rfl, rfl⟩ | ⟨mid, rfl, rfl⟩
  · rw [append_newline_assoc] at hout h
    exact passes_before hout h (hclear front mid rfl) (hidle front mid rfl) hbelow
  · exact hlast hbelow
  · exact hlast (eq_semi_of_newline hout.right hbelow)

/-- **Blanks that were cut off belong to no word** where the line is the same command on one line:
neither they nor what stands behind the end of a comment can hold characters of words. -/
lemma tokenize_of_parse {line full entry a : String} {cs : List Char} {ts : List Token}
    {c : Command} (hfull : full.toList = line.toList ++ cs)
    (hcs : ∀ d ∈ cs, Text.isBlank d = true) (hts : Token.tokenize full = .ok ts)
    (hafter : after entry = (after a).unbroken) (hout : NewlinesOutside line)
    (ha : line = a ∨ ∃ below, line = a ++ "\n" ++ below)
    (h : parse full = .ok c) (h' : parse entry = .ok c) : Token.tokenize line = .ok ts := by
  refine (tokenize_of_blanks isPlainChar_of_isBlank hfull hcs hts).resolve_left ?_
  have hsame := load_eq_of_parse (p := isPlainChar) (by decide) h h'
  have hvisible : (after entry).load isPlainChar = (after a).load isPlainChar := by
    rw [hafter, Scanner.State.load, Scanner.State.load, ← loadAll_unbroken (after a).out]
    rfl
  have hle : (after a).load isPlainChar ≤ (after line).load isPlainChar := by
    rcases ha with rfl | ⟨below, rfl⟩
    · exact Nat.le_refl _
    · rw [← State.load_lexemes (after (a ++ _ ++ _)), lexemes_newline (hout a below rfl),
        loadAll_append, State.load_lexemes]
      exact Nat.le_add_right ..
  omega

/-- **A line that is the same command on one line passes**, and the blanks at its end belong to no
word. -/
lemma passes_of_parse {line full entry : String} {cs : List Char} {c : Command}
    (hfull : full.toList = line.toList ++ cs) (hcs : ∀ d ∈ cs, Text.isBlank d = true)
    (hentry : entry.toList = flatten line.toList) (h : parse full = .ok c)
    (h' : parse entry = .ok c) : Token.tokenize line = Token.tokenize full ∧
      ∀ front rest, line = front ++ "\n" ++ rest → Passes front rest := by
  have hout : NewlinesOutside line := by
    intro front rest hline
    have hsplit : full = front ++ "\n" ++ (rest ++ String.ofList cs) :=
      String.toList_inj.mp (by rw [hfull, hline]; simp)
    exact outside_of_parse hentry hsplit h h'
  obtain ⟨a, hafter, hclear, ha⟩ := exists_visible hout
  rw [← hentry] at hafter
  obtain ⟨ts, hts, -⟩ := parse_eq_ok_iff.mp h
  have hline := tokenize_of_parse hfull hcs hts hafter hout (ha.imp_right And.left) h h'
  refine ⟨hline.trans hts.symm, ?_⟩
  -- what the parser makes of the line, and of the part that is left of it
  obtain ⟨s, hread, hc⟩ := (parse_iff_accepts hts c).mp h
  rw [← begun_of_tokenize hline] at hread
  obtain ⟨us, hus, -⟩ := parse_eq_ok_iff.mp h'
  obtain ⟨s', hread', hc'⟩ := (parse_iff_accepts hus c).mp h'
  obtain rfl : us = flatTokens a := by
    rw [tokenize_of_unbroken hafter] at hus
    obtain ⟨-, -, heq⟩ := exists_of_map_eq_ok hus
    exact heq.symm
  rcases ha with rfl | ⟨⟨below, rfl⟩, -⟩
  · intro front rest hsplit
    rw [← List.append_nil (begun line)] at hread
    exact ⟨hout front rest hsplit, fun hcomment => (hclear front rest hsplit hcomment).elim,
      idleNewlines_of_accepts hout hread hc hread' hc' front rest hsplit⟩
  · have hkeep := hout a below rfl
    have hmore := hread
    rw [begun_newline hkeep] at hmore
    have hidle := idleNewlines_of_accepts hout.left hmore hc hread' hc'
    obtain ⟨s₁, hs₁, -⟩ := exists_read_of_append hmore
    obtain rfl : s' = s₁ :=
      Except.ok.inj (hread'.symm.trans (read_flatTokens hout.left hidle hs₁))
    have hbelow := eq_semi_below hkeep hs₁ hc' hread hc
    exact fun front rest hsplit => passes_of_idleNewlines hout hread hclear hidle hbelow hsplit

/-! ## The stored entry -/

/-- A command that the history keeps as it is: without the blanks at its end it has the same tokens,
and all its newlines pass. -/
structure Recallable (line : String) : Prop where
  tokens : Token.tokenize (History.kept line) = Token.tokenize line
  passes : ∀ front rest, History.kept line = front ++ "\n" ++ rest → Passes front rest

/-- A newline and the blank that stands for it are both blanks. -/
lemma isBlank_flatten (c : Char) :
    Text.isBlank (if c = '\n' then ' ' else c) = Text.isBlank c := by
  split
  · rename_i h
    rw [h]
    decide
  · rfl

lemma toList_kept_oneLine (line : String) :
    (History.kept (Shell.oneLine line)).toList = flatten (History.kept line).toList := by
  have hblank : Text.isBlank ∘ (fun c : Char => if c = '\n' then ' ' else c) = Text.isBlank :=
    funext isBlank_flatten
  rw [History.kept, History.kept, String.toList_ofList, String.toList_ofList, Shell.oneLine,
    String.toList_map, Text.trimEnd, Text.trimEnd, flatten, ← List.map_reverse,
    List.dropWhile_map, hblank, List.map_reverse]

/-- What is cut off the end of a text is blank. -/
lemma exists_blanks (line : String) : ∃ cs, line.toList = (History.kept line).toList ++ cs ∧
    ∀ c ∈ cs, Text.isBlank c = true := by
  refine ⟨(line.toList.reverse.takeWhile Text.isBlank).reverse, ?_, fun c hc => ?_⟩
  · rw [History.kept, String.toList_ofList, Text.trimEnd, ← List.reverse_append,
      List.takeWhile_append_dropWhile, List.reverse_reverse]
  · exact List.mem_takeWhile_imp (List.mem_reverse.mp hc)

/-- The entry that a history has last when a command of several lines has been added. -/
lemma getLast?_add_oneLine {line : String} (hblank : (Text.trim line.toList).isEmpty = false)
    {hist : History} (hbound : 0 < hist.bound) :
    (hist.add (Shell.oneLine line)).1.entries.getLast? =
      some (History.kept (Shell.oneLine line)) := by
  have hskip : ¬((Shell.oneLine line).toList.all Text.isBlank ∨ hist.bound = 0) := by
    rintro (hall | hzero)
    · have hline : ∀ c ∈ line.toList, Text.isBlank c = true := by
        intro c hc
        rw [← isBlank_flatten]
        rw [Shell.oneLine, String.toList_map, List.all_map] at hall
        exact List.all_eq_true.mp hall c hc
      have htrim : Text.trim line.toList = [] := by
        rw [Text.trim, List.dropWhile_eq_nil_iff.mpr hline]
        rfl
      rw [htrim] at hblank
      cases hblank
    · omega
  rw [History.add_eq, if_neg hskip]
  split
  · assumption
  · exact (History.getLast?_keepLast hbound _).trans List.getLast?_concat

/-- **Which commands a history brings back.**  For every complete command that is not blank, the
entry that the history has last once the command has been added on one line is the same command
exactly if all its newlines pass and the blanks at its end belong to no word.

**Proof sketch.** Newlines in words are characters that the entry does not have, and tokens behind
the end of a comment are missing in it: so are characters of words that were cut off.  The parser
loses none of these, so the trees differ.  Where none is missing the tokens are the same but for the
separators that stood for newlines.  A separator that is not idle ends a simple command, or is
needed in front of the next element; without it the command goes on, or the parser rejects the
entry. -/
theorem parse_recalled_iff {line : String} {c : Command} (h : parse line = .ok c)
    (hblank : (Text.trim line.toList).isEmpty = false) {hist : History} (hbound : 0 < hist.bound) :
    ∃ entry, (hist.add (Shell.oneLine line)).1.entries.getLast? = some entry ∧
      (parse entry = .ok c ↔ Recallable line) := by
  have hentry := toList_kept_oneLine line
  obtain ⟨cs, hline, hcs⟩ := exists_blanks line
  refine ⟨_, getLast?_add_oneLine hblank hbound, fun h' => ?_, fun hrec => ?_⟩
  · obtain ⟨htokens, hpass⟩ := passes_of_parse hline hcs hentry h h'
    exact ⟨htokens, hpass⟩
  · obtain ⟨ts, hts, -⟩ := parse_eq_ok_iff.mp h
    have hparse : parse (History.kept line) = .ok c := by
      rw [parse_of_tokenize (hrec.tokens.trans hts), ← parse_of_tokenize hts, h]
    exact parse_flatten hentry hparse hrec.passes

/-- A newline behind an operator passes. -/
theorem parse_recalled_iff_operator :
    parse "a &&\nb" = .ok ⟨[⟨⟨[.simple ⟨["a"], [], false⟩], false⟩,
        [⟨.and, ⟨[.simple ⟨["b"], [], false⟩], false⟩⟩]⟩]⟩ ∧
      (Text.trim "a &&\nb".toList).isEmpty = false ∧ 0 < (History.new 1).bound ∧
      ∃ entry, ((History.new 1).add (Shell.oneLine "a &&\nb")).1.entries.getLast? = some entry ∧
        (parse entry = .ok ⟨[⟨⟨[.simple ⟨["a"], [], false⟩], false⟩,
          [⟨.and, ⟨[.simple ⟨["b"], [], false⟩], false⟩⟩]⟩]⟩ ↔ Recallable "a &&\nb") := by
  have hparse : parse "a &&\nb" = .ok ⟨[⟨⟨[.simple ⟨["a"], [], false⟩], false⟩,
      [⟨.and, ⟨[.simple ⟨["b"], [], false⟩], false⟩⟩]⟩]⟩ := rfl
  have hblank : (Text.trim "a &&\nb".toList).isEmpty = false := by decide +kernel
  exact ⟨hparse, hblank, Nat.one_pos, parse_recalled_iff hparse hblank Nat.one_pos⟩

/-- A subshell of two lines holds two commands; recalled, it holds one. -/
theorem parse_recalled_ne_subshell :
    Shell.enter "" "(a" = .error "(a\n" ∧ Shell.enter "(a\n" "b)" = .ok "(a\nb)" ∧
      parse "(a\nb)" = .ok ⟨[⟨⟨[.subshell ⟨[⟨⟨[.simple ⟨["a"], [], false⟩], false⟩, []⟩,
        ⟨⟨[.simple ⟨["b"], [], false⟩], false⟩, []⟩]⟩], false⟩, []⟩]⟩ ∧
      ((History.new 1).add (Shell.oneLine "(a\nb)")).1.entries.getLast? = some "(a b)" ∧
      parse "(a b)" = .ok ⟨[⟨⟨[.subshell ⟨[⟨⟨[.simple ⟨["a", "b"], [], false⟩], false⟩, []⟩]⟩],
        false⟩, []⟩]⟩ ∧
      parse "(a b)" ≠ parse "(a\nb)" := by
  refine ⟨by decide +kernel, by decide +kernel, rfl, by decide +kernel, rfl, fun h => ?_⟩
  cases h

end Conch.Command
