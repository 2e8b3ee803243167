import Conch.Name
import Conch.Proofs.Scanner
import Conch.Word

/-!
# What a quoted word stands for

The scanner finds the end of a word, and expansion finds out what the word stands for.  Both read
quotations and escapes, each by rules of its own.  This module describes words by the segments
that they are written with, and proves that the two agree on them: a text made of segments is one
word, and it expands to what its segments stand for.  The value of a parameter is taken as it is,
whatever characters it has.

## Main definitions

* `Conch.Word.Segment` — bare characters, escapes, quotations and parameters, with their text
  (`Segment.text`) and what they stand for (`Segment.value`).
* `Conch.Word.Spelling` — the segments of one word, and `Spelling.meaning` — what it stands for.

## Main results

* `Conch.Word.Segment.run_text` — the scanner takes a segment into the current word.
* `Conch.Word.Segment.pieces_text` — expansion takes a segment for its own pieces.
* `Conch.Word.expand_spelling` — the word and its only field.
-/

set_option autoImplicit false

namespace Conch.Word

/-! ## Segments -/

/-- The characters that mean more than themselves outside quotations. -/
def specials : List Char :=
  [' ', '\t', '\r', '\n', '\'', '"', '\\', '$', '*', '?', '[', ';', '|', '&', '(', ')', '<', '>']

/-- What stands between double quotes. -/
inductive QuotedPart where
  | plain (c : Char) (h : c ∉ ['"', '\\', '$'])
  /-- A backslash and one of the characters that it protects there. -/
  | escaped (c : Char) (h : c ∈ ['"', '\\', '$', '`'])
  /-- A name in braces behind `$`. -/
  | parameter (name : String) (h : Name.isName name = true)

/-- What a word is written with. -/
inductive Segment where
  | bare (c : Char) (h : c ∉ specials)
  /-- A backslash and any character. -/
  | escaped (c : Char)
  /-- A text in single quotes. -/
  | single (text : List Char) (h : '\'' ∉ text)
  /-- A quotation in double quotes. -/
  | double (parts : List QuotedPart)
  /-- A name in braces behind `$`. -/
  | parameter (name : String) (h : Name.isName name = true)
  /-- `$?` -/
  | status
  /-- `$!` -/
  | background

/-- A parameter as it is written. -/
def braced (name : String) : List Char := '$' :: '{' :: name.toList ++ ['}']

/-- The value of a variable; one that is not set has none. -/
def variableValue (s : Session) (name : String) : List Char := ((s.var? name).getD "").toList

namespace QuotedPart

/-- The part as it is written. -/
def text : QuotedPart → List Char
  | plain c _ => [c]
  | escaped c _ => ['\\', c]
  | parameter name _ => braced name

/-- What the part stands for. -/
def value (s : Session) : QuotedPart → List Char
  | plain c _ => [c]
  | escaped c _ => [c]
  | parameter name _ => variableValue s name

end QuotedPart

namespace Segment

/-- The segment as it is written. -/
def text : Segment → List Char
  | bare c _ => [c]
  | escaped c => ['\\', c]
  | single cs _ => '\'' :: cs ++ ['\'']
  | double parts => '"' :: parts.flatMap QuotedPart.text ++ ['"']
  | parameter name _ => braced name
  | status => ['$', '?']
  | background => ['$', '!']

/-- What the segment stands for by itself. -/
def value (s : Session) : Segment → List Char
  | bare c _ => [c]
  | escaped c => [c]
  | single cs _ => cs
  | double parts => parts.flatMap (QuotedPart.value s)
  | parameter name _ => variableValue s name
  | status => (toString s.status).toList
  | background => ((s.backgroundPid.map toString).getD "").toList

/-- The segment is a quotation or an escape. -/
def quotes : Segment → Bool
  | escaped _ | single .. | double _ => true
  | bare .. | parameter .. | status | background => false

/-- The segment is the bare character `c`. -/
def isBare (c : Char) : Segment → Bool
  | bare d _ => d = c
  | _ => false

end Segment

/-- The segments of one word: there is at least one, and the first is no `#`, which would start a
comment. -/
structure Spelling where
  first : Segment
  rest : List Segment
  first_ne_hash : first.isBare '#' = false

namespace Spelling

/-- All segments of the word. -/
def segments (w : Spelling) : List Segment := w.first :: w.rest

/-- The word as it is written. -/
def text (w : Spelling) : String := String.ofList (w.segments.flatMap Segment.text)

/-- The word starts with a bare `~` that is all of it or has a bare `/` behind it. -/
def startsAtHome (w : Spelling) : Bool :=
  w.first.isBare '~' && w.rest.head?.all (·.isBare '/')

/-- What the word stands for: what its segments stand for, in order, with the home directory for
a `~` that asks for it. -/
def meaning (w : Spelling) (s : Session) : List Char :=
  match s.home? with
  | some home =>
    if w.startsAtHome then home.toList ++ w.rest.flatMap (Segment.value s)
    else w.segments.flatMap (Segment.value s)
  | none => w.segments.flatMap (Segment.value s)

/-- Some segment of the word is a quotation or an escape. -/
def isQuoted (w : Spelling) : Bool := w.segments.any Segment.quotes

end Spelling

/-! ## Characters of names -/

lemma isInner_of_mem_name {name : String} (h : Name.isName name = true) {c : Char}
    (hc : c ∈ name.toList) : Name.isInner c = true := by
  unfold Name.isName at h
  split at h
  · cases h
  · rename_i d ds hname
    rw [hname] at hc
    simp only [Bool.and_eq_true, List.all_eq_true] at h
    rcases List.mem_cons.mp hc with rfl | hc
    · have hstart : c.isAlpha = true ∨ c = '_' := by simpa [Name.isStart] using h.1
      rcases hstart with hc | hc <;> simp [Name.isInner, Char.isAlphanum, hc]
    · exact h.2 c hc

/-- A name has none of the characters that no name has. -/
lemma not_mem_name {name : String} (h : Name.isName name = true) {c : Char}
    (hc : Name.isInner c = false) : c ∉ name.toList := by
  intro hmem
  rw [isInner_of_mem_name h hmem] at hc
  cases hc

/-! ## The scanner -/

section Scanner

open Conch.Scanner

/-- The character goes on with a word outside quotations and starts no quotation. -/
def IsWordChar (c : Char) : Prop := delimiter c = none ∧ c ≠ '\'' ∧ c ≠ '"' ∧ c ≠ '\\'

lemma isWordChar_of_not_mem_specials {c : Char} (h : c ∉ specials) : IsWordChar c := by
  simp only [specials, List.mem_cons, List.not_mem_nil, or_false, not_or] at h
  refine ⟨?_, by simp [h], by simp [h], by simp [h]⟩
  unfold delimiter
  split <;> simp_all

lemma isWordChar_of_mem_braced {name : String} (h : Name.isName name = true) {c : Char}
    (hc : c ∈ braced name) : IsWordChar c := by
  have hname : ∀ d ∈ name.toList, IsWordChar d := by
    intro d hd
    refine isWordChar_of_not_mem_specials fun hspecial => ?_
    have hinner : specials.all (fun e => !Name.isInner e) = true := by decide
    exact not_mem_name h (by simpa using List.all_eq_true.1 hinner d hspecial) hd
  simp only [braced, List.cons_append, List.mem_cons, List.mem_append, List.not_mem_nil,
    or_false] at hc
  rcases hc with rfl | rfl | hc | rfl
  · exact ⟨rfl, by decide, by decide, by decide⟩
  · exact ⟨rfl, by decide, by decide, by decide⟩
  · exact hname c hc
  · exact ⟨rfl, by decide, by decide, by decide⟩

/-- A character of a word in which something has been read. -/
lemma step_wordChar {c : Char} (hc : IsWordChar c) {word : List Char} (hword : word ≠ []) :
    step ⟨.bare, word, []⟩ c = ⟨.bare, c :: word, []⟩ := by
  rw [step_bare, State.read_of_delimiter_none hc.1 fun h => hword h.2]
  have hin : inWord word c = .bare := by
    unfold inWord
    split <;> simp_all [IsWordChar]
  rw [hin]

lemma run_wordChars {cs : List Char} (hcs : ∀ c ∈ cs, IsWordChar c) {word : List Char}
    (hword : word ≠ []) : run ⟨.bare, word, []⟩ cs = ⟨.bare, cs.reverse ++ word, []⟩ := by
  induction cs generalizing word with
  | nil => rfl
  | cons c cs ih =>
    rw [run_cons, step_wordChar (hcs c (.head _)) hword,
      ih (fun d hd => hcs d (.tail _ hd)) (List.cons_ne_nil c word)]
    simp

/-- A text that starts with `$` and goes on with characters of a word. -/
lemma run_dollar {cs : List Char} (hcs : ∀ c ∈ cs, IsWordChar c) (word : List Char) :
    run ⟨.bare, word, []⟩ ('$' :: cs) = ⟨.bare, ('$' :: cs).reverse ++ word, []⟩ := by
  have hdollar : step ⟨.bare, word, []⟩ '$' = ⟨.bare, '$' :: word, []⟩ := by
    rw [step_bare, State.read_of_delimiter_none rfl (by simp)]
    rfl
  rw [run_cons, hdollar, run_wordChars hcs (List.cons_ne_nil _ _)]
  simp

/-- Characters inside a quotation that do not end it and escape nothing. -/
lemma run_quoted {q : Quote} {cs : List Char}
    (hcs : ∀ c ∈ cs, c ≠ q.mark ∧ (q = .double → c ≠ '\\')) (word : List Char) :
    run ⟨.quoted q, word, []⟩ cs = ⟨.quoted q, cs.reverse ++ word, []⟩ := by
  induction cs generalizing word with
  | nil => rfl
  | cons c cs ih =>
    obtain ⟨hmark, hescape⟩ := hcs c (.head _)
    have hstep : step ⟨.quoted q, word, []⟩ c = ⟨.quoted q, c :: word, []⟩ := by
      have hno : ¬(q = .double ∧ c = '\\') := fun h => hescape h.1 h.2
      simp [step, hmark, hno]
    rw [run_cons, hstep, ih fun d hd => hcs d (.tail _ hd)]
    simp

/-- The scanner stays in the quotation while it reads a part of it. -/
lemma QuotedPart.run_text (part : QuotedPart) (word : List Char) :
    run ⟨.quoted .double, word, []⟩ part.text =
      ⟨.quoted .double, part.text.reverse ++ word, []⟩ := by
  cases part with
  | plain c h =>
    refine run_quoted (fun d hd => ?_) word
    obtain rfl : d = c := by simpa [text] using hd
    simp only [List.mem_cons, List.not_mem_nil, or_false, not_or] at h
    exact ⟨h.1, fun _ => h.2.1⟩
  | escaped c h => rfl
  | parameter name h =>
    refine run_quoted (fun d hd => ?_) word
    obtain ⟨-, -, hdouble, hescape⟩ := isWordChar_of_mem_braced h hd
    exact ⟨hdouble, fun _ => hescape⟩

lemma run_parts (parts : List QuotedPart) (word : List Char) :
    run ⟨.quoted .double, word, []⟩ (parts.flatMap QuotedPart.text) =
      ⟨.quoted .double, (parts.flatMap QuotedPart.text).reverse ++ word, []⟩ := by
  induction parts generalizing word with
  | nil => rfl
  | cons part parts ih =>
    rw [List.flatMap_cons, run_append, part.run_text, ih]
    simp

/-- The scanner is inside a word of which it has read `word`, outside quotations and escapes. -/
def Within (word : List Char) (st : Scanner.State) : Prop :=
  st = ⟨.bare, word, []⟩ ∨ st = ⟨.two, word, []⟩

/-- **The scanner takes a segment into the current word.** -/
lemma Segment.run_text (seg : Segment) (word : List Char)
    (hhash : word = [] → seg.isBare '#' = false) :
    Within (seg.text.reverse ++ word) (run ⟨.bare, word, []⟩ seg.text) := by
  cases seg with
  | bare c h =>
    have hc := isWordChar_of_not_mem_specials h
    have hcomment : ¬(c = '#' ∧ word = []) := by
      rintro ⟨rfl, hnil⟩
      simpa [isBare] using hhash hnil
    have hin : inWord word c = .bare ∨ inWord word c = .two := by
      unfold inWord
      split <;> simp_all [IsWordChar]
      exact (em (word = [])).symm
    have hstep : run ⟨.bare, word, []⟩ [c] = ⟨inWord word c, c :: word, []⟩ := by
      rw [run_cons, step_bare, State.read_of_delimiter_none hc.1 hcomment, run_nil]
    show Within _ (run _ [c])
    rw [hstep]
    rcases hin with hin | hin
    · exact .inl (by rw [hin]; rfl)
    · exact .inr (by rw [hin]; rfl)
  | escaped c => exact .inl rfl
  | single cs h =>
    have hcs : ∀ c ∈ cs, c ≠ Quote.single.mark ∧ (Quote.single = .double → c ≠ '\\') := by
      intro c hc
      refine ⟨?_, nofun⟩
      rintro rfl
      exact h hc
    refine .inl ?_
    show run ⟨.quoted .single, '\'' :: word, []⟩ (cs ++ ['\'']) = _
    rw [run_append, run_quoted hcs]
    simp [step, Quote.mark, Segment.text]
  | double parts =>
    refine .inl ?_
    show run ⟨.quoted .double, '"' :: word, []⟩ (parts.flatMap QuotedPart.text ++ ['"']) = _
    rw [run_append, run_parts]
    simp [step, Quote.mark, Segment.text]
  | parameter name h =>
    exact .inl (run_dollar (fun c hc => isWordChar_of_mem_braced h (.tail _ hc)) word)
  | status =>
    refine .inl (run_dollar (fun c hc => ?_) word)
    obtain rfl : c = '?' := by simpa using hc
    exact ⟨rfl, by decide, by decide, by decide⟩
  | background =>
    refine .inl (run_dollar (fun c hc => ?_) word)
    obtain rfl : c = '!' := by simpa using hc
    exact ⟨rfl, by decide, by decide, by decide⟩

/-- The first character of a segment: a bare one, or one that starts an escape, a quotation or a
parameter. -/
lemma Segment.text_eq_cons (seg : Segment) :
    ∃ c cs, seg.text = c :: cs ∧
      ((∃ h, seg = .bare c h) ∨ c ∈ ['\\', '\'', '"', '$'] ∧ ∀ d, seg.isBare d = false) := by
  cases seg with
  | bare c h => exact ⟨c, [], rfl, .inl ⟨h, rfl⟩⟩
  | escaped c => exact ⟨_, _, rfl, .inr ⟨by decide, fun _ => rfl⟩⟩
  | single cs h => exact ⟨_, _, rfl, .inr ⟨by decide, fun _ => rfl⟩⟩
  | double parts => exact ⟨_, _, rfl, .inr ⟨by decide, fun _ => rfl⟩⟩
  | parameter name h => exact ⟨_, _, rfl, .inr ⟨by decide, fun _ => rfl⟩⟩
  | status => exact ⟨_, _, rfl, .inr ⟨by decide, fun _ => rfl⟩⟩
  | background => exact ⟨_, _, rfl, .inr ⟨by decide, fun _ => rfl⟩⟩

/-- A `2` that starts the word is no redirection in front of a segment. -/
lemma Segment.run_text_of_within (seg : Segment) {word : List Char} {st : Scanner.State}
    (hst : Within word st) : run st seg.text = run ⟨.bare, word, []⟩ seg.text := by
  rcases hst with rfl | rfl
  · rfl
  · obtain ⟨c, cs, htext, hc⟩ := seg.text_eq_cons
    have hgt : c ≠ '>' := by
      rintro rfl
      rcases hc with ⟨h, -⟩ | ⟨h, -⟩
      · exact h (by decide)
      · exact absurd h (by decide)
    rw [htext, run_cons, run_cons, step_of_isOpen rfl, step_of_isOpen rfl]
    simp [Phase.extend, hgt, State.settle, Phase.pending]

/-- **The scanner takes all segments into the current word.** -/
lemma run_segments (segs : List Segment) {word : List Char} {st : Scanner.State}
    (hst : Within word st) (hword : word ≠ []) :
    Within ((segs.flatMap Segment.text).reverse ++ word)
      (run st (segs.flatMap Segment.text)) := by
  induction segs generalizing word st with
  | nil => exact hst
  | cons seg segs ih =>
    have hseg := seg.run_text word fun h => (hword h).elim
    have hne : seg.text.reverse ++ word ≠ [] := by simp [hword]
    rw [List.flatMap_cons, run_append, seg.run_text_of_within hst]
    simpa using ih hseg hne

/-- A text of segments is one word. -/
lemma Spelling.isWord (w : Spelling) : IsWord w.text := by
  obtain ⟨c, cs, htext, -⟩ := w.first.text_eq_cons
  have hfirst := w.first.run_text [] fun _ => w.first_ne_hash
  have hrun := run_segments w.rest hfirst (by simp [htext])
  refine ⟨?_, ?_⟩
  · intro hempty
    have hnil := congrArg String.toList hempty
    simp [Spelling.text, Spelling.segments, htext] at hnil
  · simpa [Spelling.text, Spelling.segments, after, State.initial, Within] using hrun

end Scanner

/-! ## Expansion -/

section Expansion

variable (s : Session) (self : Pid)

/-- Characters that belong to the piece in front are passed over. -/
lemma pieces_skip (q : Quoting) (cs rest : List Char) :
    pieces s self cs.length q (cs ++ rest) = pieces s self 0 q rest := by
  induction cs with
  | nil => rfl
  | cons c cs ih => simpa [pieces] using ih

/-- A name is looked up among the variables. -/
lemma lookup_name {name : String} (h : Name.isName name = true) :
    lookup s name = variableValue s name := by
  have hstatus : name ≠ "?" := by rintro rfl; revert h; decide
  have hbackground : name ≠ "!" := by rintro rfl; revert h; decide
  simp [lookup, hstatus, hbackground, variableValue]

/-- A name in braces, whatever follows it. -/
lemma parameter_braced {name : String} (h : Name.isName name = true) (rest : List Char) :
    parameter s self ('{' :: (name.toList ++ '}' :: rest)) =
      (variableValue s name, name.toList.length + 2) := by
  have hclose : '}' ∉ name.toList := not_mem_name h (by decide)
  have htake : (name.toList ++ '}' :: rest).takeWhile (· ≠ '}') = name.toList := by
    rw [List.takeWhile_append_of_pos fun c hc => by
      simpa using fun heq : c = '}' => hclose (heq ▸ hc)]
    simp
  have hmem : '}' ∈ name.toList ++ '}' :: rest := by simp
  simp only [parameter, if_pos hmem, htake, String.ofList_toList, lookup_name s h]

/-- Expansion takes a name in braces for its value, inside double quotes and outside. -/
lemma pieces_braced {name : String} (h : Name.isName name = true) {q : Quoting}
    (hq : q ≠ .single) (rest : List Char) :
    pieces s self 0 q (braced name ++ rest) =
      .literal (variableValue s name) :: pieces s self 0 q rest := by
  have hparam := parameter_braced s self h rest
  have hskip : pieces s self (name.toList.length + 2) q ('{' :: (name.toList ++ '}' :: rest)) =
      pieces s self 0 q rest := by
    simpa using pieces_skip s self q ('{' :: name.toList ++ ['}']) rest
  have htext : braced name ++ rest = '$' :: '{' :: (name.toList ++ '}' :: rest) := by
    simp [braced]
  rw [htext]
  -- what follows `$` is kept whole, so that only the piece in front of it is taken off
  generalize '{' :: (name.toList ++ '}' :: rest) = cs at hparam hskip
  cases q with
  | single => exact (hq rfl).elim
  | bare => simp [pieces, hparam, hskip]
  | double => simp [pieces, hparam, hskip]

/-- The pieces of a segment. -/
def Segment.pieces (s : Session) : Segment → List Piece
  | .bare c _ => [.literal [c]]
  | .escaped c => [.quoted, .literal [c]]
  | .single cs _ => .quoted :: cs.map fun c => .literal [c]
  | .double parts => .quoted :: parts.map fun part => .literal (part.value s)
  | .parameter name _ => [.literal (variableValue s name)]
  | .status => [.literal (toString s.status).toList]
  | .background => [.literal ((s.backgroundPid.map toString).getD "").toList]

lemma pieces_single {cs : List Char} (h : '\'' ∉ cs) (rest : List Char) :
    pieces s self 0 .single (cs ++ '\'' :: rest) =
      cs.map (fun c => .literal [c]) ++ pieces s self 0 .bare rest := by
  induction cs with
  | nil => simp [pieces]
  | cons c cs ih =>
    have hc : c ≠ '\'' := fun heq => h (by simp [heq])
    have hcs : '\'' ∉ cs := fun hmem => h (.tail _ hmem)
    simp [pieces, hc, ih hcs]

lemma pieces_quotedPart (part : QuotedPart) (rest : List Char) :
    pieces s self 0 .double (part.text ++ rest) =
      .literal (part.value s) :: pieces s self 0 .double rest := by
  cases part with
  | plain c h =>
    simp only [List.mem_cons, List.not_mem_nil, or_false, not_or] at h
    simp [QuotedPart.text, QuotedPart.value, pieces, h]
  | escaped c h => simp [QuotedPart.text, QuotedPart.value, pieces, h]
  | parameter name h => exact pieces_braced s self h (by decide) rest

lemma pieces_double (parts : List QuotedPart) (rest : List Char) :
    pieces s self 0 .double (parts.flatMap QuotedPart.text ++ '"' :: rest) =
      parts.map (fun part => .literal (part.value s)) ++ pieces s self 0 .bare rest := by
  induction parts with
  | nil => simp [pieces]
  | cons part parts ih =>
    rw [List.flatMap_cons, List.append_assoc, pieces_quotedPart, ih]
    rfl

/-- **Expansion takes a segment for its own pieces**, whatever follows it. -/
lemma Segment.pieces_text (seg : Segment) (rest : List Char) :
    Word.pieces s self 0 .bare (seg.text ++ rest) =
      seg.pieces s ++ Word.pieces s self 0 .bare rest := by
  cases seg with
  | bare c h =>
    simp only [specials, List.mem_cons, List.not_mem_nil, or_false, not_or] at h
    simp [Segment.text, Segment.pieces, Word.pieces, h]
  | escaped c => simp [Segment.text, Segment.pieces, Word.pieces]
  | single cs h =>
    simpa [Segment.text, Segment.pieces, Word.pieces] using pieces_single s self h rest
  | double parts =>
    simpa [Segment.text, Segment.pieces, Word.pieces] using pieces_double s self parts rest
  | parameter name h => exact pieces_braced s self h (by decide) rest
  | status => simp [Segment.text, Segment.pieces, Word.pieces, Word.parameter, lookup]
  | background => simp [Segment.text, Segment.pieces, Word.pieces, Word.parameter, lookup]

lemma pieces_segments (segs : List Segment) :
    pieces s self 0 .bare (segs.flatMap Segment.text) = segs.flatMap (Segment.pieces s) := by
  induction segs with
  | nil => rfl
  | cons seg segs ih => rw [List.flatMap_cons, Segment.pieces_text, ih, List.flatMap_cons]

/-- The pieces of a segment spell what it stands for, ask for no files, and mark the segment as
quoted if it is. -/
lemma Segment.pieces_spec (seg : Segment) :
    (seg.pieces s).flatMap Piece.text = seg.value s ∧
      (seg.pieces s).any Piece.isWildcard = false ∧
      (Piece.quoted ∈ seg.pieces s ↔ seg.quotes = true) := by
  cases seg with
  | single cs h =>
    simp [Segment.pieces, Segment.value, Segment.quotes, Piece.text, Piece.isWildcard,
      List.flatMap_map]
  | double parts =>
    simp [Segment.pieces, Segment.value, Segment.quotes, Piece.text, Piece.isWildcard,
      List.flatMap_map]
  | _ => simp [Segment.pieces, Segment.value, Segment.quotes, Piece.text, Piece.isWildcard]

lemma flatMap_pieces_spec (segs : List Segment) :
    (segs.flatMap (Segment.pieces s)).flatMap Piece.text = segs.flatMap (Segment.value s) ∧
      (segs.flatMap (Segment.pieces s)).any Piece.isWildcard = false ∧
      (Piece.quoted ∈ segs.flatMap (Segment.pieces s) ↔ segs.any Segment.quotes = true) := by
  induction segs with
  | nil => simp
  | cons seg segs ih =>
    obtain ⟨htext, hwildcard, hquoted⟩ := seg.pieces_spec s
    obtain ⟨htexts, hwildcards, hquoteds⟩ := ih
    refine ⟨?_, ?_, ?_⟩
    · rw [List.flatMap_cons, List.flatMap_append, htext, htexts, List.flatMap_cons]
    · rw [List.flatMap_cons, List.any_append, hwildcard, hwildcards]
      rfl
    · rw [List.flatMap_cons, List.mem_append, hquoted, hquoteds, List.any_cons,
        Bool.or_eq_true_iff]

/-- The first character of a text of segments is a bare one, or starts an escape, a quotation or a
parameter. -/
lemma head?_flatMap_text (segs : List Segment) {c : Char} (hc : c ∉ ['\\', '\'', '"', '$']) :
    (segs.flatMap Segment.text).head? = some c ↔ segs.head?.any (·.isBare c) = true := by
  cases segs with
  | nil => simp
  | cons seg segs =>
    obtain ⟨d, ds, htext, ⟨h, rfl⟩ | ⟨hd, hbare⟩⟩ := seg.text_eq_cons
    · simp [Segment.text, Segment.isBare]
    · have hne : d ≠ c := by
        rintro rfl
        exact hc hd
      simp [htext, hne, hbare]

/-- A text that starts with no `~` is left as it is. -/
lemma tilde_of_head?_ne {cs : List Char} (h : cs.head? ≠ some '~') : tilde s cs = ([], cs) := by
  unfold tilde
  split
  · exact (h rfl).elim
  · rfl

/-- A `~` asks for the home directory where it is all of the word or a bare `/` follows. -/
lemma tilde_text (w : Spelling) :
    tilde s w.text.toList = match s.home? with
      | some home =>
        if w.startsAtHome then ([.literal home.toList], w.rest.flatMap Segment.text)
        else ([], w.segments.flatMap Segment.text)
      | none => ([], w.segments.flatMap Segment.text) := by
  have htext : w.text.toList = w.segments.flatMap Segment.text := by simp [Spelling.text]
  have hhead := head?_flatMap_text w.segments (c := '~') (by decide)
  have hslash := head?_flatMap_text w.rest (c := '/') (by decide)
  rw [htext]
  cases hfirst : w.first.isBare '~' with
  | false =>
    have hne : (w.segments.flatMap Segment.text).head? ≠ some '~' := by
      rw [ne_eq, hhead]
      simp [Spelling.segments, hfirst]
    rw [tilde_of_head?_ne s hne]
    cases s.home? <;> simp [Spelling.startsAtHome, hfirst]
  | true =>
    have hall : w.segments.flatMap Segment.text = '~' :: w.rest.flatMap Segment.text := by
      obtain ⟨c, cs, -, ⟨h, hbare⟩ | ⟨-, hbare⟩⟩ := w.first.text_eq_cons
      · obtain rfl : c = '~' := by simpa [hbare, Segment.isBare] using hfirst
        simp [Spelling.segments, hbare, Segment.text]
      · simp [hbare] at hfirst
    have hends : ((w.rest.flatMap Segment.text).isEmpty ||
        (w.rest.flatMap Segment.text).head? = some '/') = w.startsAtHome := by
      rw [Bool.eq_iff_iff, Bool.or_eq_true_iff, decide_eq_true_iff, hslash]
      cases hrest : w.rest with
      | nil => simp [Spelling.startsAtHome, hfirst, hrest]
      | cons seg segs =>
        obtain ⟨c, cs, hseg, -⟩ := seg.text_eq_cons
        simp [Spelling.startsAtHome, hfirst, hrest, hseg]
    rw [hall, tilde.eq_def]
    cases s.home? with
    | none => rfl
    | some home => simp only [hends]

/-- **The pieces of a word** spell what it stands for, ask for no files, and mark the word as
quoted if it is. -/
lemma allPieces_spec (w : Spelling) :
    (allPieces s self w.text).flatMap Piece.text = w.meaning s ∧
      (allPieces s self w.text).any Piece.isWildcard = false ∧
      (Piece.quoted ∈ allPieces s self w.text ↔ w.isQuoted = true) := by
  have hall := flatMap_pieces_spec s w.segments
  have hrest := flatMap_pieces_spec s w.rest
  unfold allPieces Spelling.meaning Spelling.isQuoted
  rw [tilde_text]
  cases s.home? with
  | none => simpa [pieces_segments] using hall
  | some home =>
    cases hstarts : w.startsAtHome with
    | false => simpa [pieces_segments] using hall
    | true =>
      have hquotes : w.first.quotes = false := by
        obtain ⟨c, cs, -, ⟨h, hbare⟩ | ⟨-, hbare⟩⟩ := w.first.text_eq_cons
        · rw [hbare]
          rfl
        · simp [Spelling.startsAtHome, hbare] at hstarts
      simpa [pieces_segments, Piece.text, Piece.isWildcard, Spelling.segments, hquotes] using hrest

end Expansion

/-- **A quoted word stands for what its segments stand for.**  The text of a spelling is one word.
It expands to a single field, which is the meaning of the spelling, unless the meaning is empty
and nothing is quoted: then there is no field.

**Proof sketch.** The scanner takes each segment into the current word and is outside quotations
behind it, so the whole text is one word.  Expansion takes each segment for pieces of its own,
among which no wildcard is, so no file is looked for and the texts of the pieces make the
field. -/
theorem expand_spelling (w : Spelling) (s : Session) (t : FileTree) (self : Pid) :
    Token.tokenize w.text = .ok [.word w.text] ∧
      expand s t self w.text =
        if w.meaning s = [] ∧ w.isQuoted = false then [] else [String.ofList (w.meaning s)] := by
  obtain ⟨htext, hwildcard, hquoted⟩ := allPieces_spec s self w
  constructor
  · have hspells := Scanner.Spells.cons (t := .word w.text) w.isWord (by simp [Scanner.Breaks]) .nil
    exact Scanner.Spells.tokenize (by simpa [Token.describe] using hspells)
  · simp [expand, htext, hwildcard, hquoted]

/-- The word `${X}`. -/
def unsetWord : Spelling := ⟨.parameter "X" rfl, [], rfl⟩

/-- A bare parameter that is not set yields no field, and not the empty one that is its meaning. -/
theorem expand_unset_parameter :
    unsetWord.text = "$\x7bX\x7d" ∧ expand (.new "/" .empty) .empty 1 unsetWord.text = [] ∧
      expand (.new "/" .empty) .empty 1 unsetWord.text ≠
        [String.ofList (unsetWord.meaning (.new "/" .empty))] := by
  have hnone : expand (.new "/" .empty) .empty 1 unsetWord.text = [] := by decide +kernel
  exact ⟨rfl, hnone, by simp [hnone]⟩

end Conch.Word
