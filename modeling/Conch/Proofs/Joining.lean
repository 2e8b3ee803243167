import Conch.Proofs.Scanner
import Conch.Shell

/-!
# Lines joined by a backslash

A backslash at the end of a line joins it with the next one, unless it stands inside a quotation,
where it is a character like any other.  Whether a quotation is open there depends on all lines in
front of it; `Shell.enter` looks at the line alone.  Here the two are compared.  They agree behind
every text that leaves the scanner between two words, whatever the line is.  Inside a quotation that
an earlier line has opened they differ, in both directions: a backslash that belongs to the
quotation is taken away, and one behind the end of the quotation is left.

## Main definitions

* `Shell.LeavesOpen` — a text ends inside a quotation.
* `Shell.joinRule` — what a line makes of the lines in front of it, if all of them count.
* `Shell.enterAll` — lines one after the other, by some rule.
* `Scanner.State.posture` — all that decides which quotations open and close behind a text.
* `Shell.Rests` — a text leaves the scanner between two words.

## Main results

* `Scanner.posture_run` — what a text does to quotations is a matter of posture.
* `Shell.enter_eq_joinRule_iff` — **where joining lines respects quotations**.
* `Shell.enterAll_inside_quotation` — two commands of three lines for which it does not.
-/

set_option autoImplicit false

namespace Conch

namespace Scanner

/-! ## Postures -/

/-- The phase stands inside a quotation. -/
def Phase.isQuoted : Phase → Bool
  | quoted _ | quotedEscape => true
  | _ => false

/-- The phase, where behind `|`, `&` and `>` counts as behind a blank: what continues one of these
operators ends a word as well. -/
def Phase.merged : Phase → Phase
  | bar | amp | gt => bare
  | p => p

/-- All that decides which quotations open and close behind a text: the phase, and whether a word
has begun, so that a `#` belongs to it. -/
def State.posture (s : State) : Phase × Bool := (s.phase.merged, s.word.isEmpty)

lemma isQuoted_merged (p : Phase) : p.merged.isQuoted = p.isQuoted := by
  cases p <;> rfl

/-- What an unquoted character does depends on the word only by whether there is one. -/
lemma posture_read {s s' : State} (h : s.word.isEmpty = s'.word.isEmpty) (c : Char) :
    (s.read c).posture = (s'.read c).posture := by
  have hnil : s.word = [] ↔ s'.word = [] := by
    rw [← List.isEmpty_iff, ← List.isEmpty_iff, h]
  have hphase : inWord s.word c = inWord s'.word c := by
    unfold inWord
    split <;> simp only [hnil]
  unfold State.read
  simp only [hnil, hphase]
  split
  · rfl
  · split <;> rfl

/-- A character that continues `|`, `&` or `>` ends a word, as it does anywhere else. -/
lemma posture_step_operator {s : State} (hs : s.phase.merged = .bare) (c : Char) :
    (step s c).posture = (s.read c).posture := by
  obtain ⟨p, word, out⟩ := s
  have hopen : p.isOpen = true := by
    cases p <;> first | rfl | cases hs
  rw [step_of_isOpen hopen]
  dsimp only
  cases hext : p.extend c with
  | none =>
    have hword : (State.mk p word out).settle.word.isEmpty = word.isEmpty := rfl
    exact posture_read hword c
  | some next =>
    obtain ⟨p', ls⟩ := next
    unfold Phase.extend at hext
    split at hext
    case h_1 | h_2 | h_3 | h_4 | h_5 => cases hext; rfl
    case h_12 => cases hext
    all_goals cases hs

/-- In the same phase, what a character does depends on the word only by whether there is one. -/
lemma posture_step_phase {p : Phase} {word word' : List Char} {out out' : List Lexeme}
    (h : word.isEmpty = word'.isEmpty) (c : Char) :
    (step ⟨p, word, out⟩ c).posture = (step ⟨p, word', out'⟩ c).posture := by
  cases p with
  | escape | quoted _ | quotedEscape => rfl
  | comment =>
    simp only [step]
    split
    · rfl
    · simp only [State.posture, h]
  | bare | bar | amp | gt | two | twoGt | twoGtAmp =>
    rw [step_of_isOpen rfl, step_of_isOpen rfl]
    dsimp only
    split
    · rfl
    · exact posture_read h c

/-- The posture behind a character depends only on the posture before it. -/
lemma posture_step {s s' : State} (h : s.posture = s'.posture) (c : Char) :
    (step s c).posture = (step s' c).posture := by
  obtain ⟨hphase, hword⟩ := Prod.mk.inj h
  by_cases hbare : s.phase.merged = .bare
  · rw [posture_step_operator hbare, posture_step_operator (hphase ▸ hbare), posture_read hword]
  · obtain ⟨p, word, out⟩ := s
    obtain ⟨p', word', out'⟩ := s'
    have hp : p = p' := by
      cases p <;> cases p' <;> first | exact hphase | exact absurd rfl hbare | cases hphase
    subst hp
    exact posture_step_phase hword c

/-- **What a text does to quotations is a matter of posture.** -/
lemma posture_run {s s' : State} (h : s.posture = s'.posture) (cs : List Char) :
    (run s cs).posture = (run s' cs).posture := by
  induction cs generalizing s s' with
  | nil => exact h
  | cons c cs ih => exact ih (posture_step h c)

/-! ## Text without quotation marks -/

/-- A character that is no quotation mark neither opens nor closes a quotation. -/
lemma isQuoted_step {c : Char} (hc : ∀ q : Quote, c ≠ q.mark) (s : State) :
    (step s c).phase.isQuoted = s.phase.isQuoted := by
  have hsingle : c ≠ '\'' := hc .single
  have hdouble : c ≠ '"' := hc .double
  have hread (s : State) : (s.read c).phase.isQuoted = false := by
    unfold State.read
    split
    case h_1 p ls hdelimiter =>
      unfold delimiter at hdelimiter
      split at hdelimiter <;> cases hdelimiter <;> rfl
    case h_2 =>
      split
      · rfl
      · unfold inWord
        split <;> first | contradiction | rfl | split <;> rfl
  obtain ⟨p, word, out⟩ := s
  cases p with
  | escape | quotedEscape => rfl
  | quoted q =>
    simp only [step, if_neg (hc q)]
    split <;> rfl
  | comment =>
    simp only [step]
    split <;> rfl
  | bare | bar | amp | gt | two | twoGt | twoGtAmp =>
    rw [step_of_isOpen rfl]
    split
    case h_1 next ls hext =>
      unfold Phase.extend at hext
      split at hext <;> cases hext <;> rfl
    case h_2 => exact hread _

lemma isQuoted_run {cs : List Char} (h : ∀ q : Quote, q.mark ∉ cs) (s : State) :
    (run s cs).phase.isQuoted = s.phase.isQuoted := by
  induction cs generalizing s with
  | nil => rfl
  | cons c cs ih =>
    have hc : ∀ q : Quote, c ≠ q.mark := fun q heq => h q (by simp [heq])
    have hcs : ∀ q : Quote, q.mark ∉ cs := fun q hmem => h q (by simp [hmem])
    rw [run_cons, ih hcs, isQuoted_step hc]

end Scanner

open Scanner (after)

namespace Shell

/-! ## The rule -/

/-- The text ends inside a quotation. -/
def LeavesOpen (text : String) : Prop := ∃ q, Token.tokenize text = .error q

instance (text : String) : Decidable (LeavesOpen text) :=
  match h : Token.tokenize text with
  | .ok _ => isFalse fun ⟨_, hq⟩ => by simp [h] at hq
  | .error q => isTrue ⟨q, h⟩

/-- The line ends in an odd number of backslashes. -/
def EndsOdd (line : String) : Prop := (line.toList.reverse.takeWhile (· = '\\')).length % 2 = 1

instance (line : String) : Decidable (EndsOdd line) := inferInstanceAs (Decidable (_ = _))

/-- What a line makes of the lines in front of it: it is joined with the next line if it ends in an
odd number of backslashes and no quotation is open there, whichever line has opened it. -/
def joinRule (entered line : String) : Except String String :=
  if EndsOdd line ∧ ¬LeavesOpen (entered ++ line) then
    .error (entered ++ String.ofList line.toList.dropLast)
  else if Command.needsContinuation (entered ++ line) then .error (entered ++ line ++ "\n")
  else .ok (entered ++ line)

/-- Lines one after the other, behind a text: the command that they make by some rule, with the
lines that are left, or the text that goes on. -/
def enterAll (rule : String → String → Except String String) :
    String → List String → Except String (String × List String)
  | entered, [] => .error entered
  | entered, line :: rest => match rule entered line with
    | .error text => enterAll rule text rest
    | .ok command => .ok (command, rest)

/-- The line leaves a quotation open by itself exactly if it does behind the text, as far as that
matters. -/
def Clear (entered line : String) : Prop :=
  EndsOdd line → (LeavesOpen line ↔ LeavesOpen (entered ++ line))

instance (entered line : String) : Decidable (Clear entered line) :=
  inferInstanceAs (Decidable (_ → (_ ↔ _)))

/-- Each of the lines is clear behind the text that the lines in front of it have come to. -/
def ClearAll : String → List String → Prop
  | _, [] => True
  | entered, line :: rest =>
    Clear entered line ∧ ∀ text, enter entered line = .error text → ClearAll text rest

/-- The text leaves the scanner between two words, as it is at the start. -/
def Rests (text : String) : Prop := (after text).posture = Scanner.State.initial.posture

instance (text : String) : Decidable (Rests text) := inferInstanceAs (Decidable (_ = _))

/-! ## Open quotations -/

lemma leavesOpen_iff (text : String) :
    LeavesOpen text ↔ (after text).phase.isQuoted = true := by
  unfold LeavesOpen
  rw [Scanner.tokenize_eq]
  unfold Scanner.State.finish
  split
  case h_1 q hq => simp [hq, Scanner.Phase.isQuoted]
  case h_2 hq => simp [hq, Scanner.Phase.isQuoted]
  case h_3 hquoted hescape =>
    have hfalse : (after text).phase.isQuoted = false := by
      cases hp : (after text).phase <;>
        first | rfl | exact absurd hp (hquoted _) | exact absurd hp hescape
    simp [hfalse]

/-- Behind a text at rest, a line opens and closes the quotations that it does by itself. -/
lemma leavesOpen_append_of_rests {entered : String} (h : Rests entered) (line : String) :
    LeavesOpen (entered ++ line) ↔ LeavesOpen line := by
  have hposture : (after (entered ++ line)).posture = (after line).posture := by
    rw [Scanner.after_append]
    exact Scanner.posture_run h line.toList
  have hphase := congrArg (fun p => p.1.isQuoted) hposture
  simp only [Scanner.State.posture, Scanner.isQuoted_merged] at hphase
  rw [leavesOpen_iff, leavesOpen_iff, hphase]

/-- A line without quotation marks is inside a quotation if the text in front of it is. -/
lemma leavesOpen_append_of_no_mark {line : String} (h : ∀ q : Quote, q.mark ∉ line.toList)
    (entered : String) : LeavesOpen (entered ++ line) ↔ LeavesOpen entered := by
  rw [leavesOpen_iff, leavesOpen_iff, Scanner.after_append, Scanner.isQuoted_run h]

lemma not_leavesOpen_of_no_mark {line : String} (h : ∀ q : Quote, q.mark ∉ line.toList) :
    ¬LeavesOpen line := by
  rw [leavesOpen_iff, after, Scanner.isQuoted_run h]
  decide

/-! ## One line -/

/-- A line is joined if it ends in an odd number of backslashes and does not by itself end inside a
quotation. -/
lemma enter_eq (entered line : String) :
    enter entered line =
      if EndsOdd line ∧ ¬LeavesOpen line then
        .error (entered ++ String.ofList line.toList.dropLast)
      else if Command.needsContinuation (entered ++ line) then .error (entered ++ line ++ "\n")
      else .ok (entered ++ line) := by
  have hjoined : joined? line =
      if EndsOdd line ∧ ¬LeavesOpen line then some (String.ofList line.toList.dropLast)
      else none := by
    cases hline : Token.tokenize line with
    | ok ts => simp [joined?, EndsOdd, LeavesOpen, hline]
    | error q => simp [joined?, EndsOdd, LeavesOpen, hline]
  unfold enter
  rw [hjoined]
  by_cases hjoin : EndsOdd line ∧ ¬LeavesOpen line
  · rw [if_pos hjoin, if_pos hjoin]
  · rw [if_neg hjoin, if_neg hjoin]

/-- A line that is joined is shorter than it is when it enters the text as it is. -/
lemma joined_ne (entered line : String) :
    (.error (entered ++ String.ofList line.toList.dropLast) : Except String String) ≠
      if Command.needsContinuation (entered ++ line) then .error (entered ++ line ++ "\n")
      else .ok (entered ++ line) := by
  split
  · intro heq
    have hlength := congrArg String.length (Except.error.inj heq)
    simp only [String.length_append, String.length_ofList, List.length_dropLast,
      String.length_toList] at hlength
    have hnewline : ("\n" : String).length = 1 := rfl
    omega
  · exact fun heq => nomatch heq

/-- One line is treated by the rule exactly if it is clear. -/
lemma enter_eq_joinRule {entered line : String} :
    enter entered line = joinRule entered line ↔ Clear entered line := by
  have hne := joined_ne entered line
  rw [enter_eq, joinRule, Clear]
  by_cases hodd : EndsOdd line
  · by_cases hline : LeavesOpen line <;> by_cases hall : LeavesOpen (entered ++ line) <;>
      simp only [hodd, hline, hall, true_and, not_true_eq_false, not_false_eq_true, if_true,
        if_false, iff_true, iff_false, true_implies, iff_self]
    · exact hne.symm
    · exact hne
  · simp only [hodd, false_and, if_false, false_implies]

lemma enterAll_eq_of_clearAll {entered : String} {lines : List String}
    (h : ClearAll entered lines) :
    enterAll enter entered lines = enterAll joinRule entered lines := by
  induction lines generalizing entered with
  | nil => rfl
  | cons line rest ih =>
    obtain ⟨hclear, hrest⟩ := h
    simp only [enterAll, ← enter_eq_joinRule.2 hclear]
    split
    case h_1 text htext => exact ih (hrest text htext)
    case h_2 => rfl

/-- **Where joining lines respects quotations.**  A line is treated by the rule, with all lines in
front of it in view, exactly if it ends in an even number of backslashes, or ends inside a quotation
by itself exactly if it does behind these lines.  So it is behind every text that leaves the scanner
between two words.  A line without quotation marks that ends in an odd number of backslashes is
treated by the rule exactly if no quotation is open in front of it.  And lines that are all clear
make the command that they make by the rule.

**Proof sketch.** A joined line makes a text that is shorter than the other one (`joined_ne`), so
the two agree exactly if they decide alike.  Behind a text at rest the scanner reads the line from
the posture that it starts with (`posture_run`); a text without quotation marks leaves the scanner
inside or outside a quotation, as it was (`isQuoted_run`). -/
theorem enter_eq_joinRule_iff (entered line : String) :
    (enter entered line = joinRule entered line ↔
      (EndsOdd line → (LeavesOpen line ↔ LeavesOpen (entered ++ line)))) ∧
    (Rests entered → enter entered line = joinRule entered line) ∧
    (EndsOdd line → (∀ q : Quote, q.mark ∉ line.toList) →
      (enter entered line = joinRule entered line ↔ ¬LeavesOpen entered)) ∧
    ∀ lines, ClearAll entered lines →
      enterAll enter entered lines = enterAll joinRule entered lines := by
  refine ⟨enter_eq_joinRule, fun hrests => ?_, fun hodd hmark => ?_,
    fun _ => enterAll_eq_of_clearAll⟩
  · exact enter_eq_joinRule.2 fun _ => (leavesOpen_append_of_rests hrests line).symm
  · have hline := not_leavesOpen_of_no_mark hmark
    rw [enter_eq_joinRule, Clear, leavesOpen_append_of_no_mark hmark]
    simp only [hodd, hline, true_implies, false_iff]

/-- The lines `echo a;\` and `echo 'b' \` and a third one are all clear, and so is the second behind
the first; a line `b\` behind `echo 'a` is not. -/
theorem enter_eq_joinRule_both_ways :
    (Rests "echo a;" ∧ enter "echo a;" "echo 'b' \\" = joinRule "echo a;" "echo 'b' \\") ∧
    (LeavesOpen "echo 'a\n" ∧ EndsOdd "b\\" ∧ (∀ q : Quote, q.mark ∉ "b\\".toList) ∧
      enter "echo 'a\n" "b\\" ≠ joinRule "echo 'a\n" "b\\") ∧
    (ClearAll "" ["echo a;\\", "echo 'b' \\", "c"] ∧
      enterAll joinRule "" ["echo a;\\", "echo 'b' \\", "c"] = .ok ("echo a;echo 'b' c", [])) := by
  have hrests : Rests "echo a;" := by decide
  have hopen : LeavesOpen "echo 'a\n" := by decide
  have hodd : EndsOdd "b\\" := by decide
  have hmark : ∀ q : Quote, q.mark ∉ "b\\".toList := by
    intro q
    cases q <;> decide
  have hclear : ClearAll "" ["echo a;\\", "echo 'b' \\", "c"] := by
    refine ⟨by decide, fun text htext => ?_⟩
    cases htext
    refine ⟨by decide, fun text htext => ?_⟩
    cases htext
    exact ⟨by decide, fun _ _ => trivial⟩
  refine ⟨⟨hrests, (enter_eq_joinRule_iff _ _).2.1 hrests⟩, ⟨hopen, hodd, hmark, fun heq => ?_⟩,
    hclear, ?_⟩
  · exact ((enter_eq_joinRule_iff _ _).2.2.1 hodd hmark).1 heq hopen
  · exact ((enter_eq_joinRule_iff _ "").2.2.2 _ hclear).symm.trans rfl

/-- **Inside a quotation that an earlier line has opened, lines are not joined by the rule.**  The
backslash of the second line belongs to the quotation and is taken away; in the other command it
stands behind the quotation, and the line is not joined. -/
theorem enterAll_inside_quotation :
    enterAll enter "" ["echo 'a", "b\\", "c'"] = .ok ("echo 'a\nbc'", []) ∧
    enterAll joinRule "" ["echo 'a", "b\\", "c'"] = .ok ("echo 'a\nb\\\nc'", []) ∧
    enterAll enter "" ["echo 'a", "b' \\", "c"] = .ok ("echo 'a\nb' \\", ["c"]) ∧
    enterAll joinRule "" ["echo 'a", "b' \\", "c"] = .ok ("echo 'a\nb' c", []) :=
  ⟨rfl, rfl, rfl, rfl⟩

end Shell

end Conch
