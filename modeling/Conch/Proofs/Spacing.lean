import Conch.Proofs.RoundTrip

/-!
# Tokens written with single blanks

A line may write its tokens close together or far apart, over several lines, with comments in
between, and may write a newline for a `;`.  Written again as they are described, with one blank
between any two, the same tokens are found: no blank splits a token or merges two of them, and
nothing that depended on what stood around a token is lost.  So the tokens of a line have one
canonical text, which stands for all lines that have them, accepted or not.

## Main definitions

* `Token.spaced` — the descriptions of tokens with single blanks between them.

## Main results

* `Scanner.Apart.spells_spaced` — tokens that stand apart are spelled by their canonical text.
* `Token.exists_tokenize_iff`, `Token.tokenize_spaced_iff` — the lists of tokens that lines have,
  and that their canonical text keeps: those whose tokens stand apart.
* `Token.tokenize_spaced` — the canonical text of a line has the tokens of the line.
* `Token.spaced_inj` — lines with the same canonical text have the same tokens.
* `Command.parse_spaced` — the canonical text of a line is parsed as the line is.
-/

set_option autoImplicit false

namespace Conch

/-! ## What the canonical text spells -/

namespace Token

/-- The descriptions of the tokens with single blanks between them. -/
def spaced (ts : List Token) : String := " ".intercalate (ts.map describe)

@[simp] lemma toList_spaced_nil : (spaced []).toList = [] := rfl

@[simp] lemma toList_spaced_singleton (t : Token) : (spaced [t]).toList = t.describe.toList := by
  simp [spaced]

@[simp] lemma toList_spaced_cons_cons (t u : Token) (ts : List Token) :
    (spaced (t :: u :: ts)).toList = t.describe.toList ++ ' ' :: (spaced (u :: ts)).toList := by
  simp [spaced]

end Token

namespace Scanner

lemma breaks_nil : Breaks [] := by simp [Breaks]

/-- A blank ends every token in front of it, and only a token at the end may need no end. -/
lemma Apart.spells_spaced {d : Prop} {ts : List Token} (h : Apart d ts) :
    Spells (Token.spaced ts).toList ts := by
  induction h with
  | nil => exact .nil
  | @cons t ts ht _ ih =>
    cases ts with
    | nil =>
      rw [Token.toList_spaced_singleton, ← List.append_nil t.describe.toList]
      exact .cons ht breaks_nil .nil
    | cons u us =>
      rw [Token.toList_spaced_cons_cons]
      exact .cons ht (breaks_blank _) ih.blank
  | dangling _ hw =>
    rw [Token.toList_spaced_singleton]
    exact .dangling hw

end Scanner

/-! ## The canonical text of a line -/

namespace Token

open Scanner

/-- The lists of tokens that lines have are those whose tokens stand apart. -/
lemma exists_tokenize_iff {ts : List Token} :
    (∃ line, tokenize line = .ok ts) ↔ Apart True ts :=
  ⟨fun ⟨_, h⟩ => (apart_of_tokenize h).mono fun _ => trivial,
    fun h => ⟨_, h.spells_spaced.tokenize⟩⟩

/-- **Which tokens survive being written with single blanks**: those that stand apart. -/
lemma tokenize_spaced_iff {ts : List Token} :
    tokenize (spaced ts) = .ok ts ↔ Apart True ts :=
  ⟨fun h => exists_tokenize_iff.mp ⟨_, h⟩, fun h => h.spells_spaced.tokenize⟩

/-- **Canonical spacing keeps the tokens of a line.**  Whether or not the line is accepted, its
tokens are found again in their descriptions joined by single blanks.

**Proof sketch.** Every word of the line is a word by itself, but for a last one that ends in a
backslash with nothing to escape (`apart_of_tokenize`).  A blank ends a word, and continues no
operator and starts no comment; the one word that would take the blank up has none behind it. -/
theorem tokenize_spaced {line : String} {ts : List Token} (h : tokenize line = .ok ts) :
    tokenize (spaced ts) = .ok ts :=
  tokenize_spaced_iff.mpr (exists_tokenize_iff.mp ⟨line, h⟩)

/-- Operators that are told apart by what stands around them, a comment, newlines that separate,
and a backslash at the end. -/
theorem tokenize_spaced_crowded :
    tokenize "2>&12>|a2>>b&>c\n\n# n\n(d\\" = .ok [.redirect .errorToOutput, .redirect .error,
      .pipe, .word "a2", .redirect .append, .word "b", .redirect .both, .word "c", .semi, .lparen,
      .word "d\\"] ∧
    tokenize "2>&1 2> | a2 >> b &> c ; ( d\\" = .ok [.redirect .errorToOutput, .redirect .error,
      .pipe, .word "a2", .redirect .append, .word "b", .redirect .both, .word "c", .semi, .lparen,
      .word "d\\"] := by
  have hline : tokenize "2>&12>|a2>>b&>c\n\n# n\n(d\\" = .ok [.redirect .errorToOutput,
      .redirect .error, .pipe, .word "a2", .redirect .append, .word "b", .redirect .both,
      .word "c", .semi, .lparen, .word "d\\"] := rfl
  exact ⟨hline, tokenize_spaced hline⟩

/-- Lines with the same canonical text have the same tokens. -/
lemma spaced_inj {line line' : String} {ts ts' : List Token} (h : tokenize line = .ok ts)
    (h' : tokenize line' = .ok ts') : spaced ts = spaced ts' ↔ ts = ts' := by
  refine ⟨fun heq => ?_, fun heq => congrArg spaced heq⟩
  have hread := tokenize_spaced_iff.mpr (exists_tokenize_iff.mp ⟨line, h⟩)
  have hread' := tokenize_spaced_iff.mpr (exists_tokenize_iff.mp ⟨line', h'⟩)
  rw [heq, hread'] at hread
  exact (Except.ok.inj hread).symm

end Token

/-- The canonical text of a line is accepted as the line is, or rejected for the same reason. -/
lemma Command.parse_spaced {line : String} {ts : List Token} (h : Token.tokenize line = .ok ts) :
    parse (Token.spaced ts) = parse line := by
  have hread := Token.tokenize_spaced_iff.mpr (Token.exists_tokenize_iff.mp ⟨line, h⟩)
  rw [Parser.parse_of_tokenize h, Parser.parse_of_tokenize hread]

end Conch
