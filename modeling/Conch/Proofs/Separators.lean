import Conch.Proofs.Contents
import Conch.Proofs.Lines

/-!
# Separators that mean nothing

A `;` may be left out of a line where the parser reads the next token in the same way without it.
That is so in front of a `)`, which ends a simple command by itself, and behind a nested command,
where `}` can only close a group.  Everywhere else the `;` is needed: without it the next word goes
on with the simple command in front of it, or is rejected.  A `;` at the end of a line, and any
tokens behind it that add nothing to the tree, are separators too.

## Main definitions

* `Parser.State.Accepts` — the line that has led to a state is accepted.
* `Parser.State.Idle` — a `;` in front of a token means nothing.

## Main results

* `Parser.step_of_idle` — an idle token is read in the same way with and without a `;`.
* `Parser.idle_of_accepts` — **a separator that may be left out is idle**.
* `Parser.eq_semi_of_accepts` — **what adds nothing to a tree** is separators.
-/

set_option autoImplicit false

namespace Conch.Parser

open Grammar Scanner

/-! ## The end of a line -/

/-- A line that has led here is accepted as the command `c`; it may end in a `;`. -/
def State.Accepts (s : State) (c : Command) : Prop :=
  finish s = .ok c ∨ s.mode = .boundary .semi ∧ s.outer = [] ∧ s.list.command = c

/-- A `;` at the end of a line means nothing. -/
lemma finish_of_step_semi {s s' : State} {c : Command} (h : step s .semi = .ok s')
    (hc : s'.Accepts c) : finish s = .ok c := by
  have hmode := mode_of_step_semi h
  obtain ⟨-, houter, hlist⟩ : s'.mode = .boundary .semi ∧ s'.outer = [] ∧ s'.list.command = c := by
    rcases hc with hc | hc
    · obtain ⟨mode, l, outer⟩ := s'
      obtain rfl : mode = .boundary .semi := hmode
      cases outer <;> cases hc
    · exact hc
  obtain ⟨mode, l, outer⟩ := s
  cases mode with
  | boundary b =>
    by_cases hb : b = .amp
    · subst hb
      simp only [step, closes_semi] at h
      cases h
      obtain rfl : outer = [] := houter
      exact congrArg Except.ok hlist
    · simp [step, closes_semi, hb, start] at h
  | operand op => cases h
  | simple d =>
    cases h
    obtain rfl : outer = [] := houter
    exact congrArg Except.ok hlist
  | target d op => cases h
  | nested e =>
    cases h
    obtain rfl : outer = [] := houter
    exact congrArg Except.ok hlist

/-- A line is accepted where the parser can end. -/
lemma ofTokens_dropLastSemi_iff {ts : List Token} {c : Command} :
    Command.ofTokens (Token.dropLastSemi ts) = .ok c ↔
      ∃ s, read .initial ts = .ok s ∧ s.Accepts c := by
  constructor
  · intro h
    by_cases hlast : ts.getLast? = some .semi
    · obtain ⟨front, rfl⟩ := List.getLast?_eq_some_iff.mp hlast
      have hdrop : Token.dropLastSemi (front ++ [.semi]) = front := by simp [Token.dropLastSemi]
      rw [hdrop] at h
      obtain ⟨blocks⟩ := c
      obtain ⟨s, hread, hsemi, -⟩ := read_of_accepted h
      refine ⟨⟨.boundary .semi, ⟨blocks.reverse, [], []⟩, []⟩, ?_, .inr ⟨rfl, rfl, ?_⟩⟩
      · rw [read_append, hread]
        exact (read_singleton s .semi).trans hsemi
      · simp [Open.command]
    · rw [Token.dropLastSemi, if_neg hlast] at h
      obtain ⟨s, hread, hfinish⟩ := exists_of_bind_eq_ok h
      exact ⟨s, hread, .inl hfinish⟩
  · rintro ⟨s, hread, hfinish | ⟨hmode, houter, hlist⟩⟩
    · have h : Command.ofTokens ts = .ok c := (run_of_read hread).trans hfinish
      rw [dropLastSemi_of_ofTokens h, h]
    · rcases behind_of_read hread with ⟨-, rfl⟩ | ⟨front, t, rfl, hbehind⟩
      · cases hmode
      · obtain rfl : t = .semi := by simpa [State.Behind, hmode] using hbehind
        obtain ⟨s₀, hs₀, hstep⟩ := exists_step_of_read_concat hread
        have hdrop : Token.dropLastSemi (front ++ [.semi]) = front := by
          simp [Token.dropLastSemi]
        rw [hdrop]
        exact (run_of_read hs₀).trans
          (finish_of_step_semi hstep (.inr ⟨hmode, houter, hlist⟩))

/-- A line of which the parser has read all tokens is accepted without the `;` at its end. -/
lemma accepts_of_semis {s s' : State} {ts : List Token} {c : Command}
    (h : read s ts = .ok s') (hts : ∀ t ∈ ts, t = .semi) (hc : s'.Accepts c) : s.Accepts c := by
  induction ts generalizing s with
  | nil => cases h; exact hc
  | cons t ts ih =>
    obtain rfl := hts t (.head _)
    obtain ⟨s₁, hstep, hread⟩ := exists_of_bind_eq_ok h
    exact .inl (finish_of_step_semi hstep (ih hread fun u hu => hts u (.tail _ hu)))

lemma settled_of_read_initial {s : State} {ts : List Token} (h : read .initial ts = .ok s) :
    s.Settled :=
  settled_of_read h settled_initial

lemma written_of_accepts {s : State} {c : Command} (hs : s.Settled) (h : s.Accepts c) :
    c.written = s.written := by
  rcases h with h | ⟨hmode, houter, hlist⟩
  · exact written_of_finish hs h
  · rw [← hlist, Open.written_command _ (hs _ hmode)]
    simp [State.written, State.past, hmode, houter, Mode.written, Mode.begun?]

/-- The characters of an accepted line are those of its tree. -/
lemma load_of_accepts {p : Char → Bool} (hp : p '\x7b' = false ∧ p '\x7d' = false) {s : State}
    {ts : List Token} {c : Command} (h : read .initial ts = .ok s) (hc : s.Accepts c) :
    c.load p = Token.load p ts := by
  have hload := load_of_read hp settled_initial h
  have hzero : State.initial.load p = 0 := rfl
  rw [hzero, Nat.zero_add] at hload
  rw [← hload, Command.load, written_of_accepts (settled_of_read_initial h) hc]
  rfl

/-! ## Separators that mean nothing -/

/-- A `;` in front of the token means nothing: the token closes the innermost list, and is no word
of a simple command. -/
def State.Idle (s : State) (t : Token) : Prop :=
  closes s.outer t = true ∧ (isItem t = true → ∃ e, s.mode = .nested e)

lemma eq_closer_of_closes {outer : List (Open × Opener)} {t : Token}
    (h : closes outer t = true) : t = .rparen ∨ t = rbrace := by
  cases outer with
  | nil => cases h
  | cons frame outer =>
    obtain ⟨list, o⟩ := frame
    have ht : t = o.closer := of_decide_eq_true h
    cases o
    · exact .inl ht
    · exact .inr ht

/-- Behind an element, a token that could start another has to close the list. -/
lemma closes_of_follow {s s' : State} {e : Element} {t : Token}
    (ht : isItem t = true ∨ t = .lparen) (h : follow s e t = .ok s') : closes s.outer t = true := by
  have hclose : close (s.list.endBlock e false) s.outer t = .ok s' := by
    cases t with
    | word w => exact h
    | redirect op => exact h
    | lparen => exact h
    | _ => simp [isItem] at ht
  cases houter : s.outer with
  | nil => rw [houter] at hclose; cases hclose
  | cons frame outer =>
    obtain ⟨list, o⟩ := frame
    by_cases ho : t = o.closer
    · simp [closes, ho]
    · rw [houter] at hclose
      simp [close, ho] at hclose

/-- Where the parser reads a `;` and then a token, it reads an idle token alone in the same way. -/
lemma step_of_idle {s s₁ s₂ : State} {t : Token} (hsemi : step s .semi = .ok s₁)
    (ht : step s₁ t = .ok s₂) (hidle : s.Idle t) : step s t = .ok s₂ := by
  obtain ⟨mode, l, outer⟩ := s
  obtain ⟨hcloses, hitem⟩ := hidle
  -- behind the element `e` the list ends with or without the `;`
  have hclose : ∀ e, follow ⟨mode, l, outer⟩ e .semi = .ok s₁ →
      close (l.endBlock e false) outer t = .ok s₂ := by
    intro e h
    cases h
    simpa [step, hcloses, Open.endBlock] using ht
  have hcloser := eq_closer_of_closes hcloses
  cases mode with
  | boundary b =>
    by_cases hb : b = .amp
    · subst hb
      simp only [step, closes_semi] at hsemi
      cases hsemi
      simpa [step, hcloses] using ht
    · simp [step, closes_semi, hb, start] at hsemi
  | operand op => cases hsemi
  | simple d =>
    rcases hcloser with rfl | rfl
    · exact hclose _ hsemi
    · obtain ⟨e, he⟩ := hitem rfl
      cases he
  | target d op => cases hsemi
  | nested e => rcases hcloser with rfl | rfl <;> exact hclose _ hsemi

/-- **A word that a simple command takes up is missed behind a `;`.**  If a `;` and a word, and the
word alone, both lead to an accepted line, the two lines have different trees. -/
lemma not_isItem_of_accepts {s s₁ s₂ s₃ s₄ : State} {d : Draft} {t : Token} {ts us : List Token}
    {c : Command} (hs : s.Settled) (hmode : s.mode = .simple d) (hsemi : step s .semi = .ok s₁)
    (hts : read s₁ ts = .ok s₃) (h₃ : s₃.Accepts c) (ht : step s t = .ok s₂)
    (hus : read s₂ us = .ok s₄) (h₄ : s₄.Accepts c) : isItem t = false := by
  by_contra hitem
  rw [Bool.not_eq_false] at hitem
  have hs₁ := settled_of_step hsemi hs
  have hs₂ := settled_of_step ht hs
  -- behind the `;` the command is complete
  have hpast₁ : s₁.past = s.past ++ [d.command.written] := by
    rcases past_of_step hs hsemi with ⟨d', hd', -, -, hpast⟩ | ⟨-, hreads⟩
    · rw [hmode] at hd'
      cases hd'
      exact hpast
    · rw [hmode] at hreads
      generalize s₁.mode = m at hreads
      cases hreads with
      | idle h => cases h
      | start h => cases h
      | item h => cases h
  obtain ⟨tail₁, htail₁, -⟩ := past_of_read hs₁ hts
  have hc₁ := written_of_accepts (settled_of_read hts hs₁) h₃
  -- with the word it is longer
  have hstep₂ : s₂ = ⟨itemMode d t, s.list, s.outer⟩ := by
    cases t with
    | word w => simpa [step, hmode, itemMode] using ht.symm
    | redirect op => simpa [step, hmode, itemMode] using ht.symm
    | _ => cases hitem
  have hpast₂ : s₂.past = s.past := by
    rw [hstep₂, past_itemMode hitem]
    simp [State.past, hmode, Mode.written]
  have hbegun₂ : s₂.mode.begun? = some (d.command.written.add t) := by
    rw [hstep₂]
    exact begun?_itemMode hitem d
  obtain ⟨tail₂, htail₂, hgrow⟩ := past_of_read hs₂ hus
  obtain ⟨w, rest, rfl, hle⟩ := hgrow _ hbegun₂
  have hc₂ := written_of_accepts (settled_of_read hus hs₂) h₄
  rw [size_add _ hitem] at hle
  rw [hc₁, htail₁, hpast₁, htail₂, hpast₂, List.append_assoc] at hc₂
  obtain ⟨rfl, -⟩ := List.cons.inj (List.append_cancel_left hc₂)
  omega

/-- **A separator that may be left out is idle.** -/
lemma idle_of_accepts {s s₁ s₂ s₂' s₃ s₄ : State} {t : Token} {ts us : List Token} {c : Command}
    (hs : s.Settled) (hamp : s.mode ≠ .boundary .amp) (hsemi : step s .semi = .ok s₁)
    (ht : step s₁ t = .ok s₂) (hts : read s₂ ts = .ok s₃) (h₃ : s₃.Accepts c)
    (ht' : step s t = .ok s₂') (hus : read s₂' us = .ok s₄) (h₄ : s₄.Accepts c) : s.Idle t := by
  have hread : read s₁ (t :: ts) = .ok s₃ := by
    have happend := read_append s₁ [t] ts
    rw [read_singleton, ht] at happend
    exact happend.trans hts
  have hnot : ∀ d, s.mode = .simple d → isItem t = false := fun d hmode =>
    not_isItem_of_accepts hs hmode hsemi hread h₃ ht' hus h₄
  obtain ⟨mode, l, outer⟩ := s
  -- behind an element the `;` leads to a block, which the token starts unless it closes the list
  have hstart : ∀ e, follow ⟨mode, l, outer⟩ e .semi = .ok s₁ → closes outer t = false →
      isItem t = true ∨ t = .lparen := by
    intro e h hcloses
    cases h
    have hstart : step ⟨.boundary .semi, l.endBlock e false, outer⟩ t =
        start ⟨.boundary .semi, l.endBlock e false, outer⟩ t := by simp [step, hcloses]
    rw [hstart] at ht
    cases t with
    | word w => exact .inl rfl
    | redirect op => exact .inl rfl
    | lparen => exact .inr rfl
    | _ => cases ht
  cases mode with
  | boundary b =>
    have hb : b ≠ .amp := fun hb => hamp (by rw [hb])
    simp [step, closes_semi, hb, start] at hsemi
  | operand op => cases hsemi
  | simple d =>
    have hitem := hnot d rfl
    refine ⟨?_, fun h => by rw [hitem] at h; cases h⟩
    by_contra hcloses
    rw [Bool.not_eq_true] at hcloses
    rcases hstart _ hsemi hcloses with h | rfl
    · rw [hitem] at h; cases h
    · rw [closes_of_follow (.inr rfl) ht'] at hcloses
      cases hcloses
  | target d op => cases hsemi
  | nested e =>
    refine ⟨?_, fun _ => ⟨e, rfl⟩⟩
    by_contra hcloses
    rw [Bool.not_eq_true] at hcloses
    rw [closes_of_follow (hstart _ hsemi hcloses) ht'] at hcloses
    cases hcloses

/-! ## Tokens that add no block -/

/-- At the start of a block of the line, tokens that add no block are separators. -/
lemma eq_semi_of_run_boundary {b : Boundary} {blocks : List Block} {ts : List Token}
    (h : run ⟨.boundary b, ⟨blocks.reverse, [], []⟩, []⟩ ts = .ok ⟨blocks⟩) :
    ∀ t ∈ ts, t = .semi := by
  -- any other token starts a block, which is one more in the tree
  have hmore : ∀ {b : Boundary} {ts : List Token}, ts ≠ [] → CanStart (opener []) ts →
      Ready ⟨.boundary b, ⟨blocks.reverse, [], []⟩, []⟩ ts →
      run ⟨.boundary b, ⟨blocks.reverse, [], []⟩, []⟩ ts = .ok ⟨blocks⟩ → False := by
    intro b ts hne hcan hready h
    obtain ⟨bs, rest, hbs, -, hclosed, hended⟩ :=
      blocksSound ts.length ts _ _ _ _ (Nat.le_refl _) hne hready hcan h
    obtain rfl : rest = [] := hclosed
    have hblocks : blocks ++ bs = blocks := by
      simpa [ended, Open.command] using hended
    obtain rfl : bs = [] := by simpa using hblocks
    cases hbs
  rcases boundary_cases h with ⟨hclosed, -⟩ | ⟨-, ts', rfl, h'⟩ | ⟨hne, hcan, hready⟩
  · obtain rfl : ts = [] := hclosed
    simp
  · rcases boundary_cases h' with ⟨-, hopener, -⟩ | ⟨hamp, -⟩ | ⟨hne, hcan, hready⟩
    · rcases hopener with hopener | hopener
      · cases hopener
      · exact (hopener rfl).elim
    · cases hamp
    · exact (hmore hne hcan hready h').elim
  · exact (hmore hne hcan hready h).elim

lemma eq_semi_of_read_boundary {b : Boundary} {blocks : List Block} {ts : List Token} {s : State}
    (h : read ⟨.boundary b, ⟨blocks.reverse, [], []⟩, []⟩ ts = .ok s) (hs : s.Accepts ⟨blocks⟩) :
    ∀ t ∈ ts, t = .semi := by
  rcases hs with hfinish | hsemi
  · exact eq_semi_of_run_boundary ((run_of_read h).trans hfinish)
  · rcases List.eq_nil_or_concat ts with rfl | ⟨front, t, rfl⟩
    · simp
    · rw [List.concat_eq_append] at h ⊢
      obtain ⟨s₀, hs₀, hstep⟩ := exists_step_of_read_concat h
      obtain rfl : t = .semi := by
        simpa [State.Behind, hsemi.1] using behind_of_step hstep
      have hfinish := finish_of_step_semi hstep (.inr hsemi)
      have hfront := eq_semi_of_run_boundary ((run_of_read hs₀).trans hfinish)
      intro u hu
      rcases List.mem_append.mp hu with hu | hu
      · exact hfront u hu
      · exact List.mem_singleton.mp hu

/-- At the end of an accepted line a newline leads to the start of a block. -/
lemma read_separator_of_accepts {s : State} {ts : List Token} {blocks : List Block}
    (h : read .initial ts = .ok s) (hs : s.Accepts ⟨blocks⟩) :
    ∃ b, read s (separator ts) = .ok ⟨.boundary b, ⟨blocks.reverse, [], []⟩, []⟩ := by
  rcases hs with hfinish | ⟨hmode, houter, hlist⟩
  · obtain ⟨s', hread, hsemi, hsep⟩ := read_of_accepted ((run_of_read h).trans hfinish)
    obtain rfl : s' = s := Except.ok.inj (hread.symm.trans h)
    unfold separator
    by_cases hts : separates ts = true
    · rw [if_pos hts]
      exact ⟨.semi, (read_singleton s' .semi).trans hsemi⟩
    · rw [if_neg hts]
      exact ⟨.amp, congrArg Except.ok (hsep.resolve_left hts)⟩
  · -- behind a `;` the newline adds nothing
    rcases behind_of_read h with ⟨-, rfl⟩ | ⟨front, t, rfl, hbehind⟩
    · cases hmode
    · obtain rfl : t = .semi := by simpa [State.Behind, hmode] using hbehind
      have hsep : separator (front ++ [.semi]) = [] := by
        simp [separator, separates, Token.absorbsNewline]
      obtain ⟨hchain, helements⟩ := settled_of_read_initial h _ hmode
      refine ⟨.semi, ?_⟩
      rw [hsep]
      obtain ⟨mode, ⟨blocks', chain, elements⟩, outer⟩ := s
      have hblocks : blocks'.reverse = blocks := Command.mk.inj hlist
      obtain rfl : mode = .boundary .semi := hmode
      obtain rfl : outer = [] := houter
      obtain rfl : chain = [] := hchain
      obtain rfl : elements = [] := helements
      rw [← hblocks, List.reverse_reverse]
      rfl

/-- **What stands below an accepted line without adding to its tree** is separators. -/
lemma eq_semi_of_accepts {s s' : State} {ts us : List Token} {c : Command}
    (h : read .initial ts = .ok s) (hs : s.Accepts c)
    (h' : read .initial (ts ++ (separator ts ++ us)) = .ok s') (hs' : s'.Accepts c) :
    ∀ t ∈ us, t = .semi := by
  obtain ⟨blocks⟩ := c
  obtain ⟨b, hb⟩ := read_separator_of_accepts h hs
  rw [read_append, h] at h'
  have hread : read s (separator ts ++ us) = .ok s' := h'
  rw [read_append, hb] at hread
  exact eq_semi_of_read_boundary hread hs'

end Conch.Parser
