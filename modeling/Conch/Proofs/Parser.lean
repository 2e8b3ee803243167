import Conch.Command.Parse
import Conch.Proofs.Grammar
import Mathlib.Data.Nat.Init

/-!
# The parser and its grammar

The parser reads a line token by token and keeps a stack of open lists; the grammar says which
tokens spell which command.  This module proves that the two accept the same lines and build the
same trees.

## Main definitions

* `Conch.Parser.read`, `Conch.Parser.run` — the parser from any state through some tokens, and to
  the end of the line.
* `Conch.Parser.ended` — the parser behind the last element of a block.

## Main results

* `Conch.Grammar.Blocks.run` — the parser follows every derivation.
* `Conch.Parser.blocksSound` — behind every accepted list there is a derivation.
* `Conch.Parser.ofTokens_eq_ok_iff` — the two directions for the tokens of a line.
* `Conch.Parser.derives_unique` — the grammar is unambiguous.
* `Conch.Parser.parse_eq_ok_iff_derives` — the lines that are accepted, and their trees.
-/

set_option autoImplicit false

namespace Conch.Parser

open Conch.Grammar

/-! ## Runs -/

/-- The parser behind the tokens. -/
def read (s : State) (ts : List Token) : Except SyntaxError State := ts.foldlM step s

/-- The parser from the state `s` to the end of the line. -/
def run (s : State) (ts : List Token) : Except SyntaxError Command := read s ts >>= finish

@[simp] lemma run_nil (s : State) : run s [] = finish s := rfl

@[simp] lemma read_singleton (s : State) (t : Token) : read s [t] = step s t := by
  simp [read]

lemma read_append (s : State) (xs ys : List Token) :
    read s (xs ++ ys) = read s xs >>= fun s' => read s' ys :=
  List.foldlM_append

lemma run_append (s : State) (xs ys : List Token) :
    run s (xs ++ ys) = read s xs >>= fun s' => run s' ys := by
  simp only [run, read_append, bind_assoc]

lemma run_cons (s : State) (t : Token) (ts : List Token) :
    run s (t :: ts) = step s t >>= fun s' => run s' ts := by
  simp [run, read]

lemma run_cons_of_ok {s s' : State} {t : Token} (h : step s t = .ok s') (ts : List Token) :
    run s (t :: ts) = run s' ts := by
  rw [run_cons, h]
  rfl

lemma run_of_read {s s' : State} {ts : List Token} (h : read s ts = .ok s') :
    run s ts = finish s' := by
  rw [run, h]
  rfl

/-- A computation that succeeds has its first part succeed. -/
lemma exists_of_bind_eq_ok {α β : Type} {x : Except SyntaxError α} {f : α → Except SyntaxError β}
    {b : β} (h : x >>= f = .ok b) : ∃ a, x = .ok a ∧ f a = .ok b := by
  cases x with
  | error e => cases h
  | ok a => exact ⟨a, rfl, h⟩

/-- A run that succeeds reads its first token. -/
lemma exists_step_of_run_cons {s : State} {t : Token} {ts : List Token} {c : Command}
    (h : run s (t :: ts) = .ok c) : ∃ s', step s t = .ok s' ∧ run s' ts = .ok c := by
  rw [run_cons] at h
  exact exists_of_bind_eq_ok h

/-- A run that succeeds reads the tokens at its start. -/
lemma exists_read_of_run_append {s : State} {xs ys : List Token} {c : Command}
    (h : run s (xs ++ ys) = .ok c) : ∃ s', read s xs = .ok s' ∧ run s' ys = .ok c := by
  rw [run_append] at h
  exact exists_of_bind_eq_ok h

/-- Tokens that are read are read one by one. -/
lemma exists_step_of_read_concat {s s' : State} {ts : List Token} {t : Token}
    (h : read s (ts ++ [t]) = .ok s') : ∃ s₀, read s ts = .ok s₀ ∧ step s₀ t = .ok s' := by
  rw [read_append] at h
  obtain ⟨s₀, hs₀, hstep⟩ := exists_of_bind_eq_ok h
  exact ⟨s₀, hs₀, (read_singleton s₀ t).symm.trans hstep⟩

/-- The parser takes the next token for the start of an element. -/
def Ready (s : State) (ts : List Token) : Prop := ∀ t ∈ ts.head?, step s t = start s t

lemma ready_operand (op : BinaryOp) (l : Open) (outer : List (Open × Opener)) (ts : List Token) :
    Ready ⟨.operand op, l, outer⟩ ts :=
  fun _ _ => rfl

lemma ready_boundary (b : Boundary) (l : Open) {outer : List (Open × Opener)} {ts : List Token}
    (hclose : ∀ t ∈ ts.head?, closes outer t = false) (hsemi : ts.head? ≠ some .semi) :
    Ready ⟨.boundary b, l, outer⟩ ts := by
  intro t ht
  have hne : t ≠ .semi := fun h => hsemi (by rw [← h]; exact ht)
  simp [step, hclose t ht, hne]

/-- The opener of the innermost list. -/
def opener (outer : List (Open × Opener)) : Option Opener := outer.head?.map Prod.snd

/-- The tokens start with what ends the list: its closer, or for a line nothing at all. -/
def Closed (o : Option Opener) (rest : List Token) : Prop :=
  match o with
  | none => rest = []
  | some o => ∃ rest', rest = o.closer :: rest'

/-- The parser with the blocks of `l` behind it, the last of which ends here. -/
def ended (l : Open) (outer : List (Open × Opener)) : List Token → Except SyntaxError Command
  | [] => match outer with
    | [] => .ok l.command
    | (_, o) :: _ => .error (.unterminated o)
  | .semi :: rest => run ⟨.boundary .semi, l, outer⟩ rest
  | t :: rest => close l outer t >>= fun s => run s rest

/-- The tokens do not go on with the block in front of them. -/
def EndsBlock (rest : List Token) : Prop :=
  ∀ t ∈ rest.head?, t ≠ .pipe ∧ t ≠ .amp ∧ ∀ c, t ≠ .connector c

lemma Closed.endsBlock {o : Option Opener} {rest : List Token} (h : Closed o rest) :
    EndsBlock rest := by
  cases o with
  | none =>
    obtain rfl : rest = [] := h
    simp [EndsBlock]
  | some o =>
    obtain ⟨rest', rfl⟩ := h
    cases o <;> simp [EndsBlock, Opener.closer]

lemma endsBlock_semi (rest : List Token) : EndsBlock (.semi :: rest) := by
  simp [EndsBlock]

lemma closes_semi (outer : List (Open × Opener)) : closes outer .semi = false := by
  cases outer with
  | nil => rfl
  | cons frame outer =>
    obtain ⟨list, o⟩ := frame
    cases o <;> simp [closes, Opener.closer]

/-- Behind an element, tokens that end the block end it with this element. -/
lemma run_nested_eq_ended (e : Element) (l : Open) (outer : List (Open × Opener))
    {rest : List Token} (h : EndsBlock rest) :
    run ⟨.nested e, l, outer⟩ rest = ended (l.endBlock e false) outer rest := by
  cases rest with
  | nil => cases outer <;> rfl
  | cons t rest =>
    obtain ⟨hpipe, hamp, hconn⟩ := h t rfl
    rw [run_cons]
    cases t with
    | pipe => exact (hpipe rfl).elim
    | amp => exact (hamp rfl).elim
    | connector c => exact (hconn c rfl).elim
    | _ => rfl

/-- At the start of a block, what closes the list closes it, if there is a block to close. -/
lemma run_boundary_eq_ended (b : Boundary) {l : Open} (hl : l.blocks ≠ [])
    {outer : List (Open × Opener)} {rest : List Token} (h : Closed (opener outer) rest)
    (hb : outer = [] → b = .amp) :
    run ⟨.boundary b, l, outer⟩ rest = ended l outer rest := by
  cases outer with
  | nil =>
    obtain rfl : rest = [] := h
    obtain rfl := hb rfl
    rfl
  | cons frame outer =>
    obtain ⟨list, o⟩ := frame
    obtain ⟨rest', rfl⟩ := h
    have hcl : closes ((list, o) :: outer) o.closer = true := by simp [closes]
    rw [run_cons]
    simp only [step, hcl, if_true, List.isEmpty_iff, hl, if_false]
    cases o <;> rfl

/-- The end of a nested list is where its element ends. -/
lemma ended_closer (l list : Open) (o : Opener) (outer : List (Open × Opener))
    (rest : List Token) :
    ended l ((list, o) :: outer) (o.closer :: rest) =
      run ⟨.nested (o.wrap l.command), list, outer⟩ rest := by
  have h : close l ((list, o) :: outer) o.closer =
      .ok ⟨.nested (o.wrap l.command), list, outer⟩ := by simp [close]
  cases o <;> exact congrArg (· >>= fun s => run s rest) h

/-- A list that ends here with success ends with its closer. -/
lemma closed_of_ended {l : Open} {outer : List (Open × Opener)} {rest : List Token} {c : Command}
    (hsemi : ¬∃ mid, rest = .semi :: mid) (h : ended l outer rest = .ok c) :
    Closed (opener outer) rest := by
  cases rest with
  | nil => cases outer <;> first | rfl | cases h
  | cons t rest =>
    have hclose : (close l outer t >>= fun s => run s rest) = .ok c := by
      cases t with
      | semi => exact (hsemi ⟨rest, rfl⟩).elim
      | _ => exact h
    cases outer with
    | nil => cases hclose
    | cons frame outer =>
      obtain ⟨list, o⟩ := frame
      by_cases ht : t = o.closer
      · exact ⟨rest, by rw [ht]⟩
      · simp only [close, if_neg ht] at hclose
        cases hclose

/-! ## Simple commands -/

/-- Where no item follows, a simple command is an element like any other. -/
lemma run_simple_eq_nested (d : Draft) (l : Open) (outer : List (Open × Opener))
    {rest : List Token} (h : Stops rest) :
    run ⟨.simple d, l, outer⟩ rest = run ⟨.nested (.simple d.command), l, outer⟩ rest := by
  cases rest with
  | nil => rfl
  | cons t rest =>
    have ht : isItem t = false := h t rfl
    rw [run_cons, run_cons]
    cases t <;> first | rfl | simp [isItem] at ht

lemma takesFile_of_ne {op : RedirectOp} (h : op ≠ .errorToOutput) : op.takesFile = true := by
  cases op <;> first | rfl | exact (h rfl).elim

/-- The parser reads the items of a simple command. -/
lemma run_items {ts rest : List Token} {ws : List String} {rs : List Redirect}
    (h : Items ts ws rs rest) (d : Draft) (l : Open) (outer : List (Open × Opener)) :
    run ⟨.simple d, l, outer⟩ ts =
      run ⟨.simple ⟨ws.reverse ++ d.parts, rs.reverse ++ d.redirects⟩, l, outer⟩ rest := by
  induction h generalizing d with
  | nil rest => rfl
  | @word w _ _ _ _ _ ih =>
    have hword : step ⟨.simple d, l, outer⟩ (.word w) = .ok ⟨.simple (d.addWord w), l, outer⟩ := rfl
    rw [run_cons_of_ok hword, ih]
    simp [Draft.addWord]
  | @file op f _ _ _ _ hop _ ih =>
    have hmode : step ⟨.simple d, l, outer⟩ (.redirect op) = .ok ⟨.target d op, l, outer⟩ := by
      simp [step, redirectMode, takesFile_of_ne hop]
    have hfile : step ⟨.target d op, l, outer⟩ (.word f) =
        .ok ⟨.simple (d.addRedirect op f), l, outer⟩ := rfl
    rw [run_cons_of_ok hmode, run_cons_of_ok hfile, ih]
    simp [Draft.addRedirect]
  | join _ ih =>
    have hjoin : step ⟨.simple d, l, outer⟩ (.redirect .errorToOutput) =
        .ok ⟨.simple (d.addRedirect .errorToOutput ""), l, outer⟩ := rfl
    rw [run_cons_of_ok hjoin, ih]
    simp [Draft.addRedirect]

/-- The first item of a simple command is read like the others. -/
lemma run_eq_run_simple {s : State} {ts rest : List Token} {ws : List String}
    {rs : List Redirect} (h : Items ts ws rs rest) (hne : ws ≠ [] ∨ rs ≠ [])
    (hbrace : ts.head? ≠ some lbrace) (hs : Ready s ts) :
    run s ts = run ⟨.simple ⟨[], []⟩, s.list, s.outer⟩ ts := by
  have hstart : ∀ t ts', ts = t :: ts' → start s t = step ⟨.simple ⟨[], []⟩, s.list, s.outer⟩ t →
      run s ts = run ⟨.simple ⟨[], []⟩, s.list, s.outer⟩ ts := by
    rintro t ts' rfl heq
    rw [run_cons, run_cons, hs t rfl, heq]
  cases h with
  | nil => simp at hne
  | @word w =>
    refine hstart _ _ rfl ?_
    have hw : w ≠ Opener.brace.text := fun h => hbrace (by rw [h]; rfl)
    simp [start, step, hw, Draft.addWord]
  | file => exact hstart _ _ rfl rfl
  | join => exact hstart _ _ rfl rfl

end Conch.Parser

namespace Conch.Grammar

open Conch.Parser

/-! ## First tokens -/

lemma Items.length_le {ts rest : List Token} {ws : List String} {rs : List Redirect}
    (h : Items ts ws rs rest) : rest.length ≤ ts.length := by
  induction h <;> simp <;> omega

/-- A simple command that starts with an item has one. -/
lemma Items.of_item {t : Token} {ts rest : List Token} {ws : List String} {rs : List Redirect}
    (h : Items (t :: ts) ws rs rest) (hstops : Stops rest) (ht : isItem t = true) :
    (ws ≠ [] ∨ rs ≠ []) ∧ rest.length < (t :: ts).length := by
  cases h with
  | nil => simp [hstops t rfl] at ht
  | word h => exact ⟨by simp, by have := h.length_le; simp; omega⟩
  | file _ h => exact ⟨by simp, by have := h.length_le; simp; omega⟩
  | join h => exact ⟨by simp, by have := h.length_le; simp; omega⟩

/-- The token can start an element. -/
def startsElement : Token → Bool
  | .word _ | .redirect _ | .lparen => true
  | _ => false

lemma Elem.head {bg : Bool} {ts rest : List Token} {e : Element} (h : Elem bg ts e rest) :
    ∃ t ts', ts = t :: ts' ∧ startsElement t = true := by
  cases h with
  | simple hitems hne =>
    cases hitems with
    | nil => simp at hne
    | word | file | join => exact ⟨_, _, rfl, rfl⟩
  | subshell | group => exact ⟨_, _, rfl, rfl⟩

lemma Elems.head {bg : Bool} {ts rest : List Token} {es : List Element}
    (h : Elems bg ts es rest) : ∃ t ts', ts = t :: ts' ∧ startsElement t = true := by
  cases h with
  | one h | cons h _ => exact h.head

lemma Pipe.head {ts rest : List Token} {p : Pipeline} (h : Pipe ts p rest) :
    ∃ t ts', ts = t :: ts' ∧ startsElement t = true := by
  cases h with
  | foreground h | background h => exact h.head

lemma Chain.head {ts rest : List Token} {b : Block} (h : Chain ts b rest) :
    ∃ t ts', ts = t :: ts' ∧ startsElement t = true := by
  cases h with
  | one h | cons h _ _ => exact h.head

/-- At the start of a block the parser is ready for one. -/
lemma Chain.ready {ts rest : List Token} {b : Block} (h : Chain ts b rest) (bd : Boundary)
    (l : Open) {outer : List (Open × Opener)} (hcan : CanStart (opener outer) ts) :
    Ready ⟨.boundary bd, l, outer⟩ ts := by
  obtain ⟨t, ts', rfl, ht⟩ := h.head
  refine ready_boundary bd l (fun t' ht' => ?_) fun hsemi => ?_
  · obtain rfl : t = t' := by simpa using ht'
    cases outer with
    | nil => rfl
    | cons frame outer =>
      obtain ⟨list, o⟩ := frame
      cases o with
      | paren =>
        have hne : t ≠ .rparen := by rintro rfl; simp [startsElement] at ht
        simp [closes, Opener.closer, hne]
      | brace =>
        have hne : t ≠ rbrace := fun heq => hcan rfl (by rw [heq]; rfl)
        simp [closes, Opener.closer, hne]
  · obtain rfl : t = .semi := by simpa using hsemi
    simp [startsElement] at ht

/-! ## The parser follows a derivation -/

/-- The element with its flag set if it ends a background pipeline. -/
def marked (bg : Bool) (e : Element) : Element := if bg then e.inBackground else e

lemma markLast_append (es : List Element) (e : Element) :
    Element.markLast (es ++ [e]) = es ++ [e.inBackground] := by
  induction es with
  | nil => rfl
  | cons e' es ih =>
    cases es with
    | nil => rfl
    | cons e'' es => exact congrArg (e' :: ·) ih

/-- A pipeline whose elements have been read. -/
lemma ofElements_append (es : List Element) (e : Element) (bg : Bool) :
    Pipeline.ofElements (es ++ [e]) bg = ⟨es ++ [marked bg e], bg⟩ := by
  cases bg with
  | false => rfl
  | true => simp [Pipeline.ofElements, markLast_append, marked]

@[simp] lemma ofChain_nil (b : Block) : Block.ofChain [] b.first b.rest = b := by
  cases b
  rfl

lemma background_cons (p q : Pipeline) (c : Connector) (links : List Link) :
    Block.background ⟨p, ⟨c, q⟩ :: links⟩ = Block.background ⟨q, links⟩ := by
  cases links with
  | nil => rfl
  | cons link links =>
    simp only [Block.background, List.getLast?_cons]
    cases hl : links.getLast? <;> simp

/-- A `;` may follow a block in the background and one in the foreground. -/
lemma ite_semi (bg : Bool) (l : Open) (outer : List (Open × Opener)) (rest : List Token) :
    (if bg then Parser.run ⟨.boundary .amp, l, outer⟩ (.semi :: rest)
      else ended l outer (.semi :: rest)) = Parser.run ⟨.boundary .semi, l, outer⟩ rest := by
  cases bg with
  | false => rfl
  | true =>
    refine run_cons_of_ok ?_ rest
    simp [step, closes_semi]

/-- In the place of the last element of a background pipeline, an element has its flag set. -/
lemma Elem.mark {ts rest : List Token} {e : Element} (h : Elem false ts e rest) :
    Elem true ts e.inBackground rest := by
  cases h with
  | simple hitems hne hbrace hstops => exact .simple hitems hne hbrace hstops
  | subshell h => exact .subshell h
  | group h => exact .group h

/-- The elements of a background pipeline are those of a pipeline with the last one marked. -/
theorem Elems.mark {ts rest : List Token} {front : List Element} {e : Element} :
    Elems false ts (front ++ [e]) rest → Elems true ts (front ++ [e.inBackground]) rest := by
  induction front generalizing ts with
  | nil =>
    intro h
    cases h with
    | one h => exact .one h.mark
    | cons _ hes => cases hes
  | cons e' front ih =>
    intro h
    generalize hes' : e' :: front ++ [e] = es at h
    cases h with
    | one h => simp at hes'
    | cons h hes =>
      obtain ⟨rfl, rfl⟩ := List.cons.inj hes'
      exact .cons h (ih hes)

mutual

/-- The parser follows the derivation of an element. -/
theorem Elem.run {bg : Bool} {ts rest : List Token} {e : Element} :
    Elem bg ts e rest → ∀ s : State, Ready s ts →
      ∃ e', e = marked bg e' ∧
        Parser.run s ts = Parser.run ⟨.nested e', s.list, s.outer⟩ rest
  | @Elem.simple _ _ _ ws rs hitems hne hbrace hstops => by
    intro s hs
    refine ⟨.simple ⟨ws, rs, false⟩, by cases bg <;> rfl, ?_⟩
    rw [run_eq_run_simple hitems hne hbrace hs, run_items hitems, run_simple_eq_nested _ _ _ hstops]
    simp [Draft.command]
  | @Elem.subshell _ _ _ bs h => by
    intro s hs
    refine ⟨.subshell ⟨bs⟩, by cases bg <;> rfl, ?_⟩
    have hstart : step s .lparen =
        .ok ⟨.boundary .opening, .new, (s.list, .paren) :: s.outer⟩ := hs _ rfl
    rw [run_cons_of_ok hstart]
    refine (Blocks.run h .opening [] _ rfl ⟨rest, rfl⟩).trans ?_
    refine (ended_closer _ _ .paren _ rest).trans ?_
    simp [Opener.wrap, Open.command]
  | @Elem.group _ _ _ bs h => by
    intro s hs
    refine ⟨.group ⟨bs⟩, by cases bg <;> rfl, ?_⟩
    have hstart : step s lbrace =
        .ok ⟨.boundary .opening, .new, (s.list, .brace) :: s.outer⟩ := hs _ rfl
    rw [run_cons_of_ok hstart]
    refine (Blocks.run h .opening [] _ rfl ⟨rest, rfl⟩).trans ?_
    refine (ended_closer _ _ .brace _ rest).trans ?_
    simp [Opener.wrap, Open.command]

/-- The parser follows the derivation of elements joined by `|`. -/
theorem Elems.run {bg : Bool} {ts rest : List Token} {es : List Element} :
    Elems bg ts es rest → ∀ s : State, Ready s ts →
      ∃ front e, es = front ++ [marked bg e] ∧
        Parser.run s ts = Parser.run
          ⟨.nested e, { s.list with elements := front.reverse ++ s.list.elements }, s.outer⟩ rest
  | .one h => by
    intro s hs
    obtain ⟨e, rfl, hrun⟩ := h.run s hs
    exact ⟨[], e, rfl, hrun⟩
  | @Elems.cons _ _ mid _ e _ h hes => by
    intro s hs
    obtain ⟨_, rfl, hrun⟩ := h.run s hs
    obtain ⟨front, e', rfl, hrun'⟩ := hes.run _ (ready_operand .pipe
      { s.list with elements := e :: s.list.elements } s.outer mid)
    refine ⟨e :: front, e', rfl, ?_⟩
    rw [hrun, run_cons_of_ok rfl, hrun']
    simp

/-- The parser follows the derivation of a pipeline. -/
theorem Pipe.run {ts rest : List Token} {p : Pipeline} :
    Pipe ts p rest → ∀ s : State, Ready s ts → s.list.elements = [] →
      if p.background then
        Parser.run s ts = Parser.run
          ⟨.boundary .amp, ⟨.ofChain s.list.chain p [] :: s.list.blocks, [], []⟩, s.outer⟩ rest
      else ∃ e l, l.pipeline e false = p ∧ l.chain = s.list.chain ∧ l.blocks = s.list.blocks ∧
        Parser.run s ts = Parser.run ⟨.nested e, l, s.outer⟩ rest
  | .foreground h => by
    intro s hs hnil
    obtain ⟨front, e, rfl, hrun⟩ := h.run s hs
    refine ⟨e, { s.list with elements := front.reverse ++ s.list.elements }, ?_, rfl, rfl, hrun⟩
    simp [Open.pipeline, hnil, ofElements_append]
  | @Pipe.background _ rest _ h => by
    intro s hs hnil
    obtain ⟨front, e, rfl, hrun⟩ := h.run s hs
    show Parser.run s ts = _
    rw [hrun, run_cons_of_ok rfl]
    simp [Open.endBlock, Open.pipeline, hnil, ofElements_append]

/-- The parser follows the derivation of a block. -/
theorem Chain.run {ts rest : List Token} {b : Block} :
    Chain ts b rest → ∀ s : State, Ready s ts → s.list.elements = [] →
      EndsBlock rest ∨ b.background = true →
      Parser.run s ts = if b.background then
          Parser.run ⟨.boundary .amp,
            ⟨.ofChain s.list.chain b.first b.rest :: s.list.blocks, [], []⟩, s.outer⟩ rest
        else ended ⟨.ofChain s.list.chain b.first b.rest :: s.list.blocks, [], []⟩ s.outer rest
  | .one (p := p) h => by
    intro s hs hnil hend
    have hrun := h.run s hs hnil
    have hbg : Block.background ⟨p, []⟩ = p.background := rfl
    rw [hbg] at hend ⊢
    cases hp : p.background with
    | true =>
      rw [hp] at hrun
      exact hrun
    | false =>
      simp only [hp, Bool.false_eq_true, if_false, or_false] at hrun hend ⊢
      obtain ⟨e, l, rfl, hchain, hblocks, hrun⟩ := hrun
      rw [hrun, run_nested_eq_ended e l s.outer hend, ← hchain, ← hblocks]
      rfl
  | @Chain.cons _ mid _ p q c links h hp hb => by
    intro s hs hnil hend
    have hrun := h.run s hs hnil
    simp only [hp, Bool.false_eq_true, if_false] at hrun
    obtain ⟨e, l, rfl, hchain, hblocks, hrun⟩ := hrun
    rw [background_cons] at hend ⊢
    rw [hrun, run_cons_of_ok rfl]
    refine (hb.run _ (ready_operand (.connector c)
      ⟨l.blocks, (l.pipeline e false, c) :: l.chain, []⟩ s.outer mid) rfl hend).trans ?_
    rw [← hchain, ← hblocks]
    rfl

/-- **The parser follows the derivation of a list of blocks**, up to what closes the list. -/
theorem Blocks.run {o : Option Opener} {ts rest : List Token} {bs : List Block} :
    Blocks o ts bs rest → ∀ (bd : Boundary) (blocks : List Block)
      (outer : List (Open × Opener)), opener outer = o → Closed o rest →
      Parser.run ⟨.boundary bd, ⟨blocks, [], []⟩, outer⟩ ts =
        ended ⟨bs.reverse ++ blocks, [], []⟩ outer rest
  | .last (b := b) hcan h => by
    intro bd blocks outer ho hclosed
    refine (h.run _ (h.ready bd _ (ho ▸ hcan)) rfl (.inl hclosed.endsBlock)).trans ?_
    simp only [ofChain_nil]
    cases hb : b.background with
    | false => rfl
    | true =>
      exact run_boundary_eq_ended .amp (List.cons_ne_nil b blocks) (ho ▸ hclosed) fun _ => rfl
  | .lastSemi (b := b) hcan hne h => by
    intro bd blocks outer ho hclosed
    have houter : outer ≠ [] := by rintro rfl; exact hne ho.symm
    refine (h.run _ (h.ready bd _ (ho ▸ hcan)) rfl (.inl (endsBlock_semi rest))).trans ?_
    simp only [ofChain_nil, ite_semi]
    exact run_boundary_eq_ended .semi (List.cons_ne_nil b blocks) (ho ▸ hclosed)
      fun h => (houter h).elim
  | @Blocks.semi _ _ mid _ b bs hcan h hbs => by
    intro bd blocks outer ho hclosed
    refine (h.run _ (h.ready bd _ (ho ▸ hcan)) rfl (.inl (endsBlock_semi mid))).trans ?_
    simp only [ofChain_nil, ite_semi]
    simpa using hbs.run .semi (b :: blocks) outer ho hclosed
  | .background (b := b) hcan hb h hbs => by
    intro bd blocks outer ho hclosed
    refine (h.run _ (h.ready bd _ (ho ▸ hcan)) rfl (.inr hb)).trans ?_
    simp only [ofChain_nil, hb, if_true]
    simpa using hbs.run .amp (b :: blocks) outer ho hclosed

end

end Conch.Grammar

namespace Conch.Parser

open Conch.Grammar

/-! ## Every accepted list has a derivation

Each of the four statements below starts at a state from which the rest of the line is accepted,
and finds the derivation of what the parser reads next.  An element may hold a list, so they are
proved together, by induction on a bound `n` on the tokens that are left. -/

/-- Behind every accepted element there is a derivation of it. -/
def ElemSound (n : ℕ) : Prop :=
  ∀ (ts : List Token) (s : State) (c : Command), ts.length ≤ n → ts ≠ [] → Ready s ts →
    run s ts = .ok c →
    ∃ e rest, Elem false ts e rest ∧ rest.length < ts.length ∧
      run ⟨.nested e, s.list, s.outer⟩ rest = .ok c

/-- Behind all accepted elements of a pipeline there is a derivation of them. -/
def ElemsSound (n : ℕ) : Prop :=
  ∀ (ts : List Token) (s : State) (c : Command), ts.length ≤ n → ts ≠ [] → Ready s ts →
    run s ts = .ok c →
    ∃ front e rest, Elems false ts (front ++ [e]) rest ∧ rest.length < ts.length ∧
      rest.head? ≠ some .pipe ∧
      run ⟨.nested e, { s.list with elements := front.reverse ++ s.list.elements }, s.outer⟩ rest
        = .ok c

/-- Behind every accepted block there is a derivation of it. -/
def ChainSound (n : ℕ) : Prop :=
  ∀ (ts : List Token) (s : State) (c : Command), ts.length ≤ n → ts ≠ [] → Ready s ts →
    s.list.elements = [] → run s ts = .ok c →
    ∃ b rest, Chain ts b rest ∧ rest.length < ts.length ∧
      (if b.background then
        run ⟨.boundary .amp, ⟨.ofChain s.list.chain b.first b.rest :: s.list.blocks, [], []⟩,
          s.outer⟩ rest
      else ended ⟨.ofChain s.list.chain b.first b.rest :: s.list.blocks, [], []⟩ s.outer rest)
        = .ok c

/-- Behind every accepted list of blocks there is a derivation of it. -/
def BlocksSound (n : ℕ) : Prop :=
  ∀ (ts : List Token) (bd : Boundary) (blocks : List Block) (outer : List (Open × Opener))
    (c : Command), ts.length ≤ n → ts ≠ [] → Ready ⟨.boundary bd, ⟨blocks, [], []⟩, outer⟩ ts →
    CanStart (opener outer) ts → run ⟨.boundary bd, ⟨blocks, [], []⟩, outer⟩ ts = .ok c →
    ∃ bs rest, Blocks (opener outer) ts bs rest ∧ rest.length < ts.length ∧
      Closed (opener outer) rest ∧ ended ⟨bs.reverse ++ blocks, [], []⟩ outer rest = .ok c

/-- What an accepted run finds at the start of a block: the end of the list, a `;` behind `&`,
or a block. -/
lemma boundary_cases {bd : Boundary} {blocks : List Block} {outer : List (Open × Opener)}
    {ts : List Token} {c : Command}
    (h : run ⟨.boundary bd, ⟨blocks, [], []⟩, outer⟩ ts = .ok c) :
    (Closed (opener outer) ts ∧ (bd = .amp ∨ opener outer ≠ none) ∧
        (bd = .amp ∨ blocks ≠ []) ∧ ended ⟨blocks, [], []⟩ outer ts = .ok c) ∨
      (bd = .amp ∧ ∃ ts', ts = .semi :: ts' ∧
        run ⟨.boundary .semi, ⟨blocks, [], []⟩, outer⟩ ts' = .ok c) ∨
      (ts ≠ [] ∧ CanStart (opener outer) ts ∧
        Ready ⟨.boundary bd, ⟨blocks, [], []⟩, outer⟩ ts) := by
  cases ts with
  | nil =>
    cases outer with
    | nil =>
      cases bd with
      | amp => exact .inl ⟨rfl, .inl rfl, .inl rfl, h⟩
      | opening | semi => cases h
    | cons frame outer => cases bd <;> cases h
  | cons t ts =>
    by_cases hcl : closes outer t = true
    · cases outer with
      | nil => simp [closes] at hcl
      | cons frame outer =>
        obtain ⟨list, o⟩ := frame
        obtain rfl : t = o.closer := by simpa [closes] using hcl
        have hne : blocks ≠ [] := by
          rintro rfl
          obtain ⟨s', hs', -⟩ := exists_step_of_run_cons h
          simp [step, hcl] at hs'
        have hclosed : Closed (opener ((list, o) :: outer)) (o.closer :: ts) := ⟨ts, rfl⟩
        refine .inl ⟨hclosed, .inr (by simp [opener]), .inr hne, ?_⟩
        rw [← run_boundary_eq_ended bd hne hclosed (by simp)]
        exact h
    · by_cases hsemi : bd = .amp ∧ t = .semi
      · obtain ⟨rfl, rfl⟩ := hsemi
        have hstep : step ⟨.boundary .amp, ⟨blocks, [], []⟩, outer⟩ .semi =
            .ok ⟨.boundary .semi, ⟨blocks, [], []⟩, outer⟩ := by simp [step, hcl]
        exact .inr (.inl ⟨rfl, ts, rfl, by rw [← run_cons_of_ok hstep ts]; exact h⟩)
      · refine .inr (.inr ⟨by simp, ?_, ?_⟩)
        · intro ho hhead
          cases outer with
          | nil => simp [opener] at ho
          | cons frame outer =>
            obtain ⟨list, o⟩ := frame
            obtain rfl : o = .brace := by simpa [opener] using ho
            obtain rfl : t = rbrace := by simpa using hhead
            simp [closes, Opener.closer] at hcl
        · intro t' ht'
          obtain rfl : t = t' := by simpa using ht'
          simp [step, hcl, hsemi]

/-- Behind every accepted simple command there are its items. -/
lemma items_sound (n : ℕ) : ∀ (ts : List Token) (d : Draft) (l : Open)
    (outer : List (Open × Opener)) (c : Command), ts.length ≤ n →
    run ⟨.simple d, l, outer⟩ ts = .ok c →
    ∃ ws rs rest, Items ts ws rs rest ∧ Stops rest ∧
      run ⟨.nested (.simple ⟨d.parts.reverse ++ ws, d.redirects.reverse ++ rs, false⟩), l, outer⟩
        rest = .ok c := by
  induction n using Nat.strong_induction_on with
  | _ n ih =>
    intro ts d l outer c hn h
    -- a token that is no item ends the command where it stands
    have hdone : Stops ts → ∃ ws rs rest, Items ts ws rs rest ∧ Stops rest ∧
        run ⟨.nested (.simple ⟨d.parts.reverse ++ ws, d.redirects.reverse ++ rs, false⟩), l, outer⟩
          rest = .ok c := by
      intro hstops
      refine ⟨[], [], ts, .nil ts, hstops, ?_⟩
      rw [run_simple_eq_nested d l outer hstops] at h
      simpa [Draft.command] using h
    cases ts with
    | nil => exact hdone (by simp [Stops])
    | cons t ts =>
      rw [List.length_cons] at hn
      cases t with
      | word w =>
        obtain ⟨ws, rs, rest, hitems, hstops, hrun⟩ :=
          ih ts.length (by omega) ts (d.addWord w) l outer c (Nat.le_refl _) h
        refine ⟨w :: ws, rs, rest, .word hitems, hstops, ?_⟩
        simpa [Draft.addWord] using hrun
      | redirect op =>
        by_cases hop : op = .errorToOutput
        · subst hop
          obtain ⟨ws, rs, rest, hitems, hstops, hrun⟩ :=
            ih ts.length (by omega) ts (d.addRedirect .errorToOutput "") l outer c (Nat.le_refl _) h
          refine ⟨ws, ⟨.errorToOutput, ""⟩ :: rs, rest, .join hitems, hstops, ?_⟩
          simpa [Draft.addRedirect] using hrun
        · have hmode : step ⟨.simple d, l, outer⟩ (.redirect op) =
              .ok ⟨.target d op, l, outer⟩ := by
            simp [step, redirectMode, takesFile_of_ne hop]
          rw [run_cons_of_ok hmode] at h
          cases ts with
          | nil => cases h
          | cons t ts =>
            rw [List.length_cons] at hn
            cases t with
            | word f =>
              obtain ⟨ws, rs, rest, hitems, hstops, hrun⟩ :=
                ih ts.length (by omega) ts (d.addRedirect op f) l outer c (Nat.le_refl _) h
              refine ⟨ws, ⟨op, f⟩ :: rs, rest, .file hop hitems, hstops, ?_⟩
              simpa [Draft.addRedirect] using hrun
            | _ => cases h
      | _ => exact hdone (by simp [Stops, isItem])

/-- An element that starts with an opener holds an accepted list. -/
lemma nested_sound {n : ℕ} (h : BlocksSound n) {ts : List Token} (hn : ts.length ≤ n)
    {list : Open} {o : Opener} {outer : List (Open × Opener)} {c : Command}
    (hrun : run ⟨.boundary .opening, .new, (list, o) :: outer⟩ ts = .ok c) :
    ∃ bs rest, Blocks (some o) ts bs (o.closer :: rest) ∧ rest.length < ts.length ∧
      run ⟨.nested (o.wrap ⟨bs⟩), list, outer⟩ rest = .ok c := by
  rcases boundary_cases hrun with ⟨-, -, hne, -⟩ | ⟨hamp, -⟩ | ⟨hne, hcan, hready⟩
  · simp at hne
  · cases hamp
  · obtain ⟨bs, rest, hblocks, hlen, hclosed, hended⟩ := h ts _ [] _ c hn hne hready hcan hrun
    obtain ⟨rest', rfl⟩ := hclosed
    refine ⟨bs, rest', hblocks, by simp at hlen; omega, ?_⟩
    rw [ended_closer] at hended
    simpa [Open.command] using hended

/-- An accepted element is a simple command, or an opener with an accepted list behind it. -/
lemma elemSound {n : ℕ} (ih : ∀ m < n, BlocksSound m) : ElemSound n := by
  intro ts s c hn hne hready h
  cases ts with
  | nil => exact (hne rfl).elim
  | cons t ts =>
    rw [List.length_cons] at hn
    have hsub := ih ts.length (by omega)
    have hstart : step s t = start s t := hready t rfl
    -- an item starts a simple command as if it had been read in one
    have hsimple : isItem t = true → t ≠ lbrace →
        start s t = step ⟨.simple ⟨[], []⟩, s.list, s.outer⟩ t →
        ∃ e rest, Elem false (t :: ts) e rest ∧ rest.length < (t :: ts).length ∧
          run ⟨.nested e, s.list, s.outer⟩ rest = .ok c := by
      intro hitem hbrace heq
      have hrun : run ⟨.simple ⟨[], []⟩, s.list, s.outer⟩ (t :: ts) = .ok c := by
        rw [run_cons, ← heq, ← hstart, ← run_cons]
        exact h
      obtain ⟨ws, rs, rest, hitems, hstops, hrun⟩ := items_sound _ _ _ _ _ _ (Nat.le_refl _) hrun
      obtain ⟨hne, hlen⟩ := hitems.of_item hstops hitem
      exact ⟨_, rest, .simple hitems hne (by simpa using hbrace) hstops, hlen, hrun⟩
    cases t with
    | lparen =>
      rw [run_cons_of_ok hstart] at h
      obtain ⟨bs, rest, hblocks, hlen, hrun⟩ := nested_sound hsub (Nat.le_refl _) h
      exact ⟨_, rest, .subshell hblocks, by simp; omega, hrun⟩
    | word w =>
      by_cases hw : w = Opener.brace.text
      · have hopen : step s (.word w) =
            .ok ⟨.boundary .opening, .new, (s.list, .brace) :: s.outer⟩ := by
          rw [hstart]
          simp [start, hw]
        rw [run_cons_of_ok hopen] at h
        obtain ⟨bs, rest, hblocks, hlen, hrun⟩ := nested_sound hsub (Nat.le_refl _) h
        subst hw
        exact ⟨_, rest, .group hblocks, by simp; omega, hrun⟩
      · refine hsimple rfl (fun heq => hw (Token.word.inj heq)) ?_
        simp [start, step, hw, Draft.addWord]
    | redirect op => exact hsimple rfl (by simp) rfl
    | _ =>
      obtain ⟨s', hs', -⟩ := exists_step_of_run_cons h
      rw [hstart] at hs'
      cases hs'

/-- Behind an accepted element there is a `|` and then another, or the pipeline ends. -/
lemma elemsSound {n : ℕ} (helem : ElemSound n) : ElemsSound n := by
  intro ts
  generalize hk : ts.length = k
  induction k using Nat.strong_induction_on generalizing ts with
  | _ k ih =>
    intro s c hn hne hready h
    obtain ⟨e, rest, he, hlen, hrun⟩ := helem ts s c (by omega) hne hready h
    by_cases hpipe : ∃ mid, rest = .pipe :: mid
    · obtain ⟨mid, rfl⟩ := hpipe
      rw [run_cons_of_ok rfl] at hrun
      have hmid : mid ≠ [] := by rintro rfl; cases hrun
      have hless : mid.length < ts.length := by simp at hlen; omega
      obtain ⟨front, e', rest, hes, hlen', hhead, hrun'⟩ := ih mid.length (by omega) mid rfl _ c
        (by omega) hmid (ready_operand .pipe _ _ mid) hrun
      refine ⟨e :: front, e', rest, .cons he hes, by omega, hhead, ?_⟩
      simpa using hrun'
    · refine ⟨[], e, rest, .one he, by omega, fun hhead => hpipe ?_, hrun⟩
      exact List.head?_eq_some_iff.mp hhead

/-- An accepted block is a pipeline in the background, or one with a connector behind it and
then another block, or one at which the block ends. -/
lemma chainSound {n : ℕ} (helems : ElemsSound n) : ChainSound n := by
  intro ts
  generalize hk : ts.length = k
  induction k using Nat.strong_induction_on generalizing ts with
  | _ k ih =>
    intro s c hn hne hready hnil h
    obtain ⟨front, e, rest, hes, hlen, hpipe, hrun⟩ := helems ts s c (by omega) hne hready h
    by_cases hamp : ∃ mid, rest = .amp :: mid
    · obtain ⟨mid, rfl⟩ := hamp
      rw [run_cons_of_ok rfl] at hrun
      refine ⟨_, mid, .one (.background hes.mark), by simp at hlen; omega, ?_⟩
      simpa [Block.background, Block.first, Block.rest, Pipeline.background, Open.endBlock,
        Open.pipeline, hnil, ofElements_append, marked] using hrun
    by_cases hconn : ∃ cn mid, rest = .connector cn :: mid
    · obtain ⟨cn, mid, rfl⟩ := hconn
      rw [run_cons_of_ok rfl] at hrun
      have hmid : mid ≠ [] := by rintro rfl; cases hrun
      have hless : mid.length < ts.length := by simp at hlen; omega
      obtain ⟨⟨q, links⟩, rest, hb, hlen', hrun'⟩ := ih mid.length (by omega) mid rfl _ c
        (by omega) hmid (ready_operand (.connector cn) _ _ mid) rfl hrun
      refine ⟨_, rest, .cons (.foreground hes) rfl hb, by omega, ?_⟩
      rw [background_cons]
      simpa [Block.first, Block.rest, Block.ofChain, Open.pipeline, hnil, Pipeline.ofElements]
        using hrun'
    · have hend : EndsBlock rest := by
        intro t ht
        obtain ⟨mid, rfl⟩ := List.head?_eq_some_iff.mp ht
        refine ⟨?_, ?_, ?_⟩
        · rintro rfl; exact hpipe rfl
        · rintro rfl; exact hamp ⟨mid, rfl⟩
        · rintro cn rfl; exact hconn ⟨cn, mid, rfl⟩
      rw [run_nested_eq_ended e _ _ hend] at hrun
      refine ⟨_, rest, .one (.foreground hes), by omega, ?_⟩
      simpa [Block.background, Block.first, Block.rest, Pipeline.background, Open.endBlock,
        Open.pipeline, hnil, Pipeline.ofElements] using hrun

/-- Behind an accepted block the list ends, or another block follows. -/
lemma blocksSound_of_chainSound {n : ℕ} (hchain : ChainSound n) : BlocksSound n := by
  intro ts
  generalize hk : ts.length = k
  induction k using Nat.strong_induction_on generalizing ts with
  | _ k ih =>
    intro bd blocks outer c hn hne hready hcan h
    obtain ⟨b, rest, hb, hlen, hrun⟩ := hchain ts _ c (by omega) hne hready rfl h
    simp only [ofChain_nil] at hrun
    -- the blocks behind `b`, wherever the parser finds them
    have hmore : ∀ {bd' : Boundary} {mid : List Token}, mid.length < ts.length →
        (∀ bs rest, Blocks (opener outer) mid bs rest → Blocks (opener outer) ts (b :: bs) rest) →
        mid ≠ [] → CanStart (opener outer) mid →
        Ready ⟨.boundary bd', ⟨b :: blocks, [], []⟩, outer⟩ mid →
        run ⟨.boundary bd', ⟨b :: blocks, [], []⟩, outer⟩ mid = .ok c →
        ∃ bs rest, Blocks (opener outer) ts bs rest ∧ rest.length < k ∧
          Closed (opener outer) rest ∧ ended ⟨bs.reverse ++ blocks, [], []⟩ outer rest = .ok c := by
      intro bd' mid hless hcons hne' hcan' hready' hrun'
      obtain ⟨bs, rest, hbs, hlen', hclosed, hended⟩ := ih mid.length (by omega) mid rfl bd'
        (b :: blocks) outer c (by omega) hne' hready' hcan' hrun'
      exact ⟨b :: bs, rest, hcons bs rest hbs, by omega, hclosed, by simpa using hended⟩
    -- the same behind a `;`, where the list may also end
    have hsemi : ∀ mid, Chain ts b (.semi :: mid) → mid.length < ts.length →
        run ⟨.boundary .semi, ⟨b :: blocks, [], []⟩, outer⟩ mid = .ok c →
        ∃ bs rest, Blocks (opener outer) ts bs rest ∧ rest.length < k ∧
          Closed (opener outer) rest ∧ ended ⟨bs.reverse ++ blocks, [], []⟩ outer rest = .ok c := by
      intro mid hb hless hrun'
      rcases boundary_cases hrun' with ⟨hclosed, ho, -, hended⟩ | ⟨hamp, -⟩ | ⟨hne', hcan', hready'⟩
      · exact ⟨[b], mid, .lastSemi hcan (ho.resolve_left (by simp)) hb, by omega, hclosed, hended⟩
      · cases hamp
      · exact hmore hless (fun _ _ hbs => .semi hcan hb hbs) hne' hcan' hready' hrun'
    cases hbg : b.background with
    | true =>
      rw [hbg, if_pos rfl] at hrun
      rcases boundary_cases hrun with ⟨hclosed, -, -, hended⟩ | ⟨-, mid, rfl, hrun'⟩ |
        ⟨hne', hcan', hready'⟩
      · exact ⟨[b], rest, .last hcan hb, by omega, hclosed, hended⟩
      · exact hsemi mid hb (by simp at hlen; omega) hrun'
      · exact hmore hlen (fun _ _ hbs => .background hcan hbg hb hbs) hne' hcan' hready' hrun
    | false =>
      rw [hbg, if_neg Bool.false_ne_true] at hrun
      by_cases hs : ∃ mid, rest = .semi :: mid
      · obtain ⟨mid, rfl⟩ := hs
        exact hsemi mid hb (by simp at hlen; omega) hrun
      · exact ⟨[b], rest, .last hcan hb, by omega, closed_of_ended hs hrun, hrun⟩

/-- **Behind every accepted list there is a derivation.** -/
theorem blocksSound (n : ℕ) : BlocksSound n := by
  induction n using Nat.strong_induction_on with
  | _ n ih => exact blocksSound_of_chainSound (chainSound (elemsSound (elemSound ih)))

/-- **The parser accepts the tokens that the grammar derives**, and builds the tree of the
derivation. -/
theorem ofTokens_eq_ok_iff {ts : List Token} {c : Command} :
    Command.ofTokens ts = .ok c ↔ Derives ts c := by
  have hrun : Command.ofTokens ts = run ⟨.boundary .opening, ⟨[], [], []⟩, []⟩ ts := rfl
  rw [hrun]
  constructor
  · intro h
    rcases boundary_cases h with ⟨-, hb, -⟩ | ⟨hamp, -⟩ | ⟨hne, hcan, hready⟩
    · simp [opener] at hb
    · cases hamp
    · obtain ⟨bs, rest, hbs, -, hclosed, hended⟩ :=
        blocksSound ts.length ts _ _ _ c (Nat.le_refl _) hne hready hcan h
      obtain rfl : rest = [] := hclosed
      obtain rfl : (⟨bs⟩ : Command) = c := by simpa [ended, Open.command] using hended
      exact hbs
  · intro h
    obtain ⟨bs⟩ := c
    refine (h.run .opening [] [] rfl rfl).trans ?_
    simp [ended, Open.command, Command.blocks]

/-- Behind `;` the parser is at the start of a block. -/
lemma mode_of_step_semi {s s' : State} (h : step s .semi = .ok s') :
    s'.mode = .boundary .semi := by
  obtain ⟨mode, l, outer⟩ := s
  cases mode with
  | boundary b =>
    by_cases hb : b = .amp
    · simp [step, closes_semi, hb] at h
      rw [← h]
    · simp [step, closes_semi, hb, start] at h
  | operand op => cases h
  | simple d => cases h; rfl
  | target d op => cases h
  | nested e => cases h; rfl

/-- No accepted tokens end in `;`. -/
lemma dropLastSemi_of_ofTokens {ts : List Token} {c : Command}
    (h : Command.ofTokens ts = .ok c) : Token.dropLastSemi ts = ts := by
  refine if_neg fun hlast => ?_
  obtain ⟨front, rfl⟩ := List.getLast?_eq_some_iff.mp hlast
  have hrun : run .initial (front ++ [.semi]) = .ok c := h
  obtain ⟨s, -, hrun⟩ := exists_read_of_run_append hrun
  obtain ⟨s', hs', hfinish⟩ := exists_step_of_run_cons hrun
  obtain ⟨mode, l, outer⟩ := s'
  obtain rfl : mode = .boundary .semi := mode_of_step_semi hs'
  cases outer <;> cases hfinish

/-- The grammar is unambiguous: the tokens of a line have one tree. -/
lemma derives_unique {ts : List Token} {c c' : Command} (h : Derives ts c)
    (h' : Derives ts c') : c = c' := by
  have hparse := ofTokens_eq_ok_iff.mpr h
  rw [ofTokens_eq_ok_iff.mpr h'] at hparse
  exact (Except.ok.inj hparse).symm

lemma parse_of_tokenize {line : String} {ts : List Token} (h : Token.tokenize line = .ok ts) :
    Command.parse line = Command.ofTokens (Token.dropLastSemi ts) := by
  unfold Command.parse
  rw [h]
  rfl

/-- A line is accepted when it has tokens and these are accepted. -/
lemma parse_eq_ok_iff {line : String} {c : Command} :
    Command.parse line = .ok c ↔
      ∃ ts, Token.tokenize line = .ok ts ∧ Command.ofTokens (Token.dropLastSemi ts) = .ok c := by
  cases htokens : Token.tokenize line with
  | error q =>
    unfold Command.parse
    rw [htokens]
    exact ⟨nofun, nofun⟩
  | ok ts =>
    rw [parse_of_tokenize htokens]
    exact ⟨fun h => ⟨ts, rfl, h⟩, fun ⟨_, heq, h⟩ => Except.ok.inj heq ▸ h⟩

/-- **The parser accepts exactly its grammar**: a line is accepted as the command `c` when it has
tokens, and these spell `c` once a `;` at their end is dropped. -/
theorem parse_eq_ok_iff_derives (line : String) (c : Command) :
    Command.parse line = .ok c ↔
      ∃ ts, Token.tokenize line = .ok ts ∧ Derives (Token.dropLastSemi ts) c := by
  rw [parse_eq_ok_iff]
  exact exists_congr fun ts => and_congr_right fun _ => ofTokens_eq_ok_iff

end Conch.Parser
