import Mathlib.Data.List.Basic
import Conch.Glob
import Conch.Proofs.Listing
import Conch.Proofs.Patterns
import Conch.Proofs.Relative

/-!
# Searching a directory whose path stands for itself

A pattern that begins with a path that stands for itself is searched in one directory: each part of
the path leads to one spot or to none, whether the part is looked up by its name or, because it has
a special character, among the names of the directory above.  What remains is the last part of the
pattern, which is tried against the names that the directory shows, and, if it begins with a dot,
against `..` and `.`.

## Main definitions

* `Glob.descend` — the spot to which a part of a path leads.
* `Glob.offered` — the names against which the last part of a pattern is tried.

## Main results

* `Glob.below_escaped` — **a path that stands for itself leads to one spot.**
* `Glob.expand?_escaped` — **what is found is what matches in the directory that is reached.**
-/

set_option autoImplicit false

namespace Conch.Pattern

/-! ## Reading a path that stands for itself -/

lemma splitComponents_ne_nil {cs : List Char} (h : cs ≠ []) : splitComponents cs ≠ [] := by
  unfold splitComponents
  split
  · exact absurd rfl h
  · exact List.cons_ne_nil _ _
  · exact List.cons_ne_nil _ _
  · exact List.cons_ne_nil _ _
  · split <;> exact List.cons_ne_nil _ _

/-- A character that is no slash belongs to the first component. -/
lemma splitComponents_cons {c : Char} {cs : List Char} (hc : c ≠ '/') (hcs : cs ≠ []) :
    splitComponents (c :: cs) = (splitComponents cs).modifyHead (List.cons c) := by
  obtain ⟨d, cs, rfl⟩ := List.exists_cons_of_ne_nil hcs
  by_cases hd : d = '/'
  · subst hd
    have hslash : splitComponents (c :: '/' :: cs) = [c] :: splitComponents cs := by
      rw [splitComponents]
      exact hc
    exact hslash
  · rw [splitComponents]
    · cases hsplit : splitComponents (d :: cs) with
      | nil => exact absurd hsplit (splitComponents_ne_nil hcs)
      | cons part parts => rfl
    · exact hc
    · exact nofun
    · rintro cs' ⟨⟩
      exact hd rfl

/-- A slash ends a component. -/
lemma splitComponents_append_slash (as bs : List Char) :
    splitComponents (as ++ '/' :: bs) = Path.splitSlash as ++ splitComponents bs := by
  induction as with
  | nil => rfl
  | cons c as ih =>
    by_cases hc : c = '/'
    · subst hc
      rw [List.cons_append, splitComponents, ih]
      rfl
    · rw [List.cons_append, splitComponents_cons hc (by simp), ih, Path.splitSlash_cons hc]
      cases hsplit : Path.splitSlash as with
      | nil => exact absurd hsplit (Path.splitSlash_ne_nil as)
      | cons part parts => rfl

/-- A text without a slash is one component. -/
lemma splitComponents_of_not_mem {cs : List Char} (hne : cs ≠ []) (h : '/' ∉ cs) :
    splitComponents cs = [cs] := by
  induction cs with
  | nil => exact absurd rfl hne
  | cons c cs ih =>
    obtain ⟨hc, hcs⟩ := not_or.mp (List.mem_cons.not.mp h)
    cases cs with
    | nil =>
      rw [splitComponents]
      exact Ne.symm hc
    | cons d cs =>
      rw [splitComponents_cons (Ne.symm hc) (List.cons_ne_nil d cs), ih (List.cons_ne_nil d cs) hcs]
      rfl

lemma escape_append (cs cs' : List Char) : escape (cs ++ cs') = escape cs ++ escape cs' :=
  List.flatMap_append

/-- A slash stands for itself. -/
lemma escape_slash_cons (cs : List Char) : escape ('/' :: cs) = '/' :: escape cs := rfl

lemma escape_singleton (c : Char) :
    escape [c] = if c ∈ ['?', '*', '[', ']'] then ['[', c, ']'] else [c] :=
  List.append_nil _

lemma escape_singleton_ne_nil (c : Char) : escape [c] ≠ [] := by
  rw [escape_singleton]
  split_ifs <;> exact List.cons_ne_nil _ _

/-- What stands for a character that is no slash has no slash. -/
lemma not_mem_escape_singleton {c : Char} (hc : c ≠ '/') : '/' ∉ escape [c] := by
  rw [escape_singleton]
  split_ifs
  · simp [Ne.symm hc]
  · simp [Ne.symm hc]

/-- The parts of a text that stands for itself stand for themselves. -/
lemma splitSlash_escape (cs : List Char) :
    Path.splitSlash (escape cs) = (Path.splitSlash cs).map escape := by
  induction cs with
  | nil => rfl
  | cons c cs ih =>
    by_cases hc : c = '/'
    · subst hc
      rw [escape_slash_cons, Path.splitSlash, ih]
      rfl
    · have hcons : escape (c :: cs) = escape [c] ++ escape cs := escape_append [c] cs
      rw [hcons, Path.splitSlash_append (not_mem_escape_singleton hc), ih, Path.splitSlash_cons hc]
      cases hsplit : Path.splitSlash cs with
      | nil => exact absurd hsplit (Path.splitSlash_ne_nil cs)
      | cons part parts =>
        simp only [List.map_cons, List.modifyHead_cons, List.cons.injEq, and_true]
        exact (escape_append [c] part).symm

/-- The component of a text that stands for itself. -/
lemma component?_escape (part : List Char) :
    component? (escape part) = some (.items (part.map literalItem)) := by
  have hitems : items? none (escape part) = some (part.map literalItem) := by
    have hread := items?_escape part []
    rw [List.append_nil] at hread
    rw [hread, items?]
    simp
  have hstars : escape part ≠ ['*', '*'] := by
    intro heq
    rw [heq] at hitems
    cases hitems
  rw [component?, if_neg hstars, hitems, Option.map_some]

end Conch.Pattern

namespace Conch.Glob

open Pattern

variable {t : FileTree} {s : Spot}

/-! ## The names that a directory shows -/

/-- What a directory at a path shows: names in order, none of them hidden, each with the path of its
entry. -/
structure Shown (path : String) (shown : List (String × Spot)) : Prop where
  ordered : (shown.map Prod.fst).Pairwise (· < ·)
  named : ∀ e ∈ shown, FileTree.IsEntryName e.1
  visible : ∀ e ∈ shown, ¬ ['.'] <+: e.1.toList
  path : ∀ e ∈ shown, e.2.path = Path.join path e.1

/-- The spot at the path of an entry. -/
def entrySpot (t : FileTree) (path : String) (i : NodeId) : Spot :=
  match t.nodes[i]? with
  | some (.directory ..) => ⟨path, true⟩
  | some (.link _) => .at t path
  | _ => ⟨path, false⟩

/-- The path of an entry is its path. -/
lemma path_entrySpot (t : FileTree) (path : String) (i : NodeId) :
    (entrySpot t path i).path = path := by
  unfold entrySpot
  split <;> rfl

/-- The entries of a directory that are not hidden. -/
def unhidden (entries : List (String × NodeId)) : List (String × NodeId) :=
  entries.filter fun e => !e.1.startsWith "."

lemma mem_unhidden {entries : List (String × NodeId)} {e : String × NodeId} :
    e ∈ unhidden entries ↔ e ∈ entries ∧ ¬ ['.'] <+: e.1.toList := by
  rw [unhidden, List.mem_filter, Bool.not_eq_true', ← Bool.not_eq_true,
    String.startsWith_string_iff]
  rfl

/-- What a directory shows: its entries that are not hidden. -/
lemma children_of_find {dir : NodeId} (h : t.find s.path true = .ok dir) :
    children t s = (unhidden ((t.entries? dir).getD [])).map fun e =>
      (e.1, entrySpot t (Path.join s.path e.1) e.2) := by
  rw [children, h, unhidden]
  simp only
  rw [← List.filterMap_eq_map, List.filterMap_filter]
  refine List.filterMap_congr fun e _ => ?_
  unfold entrySpot
  cases e.1.startsWith "." with
  | true => rfl
  | false =>
    simp only [Bool.not_false, Bool.false_eq_true, if_true, if_false, Function.comp_apply]
    cases t.nodes[e.2]? with
    | none => rfl
    | some n => cases n <;> rfl

/-- What a directory shows are names in order. -/
lemma shown_children (ht : t.WellNamed) (s : Spot) : Shown s.path (children t s) := by
  cases hfind : t.find s.path true with
  | error e =>
    rw [children, hfind]
    exact ⟨List.Pairwise.nil, nofun, nofun, nofun⟩
  | ok dir =>
    have hlisted : FileTree.Listed ((t.entries? dir).getD []) := by
      cases hentries : t.entries? dir with
      | none => exact .nil
      | some entries => exact ht dir entries hentries
    rw [children_of_find hfind]
    generalize (t.entries? dir).getD [] = entries at hlisted
    refine ⟨?_, fun e he => ?_, fun e he => ?_, fun e he => ?_⟩
    · rw [List.map_map]
      exact hlisted.ordered.sublist (List.filter_sublist.map _)
    · obtain ⟨entry, hentry, rfl⟩ := List.mem_map.mp he
      exact hlisted.named entry.1 (List.mem_map_of_mem (mem_unhidden.mp hentry).1)
    · obtain ⟨entry, hentry, rfl⟩ := List.mem_map.mp he
      exact (mem_unhidden.mp hentry).2
    · obtain ⟨entry, -, rfl⟩ := List.mem_map.mp he
      exact path_entrySpot t _ entry.2

/-- Among names in order, those that are equal to a name are found by looking it up. -/
lemma filter_eq_lookup {shown : List (String × Spot)}
    (h : (shown.map Prod.fst).Pairwise (· < ·)) (name : String) :
    (shown.filter fun e => e.1 = name).map Prod.snd = (shown.lookup name).toList := by
  induction shown with
  | nil => rfl
  | cons e shown ih =>
    obtain ⟨he, hshown⟩ := List.pairwise_cons.mp h
    by_cases heq : e.1 = name
    · -- no other entry has this name
      have hnone : (shown.filter fun e => e.1 = name) = [] := by
        rw [List.filter_eq_nil_iff]
        intro e' he' heq'
        have hlt := he e'.1 (List.mem_map_of_mem he')
        rw [heq, of_decide_eq_true heq'] at hlt
        exact lt_irrefl _ hlt
      rw [List.filter_cons, if_pos (decide_eq_true heq), hnone, ← heq, List.lookup_cons_self]
      rfl
    · have hne : (name == e.1) = false := beq_eq_false_iff_ne.mpr (Ne.symm heq)
      rw [List.filter_cons_of_neg (by simpa using heq), ih hshown, List.lookup_cons, hne]

/-! ## One component -/

variable {list : List Item}

/-- The spot that a name leads to. -/
def named (t : FileTree) (s : Spot) (name : String) : Option Spot :=
  if (if name = "." || name = ".." then s.isDirectory else present t (Path.join s.path name)) then
    some (.at t (Path.join s.path name))
  else none

/-- A component that is a name leads to this name. -/
lemma below_of_literal {name : String} (h : (Component.items list).literal? = some name)
    (depth : Nat) (rest : List Component) :
    below t (depth + 1) (.items list :: rest) s =
      (named t s name).elim [] (below t depth rest) := by
  rw [below, h, named]
  dsimp only
  split_ifs <;> rfl

/-- The names that a component with a wildcard is tried against: those that the directory shows,
and those of the directory itself and the one above, if the component starts with a dot. -/
def offered (t : FileTree) (s : Spot) (dotted : Bool) : List (String × Spot) :=
  (if dotted then ["..", "."].map fun dot => (dot, .at t (Path.join s.path dot)) else []) ++
    children t s

/-- What is offered are dots, or names that the directory shows. -/
lemma mem_offered_iff {dotted : Bool} {e : String × Spot} :
    e ∈ offered t s dotted ↔
      (dotted = true ∧ ∃ dot ∈ ["..", "."], (dot, Spot.at t (Path.join s.path dot)) = e) ∨
        e ∈ children t s := by
  rw [offered, List.mem_append]
  cases dotted with
  | false => simp
  | true => rw [if_pos rfl, List.mem_map, and_iff_right rfl]

/-- No dots have a slash. -/
lemma slash_not_mem_dots : ∀ dot ∈ ["..", "."], '/' ∉ dot.toList := by
  decide

/-- Trying each element of a list is trying those that pass a test. -/
lemma flatMap_ite {α β : Type} (p : α → Bool) (f : α → List β) (l : List α) :
    (l.flatMap fun x => if p x then f x else []) = (l.filter p).flatMap f := by
  induction l with
  | nil => rfl
  | cons x l ih =>
    rw [List.flatMap_cons, ih, List.filter_cons]
    split_ifs <;> rfl

/-- A component with a wildcard leads to the names that match. -/
lemma below_of_wild (h : (Component.items list).literal? = none) (depth : Nat)
    (rest : List Component) :
    below t (depth + 1) (.items list :: rest) s =
      if s.isDirectory then
        ((offered t s (Component.items list).startsWithDot).filter fun e =>
          (Component.items list).matches e.1).flatMap fun e => below t depth rest e.2
      else [] := by
  rw [below, h, offered]
  cases s.isDirectory with
  | false => rfl
  | true =>
    simp only [Bool.not_true, Bool.false_eq_true, if_false, if_true, List.filter_append,
      List.flatMap_append, ← flatMap_ite]
    congr 1
    cases (Component.items list).startsWithDot with
    | false => rfl
    | true => rw [if_pos rfl, if_pos rfl, List.flatMap_map]

/-! ## One part of a path -/

/-- The spot below another one to which a part of a path leads, if there is one.  A part with a
special character is looked for among the names that the directory shows. -/
def descend (t : FileTree) (s : Spot) (part : List Char) : Option Spot :=
  match (Component.items (part.map literalItem)).literal? with
  | some name => named t s name
  | none => if s.isDirectory then (children t s).lookup (String.ofList part) else none

/-- Of the names that are offered, a part with a special character matches those that are equal to
it, and these are no dots. -/
lemma filter_offered (ht : t.WellNamed) {part : List Char} (dotted : Bool)
    (hliteral : (Component.items (part.map literalItem)).literal? = none) :
    ((offered t s dotted).filter fun e => (Component.items (part.map literalItem)).matches e.1) =
      (children t s).filter fun e => e.1 = String.ofList part := by
  have hmatches : ∀ name : String, '/' ∉ name.toList →
      (Component.items (part.map literalItem)).matches name = decide (name = String.ofList part) :=
    fun name hname => by rw [Bool.eq_iff_iff, matches_literalItem_iff hname, decide_eq_true_iff]
  have hdots : ∀ dot ∈ ["..", "."],
      ¬ (Component.items (part.map literalItem)).matches dot = true := by
    intro dot hdot
    rw [matches_literalItem_iff (slash_not_mem_dots dot hdot)]
    intro heq
    have hpart : part = dot.toList := by rw [heq, String.toList_ofList]
    simp only [List.mem_cons, List.not_mem_nil, or_false] at hdot
    obtain rfl | rfl := hdot
    · exact absurd (hpart ▸ hliteral) (by decide)
    · exact absurd (hpart ▸ hliteral) (by decide)
  have hnone : ((if dotted then ["..", "."].map fun dot => (dot, Spot.at t (Path.join s.path dot))
      else []).filter fun e => (Component.items (part.map literalItem)).matches e.1) = [] := by
    rw [List.filter_eq_nil_iff]
    intro e he
    split_ifs at he with hdotted
    · obtain ⟨dot, hdot, rfl⟩ := List.mem_map.mp he
      exact hdots dot hdot
    · cases he
  rw [offered, List.filter_append, hnone, List.nil_append]
  exact List.filter_congr fun e he => hmatches e.1 ((shown_children ht s).named e he).noSlash

/-- A part of a path leads to one spot at most. -/
lemma below_part (ht : t.WellNamed) (part : List Char) (depth : Nat) (rest : List Component) :
    below t (depth + 1) (.items (part.map literalItem) :: rest) s =
      (descend t s part).elim [] (below t depth rest) := by
  unfold descend
  cases hliteral : (Component.items (part.map literalItem)).literal? with
  | some name => exact below_of_literal hliteral depth rest
  | none =>
    rw [below_of_wild hliteral, filter_offered ht _ hliteral]
    split_ifs
    · rw [← List.flatMap_map, filter_eq_lookup (shown_children ht s).ordered]
      cases (children t s).lookup (String.ofList part) with
      | none => rfl
      | some next => exact List.flatMap_singleton ..
    · rfl

/-- **A path that stands for itself leads to one spot at most.** -/
lemma below_escaped (ht : t.WellNamed) (parts : List (List Char)) (depth : Nat)
    (rest : List Component) :
    below t (parts.length + depth) (parts.map (fun part => .items (part.map literalItem)) ++ rest)
      s = (parts.foldlM (descend t) s).elim [] (below t depth rest) := by
  induction parts generalizing s with
  | nil => simp
  | cons part parts ih =>
    have hlength : (part :: parts).length + depth = parts.length + depth + 1 := by
      rw [List.length_cons]
      omega
    rw [hlength, List.map_cons, List.cons_append, below_part ht, List.foldlM_cons]
    cases descend t s part with
    | none => rfl
    | some next => exact ih

/-! ## Where a path leads -/

/-- A part of a path leads to the path behind this part. -/
lemma path_of_descend (ht : t.WellNamed) {part : List Char} {next : Spot}
    (h : descend t s part = some next) : next.path = Path.join s.path (String.ofList part) := by
  unfold descend at h
  split at h
  case h_1 name hliteral =>
    obtain rfl := literal?_literalItem hliteral
    rw [named, Option.ite_none_right_eq_some] at h
    exact Option.some.inj h.2 ▸ rfl
  case h_2 =>
    split_ifs at h
    obtain ⟨front, back, hchildren, -⟩ := List.lookup_eq_some_iff.mp h
    refine (shown_children ht s).path (String.ofList part, next) ?_
    rw [hchildren]
    exact List.mem_append_right _ List.mem_cons_self

/-- **The path to which parts lead has their names.** -/
lemma spells_of_descend (ht : t.WellNamed) {parts front : List (List Char)} {next : Spot}
    (hs : Path.Spells s.path front) (hparts : ∀ part ∈ parts, '/' ∉ part)
    (h : parts.foldlM (descend t) s = some next) :
    ∃ parts', Path.Spells next.path parts' ∧
      Path.counted parts' = Path.counted front ++ Path.counted parts := by
  induction parts generalizing s front with
  | nil =>
    obtain rfl := Option.some.inj h
    exact ⟨front, hs, by simp⟩
  | cons part parts ih =>
    obtain ⟨hpart, hparts⟩ := List.forall_mem_cons.mp hparts
    rw [List.foldlM_cons, Option.bind_eq_bind, Option.bind_eq_some_iff] at h
    obtain ⟨s', hs', hnext⟩ := h
    obtain ⟨front', hfront', hcounted⟩ := hs.join hpart
    rw [← path_of_descend ht hs'] at hfront'
    obtain ⟨parts', hparts', hcounted'⟩ := ih hfront' hparts hnext
    refine ⟨parts', hparts', ?_⟩
    rw [hcounted', hcounted, List.append_assoc, ← Path.counted_append]
    rfl

/-! ## The last component -/

/-- The names in a directory that a component matches. -/
def found (t : FileTree) (s : Spot) (p : Component) : List String :=
  if s.isDirectory then ((offered t s p.startsWithDot).map Prod.fst).filter p.matches else []

/-- Each name that is offered has its own path. -/
lemma path_of_mem_offered (ht : t.WellNamed) {dotted : Bool} {e : String × Spot}
    (h : e ∈ offered t s dotted) : e.2.path = Path.join s.path e.1 := by
  obtain ⟨-, dot, -, rfl⟩ | h := mem_offered_iff.mp h
  · rfl
  · exact (shown_children ht s).path e h

/-- A name that is found has no slash. -/
lemma not_mem_of_mem_found (ht : t.WellNamed) {p : Component} {name : String}
    (h : name ∈ found t s p) : '/' ∉ name.toList := by
  unfold found at h
  split_ifs at h
  · obtain ⟨e, he, rfl⟩ := List.mem_map.mp (List.mem_filter.mp h).1
    obtain ⟨-, dot, hdot, rfl⟩ | he := mem_offered_iff.mp he
    · exact slash_not_mem_dots dot hdot
    · exact ((shown_children ht s).named e he).noSlash
  · cases h

/-- The last component of a pattern leads to the names that it matches. -/
lemma below_last (ht : t.WellNamed) (h : (Component.items list).literal? = none) (depth : Nat) :
    (below t (depth + 1) [.items list] s).map Spot.path =
      (found t s (.items list)).map (Path.join s.path) := by
  rw [below_of_wild h, found]
  split_ifs
  · have hlast : (fun e : String × Spot => below t depth [] e.2) = fun e => [e.2] := by
      funext e
      rw [below]
    rw [hlast, ← List.map_eq_flatMap, List.filter_map, List.map_map, List.map_map]
    refine List.map_congr_left fun e he => ?_
    exact path_of_mem_offered ht (List.mem_filter.mp he).1
  · rfl

/-! ## The whole pattern -/

/-- Reading a path that stands for itself and a last component. -/
lemma mapM_component?_escaped (parts : List (List Char)) (pattern : List Char) :
    (parts.map escape ++ [pattern]).mapM component? =
      (component? pattern).map fun p =>
        parts.map (fun part => Component.items (part.map literalItem)) ++ [p] := by
  induction parts with
  | nil =>
    rw [List.map_nil, List.nil_append, List.mapM_cons, List.mapM_nil]
    cases component? pattern <;> rfl
  | cons part parts ih =>
    rw [List.map_cons, List.cons_append, List.mapM_cons, component?_escape, ih]
    cases component? pattern <;> rfl

/-- Components that are not recursive stay as they are. -/
lemma collapse_of_forall_ne {components : List Component} (h : ∀ p ∈ components, p ≠ .recursive) :
    collapse components = components := by
  induction components with
  | nil => rfl
  | cons p rest ih =>
    obtain ⟨hp, hrest⟩ := List.forall_mem_cons.mp h
    rw [collapse, ih hrest]
    rintro rest' rfl
    exact absurd rfl hp

/-- **What is found is what matches in the directory that is reached.** -/
lemma expand?_escaped (ht : t.WellNamed) {full : String} {parts : List (List Char)}
    {pattern : List Char}
    (hfull : splitComponents (full.toList.drop 1) = parts.map escape ++ [pattern])
    (hend : full.endsWith "/" = false) (hstars : pattern ≠ ['*', '*'])
    (hwild : ∃ c ∈ pattern, c ∈ ['[', '*', '?']) :
    expand? t full = (items? none pattern).map fun items =>
      (parts.foldlM (descend t) (.at t "/")).elim [] fun s =>
        (found t s (.items items)).map (Path.join s.path) := by
  rw [expand?, compile?, hfull, mapM_component?_escaped, component?, if_neg hstars]
  cases hitems : items? none pattern with
  | none => rfl
  | some items =>
    obtain ⟨c, hc, hspecial⟩ := hwild
    have hliteral := literal?_eq_none (exists_not_char hitems hc hspecial)
    let components := parts.map (fun part => Component.items (part.map literalItem)) ++
      [.items items]
    have hcollapse : collapse components = components := by
      refine collapse_of_forall_ne fun p hp => ?_
      obtain hp | hp := List.mem_append.mp hp
      · obtain ⟨part, -, rfl⟩ := List.mem_map.mp hp
        exact nofun
      · obtain rfl := List.mem_singleton.mp hp
        exact nofun
    have hdepth : components.length + FileTree.maxPath =
        parts.length + (FileTree.maxPath + 1) := by
      simp only [components, List.length_append, List.length_map, List.length_singleton]
      omega
    have hspots : (below t (components.length + FileTree.maxPath) (collapse components)
        (.at t "/")).map Spot.path = (parts.foldlM (descend t) (.at t "/")).elim [] fun s =>
          (found t s (.items items)).map (Path.join s.path) := by
      rw [hcollapse, hdepth, below_escaped ht]
      cases parts.foldlM (descend t) (.at t "/") with
      | none => rfl
      | some s => exact below_last ht hliteral _
    simp only [Option.map_some, Option.bind_eq_bind, Option.bind_some, hend]
    exact congrArg some hspots

end Conch.Glob
