import Mathlib.Data.List.Destutter
import Mathlib.Data.List.DropRight
import Conch.History

/-!
# What a history shows

A history drops old entries when it grows past its bound, and compares a new entry only with the
last one that is left.  Its cursor stays where it is while entries fall out in front of it.  None of
this can be seen from outside: a history is the end of a list that is never cut, with a cursor that
is clamped to it.

## Main definitions

* `History.Op`, `History.performAll` — what is asked of a history, one after the other.
* `History.remembered` — all that is kept of some texts, if nothing falls out.
* `History.Log` — the texts added so far, and a cursor into what is shown of them.

## Main results

* `History.add_history` — an entry that is added to what is shown is added to the log.
* `History.performAll_new` — **a history answers as its log does**, whatever its bound is and
  whatever is asked of it.
-/

set_option autoImplicit false

namespace Conch

open Text

namespace History

/-! ## Operations -/

/-- What is asked of a history. -/
inductive Op where
  | add (command : String)
  | previous
  | next
  | reset
  deriving DecidableEq, Repr

/-- The text that an operation adds. -/
def Op.added? : Op → Option String
  | add command => some command
  | previous | next | reset => none

/-- The history after an operation, and the entry that it gives. -/
def perform (h : History) : Op → History × Option String
  | .add command => ((h.add command).1, none)
  | .previous => h.previous
  | .next => h.next
  | .reset => (h.reset, none)

/-- The history after some operations, and the entries that they give. -/
def performAll (h : History) : List Op → History × List (Option String)
  | [] => (h, [])
  | op :: ops =>
    let (h', answer) := h.perform op
    let (last, answers) := h'.performAll ops
    (last, answer :: answers)

/-! ## Logs -/

/-- A command without the blanks at its end. -/
def kept (command : String) : String := String.ofList (trimEnd command.toList)

/-- All that is kept of some texts: blanks at their ends are cut off, blank texts are dropped, and
of equal neighbours one is left. -/
def remembered (texts : List String) : List String :=
  ((texts.map kept).filter fun text => !text.toList.all isBlank).destutter (· ≠ ·)

/-- The last `bound` of the entries that are kept of some texts. -/
def shown (bound : Nat) (texts : List String) : List String :=
  (remembered texts).rtake bound

/-- All texts added so far, and a cursor into those that are shown, or behind them. -/
structure Log (bound : Nat) where
  texts : List String
  cursor : Nat
  inside : cursor ≤ (shown bound texts).length

namespace Log

variable {bound : Nat}

/-- Some texts with the cursor at a position, or behind the last entry if that comes first. -/
def clamp (texts : List String) (n : Nat) : Log bound :=
  ⟨texts, min n (shown bound texts).length, Nat.min_le_right ..⟩

/-- The entry at the cursor; behind the last one there is none. -/
def current (l : Log bound) : Option String := (shown bound l.texts)[l.cursor]?

/-- What an operation does to a log, and the entry that the cursor moves to. -/
def perform (l : Log bound) : Op → Log bound × Option String
  | .add command =>
    let texts := l.texts ++ [command]
    if command.toList.all isBlank ∨ bound = 0 then (clamp texts l.cursor, none)
    else (clamp texts (shown bound texts).length, none)
  | .previous =>
    let moved : Log bound := clamp l.texts (l.cursor - 1)
    if l.cursor = 0 then (l, none) else (moved, moved.current)
  | .next =>
    let moved : Log bound := clamp l.texts (l.cursor + 1)
    (moved, moved.current)
  | .reset => (clamp l.texts (shown bound l.texts).length, none)

/-- A log after some operations, and the entries that they give. -/
def performAll (l : Log bound) : List Op → Log bound × List (Option String)
  | [] => (l, [])
  | op :: ops =>
    let (l', answer) := l.perform op
    let (last, answers) := l'.performAll ops
    (last, answer :: answers)

/-- The log of a history to which nothing has been added. -/
def empty (bound : Nat) : Log bound := clamp [] 0

/-- The history that shows a log. -/
def history (l : Log bound) : History := ⟨shown bound l.texts, bound, l.cursor⟩

end Log

/-! ## The end of a list -/

/-- What falls out early does not come back. -/
lemma keepLast_append (bound : Nat) (xs ys : List String) :
    keepLast bound (keepLast bound xs ++ ys) = keepLast bound (xs ++ ys) := by
  unfold keepLast
  rw [← List.drop_append_of_le_length (Nat.sub_le ..), List.drop_drop]
  congr 1
  simp only [List.length_drop, List.length_append]
  omega

/-- A list whose end is kept keeps its last element. -/
lemma getLast?_keepLast {bound : Nat} (h : 0 < bound) (xs : List String) :
    (keepLast bound xs).getLast? = xs.getLast? := by
  rw [keepLast, List.getLast?_drop]
  split_ifs with hlen
  · have : xs = [] := List.eq_nil_of_length_eq_zero (by omega)
    rw [this, List.getLast?_nil]
  · rfl

/-- No more than `bound` entries are kept. -/
lemma length_keepLast (bound : Nat) (xs : List String) :
    (keepLast bound xs).length = min bound xs.length := by
  rw [keepLast, List.length_drop]
  omega

/-- Of equal neighbours one is left: an element at the end stays if the last one that stayed is
another. -/
lemma destutter_concat (xs : List String) (x : String) :
    (xs ++ [x]).destutter (· ≠ ·) =
      if (xs.destutter (· ≠ ·)).getLast? = some x then xs.destutter (· ≠ ·)
      else xs.destutter (· ≠ ·) ++ [x] := by
  cases xs with
  | nil => rfl
  | cons a xs =>
    rw [List.cons_append, List.destutter_cons', List.destutter_cons']
    induction xs generalizing a with
    | nil => by_cases h : a = x <;> simp [h]
    | cons b xs ih =>
      rw [List.cons_append]
      by_cases h : a = b
      · rw [List.destutter'_cons_neg _ (not_not.mpr h), List.destutter'_cons_neg _ (not_not.mpr h)]
        exact ih a
      · have hlast : (a :: xs.destutter' (· ≠ ·) b).getLast? =
            (xs.destutter' (· ≠ ·) b).getLast? :=
          List.getLast?_cons_of_ne_nil (List.destutter'_ne_nil _ _)
        rw [List.destutter'_cons_pos _ h, List.destutter'_cons_pos _ h, ih b, hlast]
        split_ifs <;> rfl

/-! ## Added texts -/

/-- A text is blank exactly if nothing of it is kept. -/
lemma kept_eq_empty (command : String) : kept command = "" ↔ command.toList.all isBlank := by
  rw [kept, String.ofList_eq_empty_iff, trimEnd, List.reverse_eq_nil_iff,
    List.dropWhile_eq_nil_iff, List.all_eq_true]
  simp only [List.mem_reverse]

/-- Cutting the blanks off the end of a text twice cuts them off once. -/
lemma kept_kept (command : String) : kept (kept command) = kept command := by
  rw [kept, kept, String.toList_ofList, trimEnd, trimEnd, List.reverse_reverse,
    List.dropWhile_idempotent]

/-- What a blank text adds. -/
lemma remembered_blank (texts : List String) {command : String} (h : command.toList.all isBlank) :
    remembered (texts ++ [command]) = remembered texts := by
  have hkept : kept command = "" := (kept_eq_empty command).mpr h
  simp [remembered, hkept]

/-- What any other text adds. -/
lemma remembered_concat (texts : List String) {command : String}
    (h : ¬ command.toList.all isBlank) :
    remembered (texts ++ [command]) =
      if (remembered texts).getLast? = some (kept command) then remembered texts
      else remembered texts ++ [kept command] := by
  have hkept : ¬ (kept command).toList.all isBlank := by
    rw [← kept_eq_empty, kept_kept, kept_eq_empty]
    exact h
  have hkeep : (!(kept command).toList.all isBlank) = true := by
    rw [Bool.not_eq_true', Bool.eq_false_iff]
    exact hkept
  unfold remembered
  rw [List.map_append, List.map_singleton, List.filter_append, List.filter_singleton, hkeep]
  exact destutter_concat _ _

/-! ## Adding an entry -/

/-- What adding a text does: a blank one leaves the history as it is, and so does any text if
nothing may be kept; one that equals the last entry only moves the cursor; any other becomes the
last entry, and the file grows by a line as long as no entry falls out. -/
lemma add_eq (h : History) (command : String) :
    h.add command =
      if command.toList.all isBlank ∨ h.bound = 0 then (h, .unchanged)
      else if h.entries.getLast? = some (kept command) then (h.reset, .unchanged)
      else
        ({ entries := keepLast h.bound (h.entries ++ [kept command]), bound := h.bound,
           position := (keepLast h.bound (h.entries ++ [kept command])).length },
          if h.bound < (h.entries ++ [kept command]).length then
            .replace (fileText (keepLast h.bound (h.entries ++ [kept command])))
          else .append (kept command ++ "\n")) := by
  have hskip : ((kept command).isEmpty || decide (h.bound = 0)) = true ↔
      command.toList.all isBlank ∨ h.bound = 0 := by
    rw [Bool.or_eq_true, String.isEmpty_iff, kept_eq_empty, decide_eq_true_eq]
  simp only [← hskip]
  rfl

/-! ## What is shown -/

section Shown

variable {bound : Nat}

/-- What is shown is what is kept last. -/
lemma shown_eq (bound : Nat) (texts : List String) :
    shown bound texts = keepLast bound (remembered texts) := rfl

/-- Nothing is shown if nothing may be kept. -/
lemma shown_zero (texts : List String) : shown 0 texts = [] := List.rtake_zero _

/-- A text that is not kept changes nothing in what is shown. -/
lemma shown_of_blank (texts : List String) {command : String}
    (h : command.toList.all isBlank ∨ bound = 0) :
    shown bound (texts ++ [command]) = shown bound texts := by
  obtain h | rfl := h
  · rw [shown, remembered_blank texts h, shown]
  · rw [shown_zero, shown_zero]

/-- Comparing a text with the last entry that is left is comparing it with the last one of all. -/
lemma getLast?_shown (h : 0 < bound) (texts : List String) :
    (shown bound texts).getLast? = (remembered texts).getLast? :=
  getLast?_keepLast h _

end Shown

/-! ## Steps -/

namespace Log

variable {bound : Nat} (l : Log bound)

@[simp] lemma texts_clamp (texts : List String) (n : Nat) :
    (clamp texts n : Log bound).texts = texts := rfl

@[simp] lemma cursor_clamp (texts : List String) (n : Nat) :
    (clamp texts n : Log bound).cursor = min n (shown bound texts).length := rfl

@[simp] lemma entries_history : l.history.entries = shown bound l.texts := rfl

@[simp] lemma bound_history : l.history.bound = bound := rfl

@[simp] lemma position_history : l.history.position = l.cursor := rfl

/-- An entry that is added to what is shown is added to the log. -/
lemma add_history (command : String) :
    (l.history.add command).1 = (l.perform (.add command)).1.history := by
  rw [add_eq, perform, bound_history, entries_history]
  by_cases hblank : command.toList.all isBlank ∨ bound = 0
  · -- nothing changes, and the cursor is inside already
    rw [if_pos hblank, if_pos hblank]
    simp only [history, texts_clamp, cursor_clamp, shown_of_blank l.texts hblank,
      Nat.min_eq_left l.inside]
  obtain ⟨htext, hbound⟩ := not_or.mp hblank
  have hlast : (shown bound l.texts).getLast? = (remembered l.texts).getLast? :=
    getLast?_shown (Nat.pos_of_ne_zero hbound) l.texts
  have hconcat := remembered_concat l.texts htext
  rw [if_neg hblank, if_neg hblank, hlast]
  by_cases hsame : (remembered l.texts).getLast? = some (kept command)
  · rw [if_pos hsame] at hconcat ⊢
    simp only [history, reset, texts_clamp, cursor_clamp, Nat.min_self, shown, hconcat]
  · rw [if_neg hsame] at hconcat ⊢
    have hshown : keepLast bound (shown bound l.texts ++ [kept command]) =
        shown bound (l.texts ++ [command]) := by
      rw [shown_eq, keepLast_append, shown_eq, hconcat]
    simp only [history, texts_clamp, cursor_clamp, Nat.min_self, hshown]

/-- The entry in front of the cursor of a log. -/
lemma previous_history :
    l.history.previous = ((l.perform .previous).1.history, (l.perform .previous).2) := by
  have hinside := l.inside
  obtain ⟨texts, cursor, _⟩ := l
  cases cursor with
  | zero => rfl
  | succ n =>
    have hmin : min n (shown bound texts).length = n := Nat.min_eq_left (by omega)
    simp [perform, history, previous, current, hmin]

/-- The entry behind the cursor of a log. -/
lemma next_history :
    l.history.next = ((l.perform .next).1.history, (l.perform .next).2) := by
  have hinside := l.inside
  rw [next, perform, entries_history, position_history]
  by_cases hnext : l.cursor + 1 < (shown bound l.texts).length
  · have hmin : min (l.cursor + 1) (shown bound l.texts).length = l.cursor + 1 :=
      Nat.min_eq_left hnext.le
    rw [if_pos hnext]
    simp only [history, current, texts_clamp, cursor_clamp, hmin]
  · have hmin : min (l.cursor + 1) (shown bound l.texts).length = (shown bound l.texts).length :=
      Nat.min_eq_right (by omega)
    rw [if_neg hnext]
    simp only [history, current, texts_clamp, cursor_clamp, hmin, List.getElem?_eq_none le_rfl]

/-- **One operation** on what is shown is that operation on the log. -/
lemma perform_history (op : Op) :
    l.history.perform op = ((l.perform op).1.history, (l.perform op).2) := by
  cases op with
  | add command =>
    have hsilent : (l.perform (.add command)).2 = none := by
      rw [perform]
      split_ifs <;> rfl
    rw [History.perform, add_history, hsilent]
  | previous => exact l.previous_history
  | next => exact l.next_history
  | reset => simp only [History.perform, reset, perform, history, texts_clamp, cursor_clamp,
      Nat.min_self]

/-- **A run** of operations on what is shown is that run on the log. -/
lemma performAll_history (ops : List Op) :
    l.history.performAll ops = ((l.performAll ops).1.history, (l.performAll ops).2) := by
  induction ops generalizing l with
  | nil => rfl
  | cons op ops ih => simp only [History.performAll, performAll, perform_history, ih]

/-- An operation adds its text to the log, and no operation takes one away. -/
lemma texts_perform (op : Op) : (l.perform op).1.texts = l.texts ++ op.added?.toList := by
  cases op with
  | add command =>
    rw [perform]
    split_ifs <;> rfl
  | previous =>
    rw [perform]
    split_ifs <;> exact (List.append_nil _).symm
  | next => exact (List.append_nil _).symm
  | reset => exact (List.append_nil _).symm

/-- The texts of a log are those that were added. -/
lemma texts_performAll (ops : List Op) :
    (l.performAll ops).1.texts = l.texts ++ ops.filterMap Op.added? := by
  induction ops generalizing l with
  | nil => exact (List.append_nil _).symm
  | cons op ops ih =>
    rw [performAll, ih, texts_perform, List.append_assoc]
    cases op <;> rfl

end Log

/-! ## Histories -/

/-- An entry in front of the cursor is there unless the cursor stands at the first one. -/
lemma isSome_previous {h : History} (hinside : h.position ≤ h.entries.length) :
    h.previous.2.isSome ↔ 0 < h.position := by
  obtain ⟨entries, bound, position⟩ := h
  cases position with
  | zero => simp [previous]
  | succ n =>
    have hn : n < entries.length := hinside
    simp [previous, hn]

/-- An entry behind the cursor is there unless the cursor comes behind the last one. -/
lemma isSome_next (h : History) :
    h.next.2.isSome ↔ h.position + 1 < h.entries.length := by
  rw [next]
  split_ifs with hnext <;> simp [hnext]

/-- **A history answers as its log does.**  Whatever is asked of a history that starts empty,

* its entries are the last ones of all that is kept of the texts added;
* its cursor and every entry that it gives are those of the log, whose cursor is clamped to these
  entries;
* the cursor stands at an entry or behind the last one, so that the entry it moves to is there
  unless it stands at the first one and goes up, or comes behind the last one and goes down.

**Proof sketch.** The empty history shows the empty log.  One operation on what is shown is that
operation on the log: what falls out of the entries early is not compared with, since the last
entry is left as long as the bound is not zero, and would fall out later as well
(`keepLast_append`).  A run of operations follows by induction. -/
theorem performAll_new (bound : Nat) (ops : List Op) :
    let h := ((new bound).performAll ops).1
    h.entries = shown bound (ops.filterMap Op.added?) ∧
      h.position = ((Log.empty bound).performAll ops).1.cursor ∧
      ((new bound).performAll ops).2 = ((Log.empty bound).performAll ops).2 ∧
      h.position ≤ h.entries.length ∧
      (h.previous.2.isSome ↔ 0 < h.position) ∧
      (h.next.2.isSome ↔ h.position + 1 < h.entries.length) := by
  intro h
  have hempty : new bound = (Log.empty bound).history := by
    simp [new, Log.empty, Log.history, Log.clamp, shown, remembered]
  have hrun := (Log.empty bound).performAll_history ops
  rw [← hempty] at hrun
  have hh : h = ((Log.empty bound).performAll ops).1.history := congrArg Prod.fst hrun
  have htexts : ((Log.empty bound).performAll ops).1.texts = ops.filterMap Op.added? :=
    (Log.empty bound).texts_performAll ops
  have hinside : h.position ≤ h.entries.length := by
    rw [hh]
    exact Log.inside _
  refine ⟨?_, ?_, congrArg Prod.snd hrun, hinside, isSome_previous hinside, isSome_next h⟩
  · rw [hh, Log.history, htexts]
  · rw [hh, Log.history]

example :
    (new 2).performAll [.add "a", .add "b ", .add "b", .add "c", .previous, .previous, .previous,
        .next, .next] =
      (⟨["b", "c"], 2, 2⟩, [none, none, none, none, some "c", some "b", none, some "c", none]) := by
  decide

end History

end Conch
