import Conch.Proofs.Encoding
import Conch.Proofs.Recollection
import Conch.Proofs.Storing

/-!
# A history and its file

A history that is saved after every entry is read back as it is.  The file may hold more lines than
the history has entries: lines are added to it until the history is full, and only then is it
written anew, with the entries that are left.  What connects the two is that the entries are the
last lines.

## Main definitions

* `History.unlines` — the text of some lines, each with a newline behind it.
* `History.FileEdit.Saved` — what adding an entry does to the file has been done.
* `History.Mirrors` — the entries are the last lines of what the file holds.
* `History.Step` — a history and the tree that holds its file, behind an entry or read anew.

## Main results

* `History.lines_unlines`, `History.ofFile_unlines` — lines are read as they were written.
* `History.Mirrors.step` — each step keeps the entries the last lines of the file.
* `History.reload_eq` — **reading the file gives the entries**, and a file whose last line does not
  end for which it does not.
-/

set_option autoImplicit false

namespace Conch

open Text

namespace History

/-! ## Lines -/

/-- The text of some lines, each with a newline behind it. -/
def unlines : List String → String
  | [] => ""
  | line :: rest => line ++ "\n" ++ unlines rest

/-- A text that is one line of a file: there is no newline in it, and it does not end like a line of
a file that separates lines in another way. -/
structure IsLine (line : String) : Prop where
  newline : '\n' ∉ line.toList
  carriage : line.toList.getLast? ≠ some '\r'

lemma unlines_append (xs ys : List String) : unlines (xs ++ ys) = unlines xs ++ unlines ys := by
  induction xs with
  | nil => rw [List.nil_append, unlines, String.empty_append]
  | cons x xs ih =>
    rw [List.cons_append, unlines, unlines, ih, String.append_assoc, String.append_assoc,
      String.append_assoc]

/-- The text of a file with some entries is that of these lines. -/
lemma fileText_eq {entries : List String} (h : entries ≠ []) :
    fileText entries = unlines entries := by
  induction entries with
  | nil => exact absurd rfl h
  | cons line rest ih =>
    cases rest with
    | nil => rw [fileText, String.intercalate_singleton, unlines, unlines, String.append_empty]
    | cons next rest =>
      have htail := ih (List.cons_ne_nil next rest)
      rw [fileText, String.intercalate_cons_cons, unlines, ← htail, fileText, String.append_assoc]

/-- One line is read up to its newline. -/
lemma lines_line (front line rest : List Char) (hnewline : '\n' ∉ line)
    (hreturn : (front.reverse ++ line).getLast? ≠ some '\r') :
    lines front (line ++ '\n' :: rest) = (front.reverse ++ line) :: lines [] rest := by
  induction line generalizing front with
  | nil =>
    rw [List.append_nil, List.getLast?_reverse] at hreturn
    rw [List.nil_append, List.append_nil, lines.eq_4]
    rintro front rfl
    exact hreturn rfl
  | cons c line ih =>
    obtain ⟨hc, hline⟩ := not_or.mp (hnewline ∘ List.mem_cons.mpr)
    have hnext := ih (c :: front) hline
    rw [List.reverse_cons, List.append_assoc, List.singleton_append] at hnext
    rw [List.cons_append, lines.eq_5 _ _ _ (Ne.symm hc) (fun _ _ h => hc h.symm)]
    exact hnext hreturn

/-- **Lines are read as they were written.** -/
lemma lines_unlines {ls : List String} (h : ∀ line ∈ ls, IsLine line) :
    lines [] (Octets.ofText (unlines ls)).toList =
      ls.map fun line => (Octets.ofText line).toList := by
  induction ls with
  | nil => simp [unlines, lines, Octets.ofText]
  | cons line ls ih =>
    obtain ⟨hnewline, hreturn⟩ := h line (List.mem_cons_self ..)
    have hbytes : (Octets.ofText (unlines (line :: ls))).toList =
        (Octets.ofText line).toList ++ '\n' :: (Octets.ofText (unlines ls)).toList := by
      have hend : (Octets.ofText "\n").toList = ['\n'] := by
        simp [Octets.ofText, Octets.isAscii]
      rw [unlines, Octets.ofText_append, Octets.ofText_append, String.toList_append,
        String.toList_append, hend, List.append_assoc, List.singleton_append]
    rw [hbytes, lines_line, List.reverse_nil, List.nil_append, List.map_cons,
      ih fun l hl => h l (List.mem_cons_of_mem line hl)]
    · rwa [Octets.mem_ofText (by decide)]
    · rw [List.reverse_nil, List.nil_append]
      exact fun hlast => hreturn (Octets.getLast?_of_ofText (by decide) hlast)

/-- Lines that encode texts are decoded. -/
lemma decodeLines_map (ls : List String) :
    decodeLines (ls.map fun line => (Octets.ofText line).toList) = ls := by
  induction ls with
  | nil => rfl
  | cons line ls ih =>
    rw [List.map_cons, decodeLines, String.ofList_toList, Octets.toText?_ofText]
    exact congrArg (line :: ·) ih

/-- A file of lines holds the last ones as entries. -/
lemma ofFile_unlines (bound : Nat) {file : Option Octets} {ls : List String}
    (h : ∀ line ∈ ls, IsLine line) (hfile : file.getD "" = Octets.ofText (unlines ls)) :
    (ofFile bound file).entries = keepLast bound ls := by
  rw [ofFile, hfile, lines_unlines h, decodeLines_map]

/-- A file of a single line, which may have no end, holds that line as an entry. -/
lemma ofFile_singleton (bound : Nat) {file : Octets} {line : String}
    (h : lines [] file.toList = [(Octets.ofText line).toList]) :
    ofFile bound (some file) =
      ⟨keepLast bound [line], bound, (keepLast bound [line]).length⟩ := by
  have hdecode : decodeLines [(Octets.ofText line).toList] = [line] := decodeLines_map [line]
  rw [ofFile, Option.getD_some, h, hdecode]

/-- Characters whose last line ends are made of lines. -/
lemma exists_lines (cs : List Char) (hreturn : '\r' ∉ cs)
    (hend : cs = [] ∨ cs.getLast? = some '\n') :
    ∃ ls, cs = (unlines ls).toList ∧
      ∀ line ∈ ls, '\n' ∉ line.toList ∧ '\r' ∉ line.toList := by
  induction cs with
  | nil => exact ⟨[], rfl, by simp⟩
  | cons c cs ih =>
    obtain ⟨hc, hcs⟩ := not_or.mp (hreturn ∘ List.mem_cons.mpr)
    have hlast : cs.getLast?.getD c = '\n' := by
      have hlast := hend.resolve_left (List.cons_ne_nil c cs)
      rwa [List.getLast?_cons, Option.some.injEq] at hlast
    cases hrest : cs.getLast? with
    | none =>
      obtain rfl := List.getLast?_eq_none_iff.mp hrest
      obtain rfl : c = '\n' := hlast
      exact ⟨[""], by simp [unlines], by simp⟩
    | some d =>
      obtain rfl : d = '\n' := by simpa [hrest] using hlast
      obtain ⟨ls, hls, hlines⟩ := ih hcs (.inr hrest)
      by_cases hnewline : c = '\n'
      · -- an empty line in front of the others
        refine ⟨"" :: ls, by simp [unlines, ← hls, hnewline], ?_⟩
        simpa using hlines
      · -- the first line becomes longer
        cases ls with
        | nil => simp [hls, unlines] at hrest
        | cons line ls =>
          refine ⟨String.ofList (c :: line.toList) :: ls, by simp [unlines, hls], ?_⟩
          rw [List.forall_mem_cons] at hlines ⊢
          simpa [Ne.symm hnewline, hc] using hlines

/-- A text without carriage returns whose last line ends is made of lines. -/
lemma exists_unlines {text : String} (hreturn : '\r' ∉ text.toList)
    (hend : text = "" ∨ text.toList.getLast? = some '\n') :
    ∃ ls, text = unlines ls ∧ ∀ line ∈ ls, IsLine line := by
  obtain ⟨ls, htext, hlines⟩ := exists_lines text.toList hreturn
    (hend.imp_left fun h => by rw [h, String.toList_empty])
  exact ⟨ls, String.toList_inj.mp htext, fun line hline =>
    ⟨(hlines line hline).1, fun h => (hlines line hline).2 (List.mem_of_getLast? h)⟩⟩

/-! ## Entries and the lines of the file -/

/-- What adding an entry makes of the contents of the file. -/
def FileEdit.on (edit : FileEdit) (file : Option Octets) : Option Octets :=
  match edit with
  | .unchanged => file
  | .append line => some (file.getD "" ++ Octets.ofText line)
  | .replace text => some (Octets.ofText text)

/-- The entries of a history are the last lines of what its file holds. -/
def Mirrors (h : History) (file : Option Octets) : Prop :=
  ∃ ls : List String, (∀ line ∈ ls, IsLine line) ∧
    file.getD "" = Octets.ofText (unlines ls) ∧ h.entries = keepLast h.bound ls

/-- A text that is kept is a line if there is no newline in it. -/
lemma isLine_kept {command : String} (h : '\n' ∉ command.toList) : IsLine (kept command) where
  newline := by
    rw [kept, String.toList_ofList, trimEnd, List.mem_reverse]
    exact fun hmem => h (List.mem_reverse.mp ((List.dropWhile_sublist isBlank).mem hmem))
  carriage := by
    rw [kept, String.toList_ofList, trimEnd, List.getLast?_reverse]
    intro hlast
    have hblank := List.head?_dropWhile_not isBlank command.toList.reverse
    rw [hlast] at hblank
    cases hblank

/-- Keeping the last entries twice keeps them once. -/
lemma keepLast_keepLast (bound : Nat) (xs : List String) :
    keepLast bound (keepLast bound xs) = keepLast bound xs := by
  simpa using keepLast_append bound xs []

/-- Reading a file gives its last lines. -/
lemma Mirrors.ofFile_entries {h : History} {file : Option Octets} (hm : h.Mirrors file) :
    (ofFile h.bound file).entries = h.entries := by
  obtain ⟨ls, hls, hfile, hentries⟩ := hm
  rw [ofFile_unlines h.bound hls hfile, hentries]

/-- Adding an entry does not change how many are kept. -/
lemma bound_add (h : History) (command : String) : (h.add command).1.bound = h.bound := by
  rw [add_eq]
  split_ifs <;> rfl

/-- **An entry that is added is the last line of the file.** -/
lemma Mirrors.add {h : History} {file : Option Octets} (hm : h.Mirrors file) {command : String}
    (hline' : '\n' ∉ command.toList) :
    (h.add command).1.Mirrors ((h.add command).2.on file) := by
  obtain ⟨ls, hls, hfile, hentries⟩ := hm
  rw [add_eq]
  split_ifs with hblank hlast hfull
  · exact ⟨ls, hls, hfile, hentries⟩
  · exact ⟨ls, hls, hfile, hentries⟩
  · -- the history is full: its entries are the lines of the new file
    have hnonempty : keepLast h.bound (h.entries ++ [kept command]) ≠ [] := by
      have hbound : 0 < h.bound := Nat.pos_of_ne_zero fun h => hblank (.inr h)
      rw [← List.length_pos_iff, length_keepLast, List.length_append, List.length_singleton]
      omega
    refine ⟨_, fun line hline => ?_, ?_, (keepLast_keepLast ..).symm⟩
    · rcases List.mem_append.mp (List.mem_of_mem_drop hline) with hold | hnew
      · rw [hentries] at hold
        exact hls line (List.mem_of_mem_drop hold)
      · rw [List.mem_singleton.mp hnew]
        exact isLine_kept hline'
    · rw [FileEdit.on, Option.getD_some, fileText_eq hnonempty]
  · -- the file grows by a line, and may have more lines than the history has entries
    refine ⟨ls ++ [kept command], fun line hline => ?_, ?_, ?_⟩
    · rcases List.mem_append.mp hline with hold | hnew
      · exact hls line hold
      · rw [List.mem_singleton.mp hnew]
        exact isLine_kept hline'
    · rw [FileEdit.on, Option.getD_some, hfile, unlines_append, unlines, unlines,
        String.append_empty, Octets.ofText_append, Octets.ofText_append, Octets.ofText_append]
    · rw [hentries, keepLast_append]

/-! ## Steps -/

/-- What adding an entry does to the file at a path has been done. -/
def FileEdit.Saved (edit : FileEdit) (path : String) (t t' : FileTree) : Prop :=
  match edit.at? path with
  | none => t' = t
  | some e => t.apply e = (.ok (), t')

/-- A file that is saved holds what adding an entry makes of its contents. -/
lemma FileEdit.Saved.holds {edit : FileEdit} {path : String} {t t' : FileTree}
    {file : Option Octets} (h : edit.Saved path t t') (hfile : t.Holds path file)
    (hloop : t'.find path true ≠ .error .loop) : t'.Holds path (edit.on file) := by
  cases edit with
  | unchanged =>
    obtain rfl : t' = t := h
    exact hfile
  | append line => exact hfile.apply_append h hloop
  | replace text => exact hfile.apply_replace h hloop

/-- A step of a history whose file is at a path, where all operations on the file succeed: a text of
one line is added and saved, and the file can be opened behind that; or the file is read anew. -/
inductive Step (path : String) : FileTree × History → FileTree × History → Prop where
  | add {t t' : FileTree} {h : History} {command : String} : '\n' ∉ command.toList →
      (h.add command).2.Saved path t t' → t'.find path true ≠ .error .loop →
      Step path (t, h) (t', (h.add command).1)
  | reopen {t : FileTree} {h : History} : Step path (t, h) (t, ofFile h.bound (t.read? path))

/-- The file at a path can be read, and the entries are the last lines of it. -/
def Stored (path : String) (bound : Nat) (s : FileTree × History) : Prop :=
  s.2.bound = bound ∧ ∃ file, s.1.Holds path file ∧ s.2.Mirrors file

/-- **Each step** keeps the entries the last lines of the file. -/
lemma Stored.step {path : String} {bound : Nat} {s s' : FileTree × History}
    (h : Stored path bound s) (hstep : Step path s s') : Stored path bound s' := by
  obtain ⟨hbound, file, hfile, hmirrors⟩ := h
  cases hstep with
  | @add t t' hist command hline hsaved hloop =>
    have hbound' := (bound_add hist command).trans hbound
    have hmirrors' := hmirrors.add hline
    have hholds := hsaved.holds hfile hloop
    -- what the entries are is not looked into from here on
    generalize hist.add command = r at hbound' hmirrors' hholds ⊢
    exact ⟨hbound', _, hholds, hmirrors'⟩
  | reopen =>
    refine ⟨hbound, file, hfile, ?_⟩
    obtain ⟨ls, hls, htext, -⟩ := hmirrors
    rw [hfile.read?]
    exact ⟨ls, hls, htext, ofFile_unlines _ hls htext⟩

/-- **A run** keeps the entries the last lines of the file. -/
lemma Stored.run {path : String} {bound : Nat} {s s' : FileTree × History}
    (h : Stored path bound s) (hrun : Relation.ReflTransGen (Step path) s s') :
    Stored path bound s' := by
  induction hrun with
  | refl => exact h
  | tail _ hstep ih => exact ih.step hstep

/-- Reading the file of a history gives its entries. -/
lemma Stored.reload {path : String} {bound : Nat} {s : FileTree × History}
    (h : Stored path bound s) : (ofFile bound (s.1.read? path)).entries = s.2.entries := by
  obtain ⟨rfl, file, hfile, hmirrors⟩ := h
  rw [hfile.read?, hmirrors.ofFile_entries]

/-! ## Reading the file anew -/

/-- The history that a file holds mirrors it, if the file is missing or made of lines. -/
lemma mirrors_ofFile (bound : Nat) {text? : Option String}
    (htext : ∀ text, text? = some text →
      '\r' ∉ text.toList ∧ (text = "" ∨ text.toList.getLast? = some '\n')) :
    (ofFile bound (text?.map Octets.ofText)).Mirrors (text?.map Octets.ofText) := by
  obtain ⟨ls, hls, hlines⟩ : ∃ ls, text?.getD "" = unlines ls ∧ ∀ line ∈ ls, IsLine line := by
    cases text? with
    | none => exact ⟨[], rfl, by simp⟩
    | some text => exact exists_unlines (htext text rfl).1 (htext text rfl).2
  have hfile : (text?.map Octets.ofText).getD "" = Octets.ofText (unlines ls) := by
    rw [← hls]
    cases text? with
    | none => simp [Octets.ofText]
    | some text => rfl
  exact ⟨ls, hlines, hfile, ofFile_unlines bound hlines hfile⟩

/-- A root directory with one file in it. -/
def oneFile (contents : Octets) : FileTree :=
  ⟨#[.directory 0 [("h", 1)], .file contents false]⟩

/-- The path of the file can be named. -/
lemma apply_oneFile (contents : Octets) (e : Edit) (he : e.path = "/h") :
    (oneFile contents).apply e = (oneFile contents).change e := by
  have hnul : ("/h".any fun (c : Char) => c = Char.ofNat 0) = false :=
    String.contains_prop_eq.trans (by decide)
  rw [FileTree.apply, he, hnul]
  exact if_neg Bool.false_ne_true

/-- A line that is added behind one that does not end makes one line of the two. -/
lemma step_unended : Step "/h" (oneFile "a", ⟨["a"], 2, 1⟩)
    (oneFile "ab\n", ⟨["a", "b"], 2, 2⟩) := by
  have hadd : (⟨["a"], 2, 1⟩ : History).add "b" = (⟨["a", "b"], 2, 2⟩, .append "b\n") := by decide
  have hbytes : Octets.ofText "b\n" = "b\n" := by simp [Octets.ofText, Octets.isAscii]
  have hsaved : FileEdit.Saved (.append "b\n") "/h" (oneFile "a") (oneFile "ab\n") := by
    change (oneFile "a").apply (.append "/h" (Octets.ofText "b\n")) = (.ok (), oneFile "ab\n")
    rw [hbytes, apply_oneFile _ _ rfl]
    decide +kernel
  have hstep : Step "/h" (oneFile "a", ⟨["a"], 2, 1⟩)
      (oneFile "ab\n", ((⟨["a"], 2, 1⟩ : History).add "b").1) :=
    .add (by decide) (by rwa [hadd]) (by decide +kernel)
  rwa [hadd] at hstep

/-- An entry that is added to a full history replaces the line of the file. -/
lemma step_full : Step "/h" (oneFile "a\n", ⟨["a"], 1, 1⟩)
    (oneFile "b\n", ⟨["b"], 1, 1⟩) := by
  have hadd : (⟨["a"], 1, 1⟩ : History).add "b" = (⟨["b"], 1, 1⟩, .replace "b\n") := by decide
  have hbytes : Octets.ofText "b\n" = "b\n" := by simp [Octets.ofText, Octets.isAscii]
  have hsaved : FileEdit.Saved (.replace "b\n") "/h" (oneFile "a\n") (oneFile "b\n") := by
    change (oneFile "a\n").apply (.replace "/h" (Octets.ofText "b\n")) = (.ok (), oneFile "b\n")
    rw [hbytes, apply_oneFile _ _ rfl]
    decide +kernel
  have hstep : Step "/h" (oneFile "a\n", ⟨["a"], 1, 1⟩)
      (oneFile "b\n", ((⟨["a"], 1, 1⟩ : History).add "b").1) :=
    .add (by decide) (by rwa [hadd]) (by decide +kernel)
  rwa [hadd] at hstep

/-- **Reading the file of a history gives its entries**, after any run of entries that are added and
of reading the file anew, if all operations on the file succeed, whatever the bound is.  The file is
missing at first, or it holds a text without carriage returns whose last line ends.

Without the last condition this fails: an entry that is added to the file `a` becomes a part of its
only line.

**Proof sketch.** The entries are the last lines of the file (`Mirrors`).  A line that is added to
the file is the last one of both, also when there are more lines than entries, since what has fallen
out of the entries would fall out again (`keepLast_append`).  A file that is written anew has the
entries as lines.  Reading the file takes its last lines. -/
theorem reload_eq :
    (∀ (bound : Nat) (path : String) (text? : Option String) (t t' : FileTree) (h' : History),
      t.Holds path (text?.map Octets.ofText) →
      (∀ text, text? = some text →
        '\r' ∉ text.toList ∧ (text = "" ∨ text.toList.getLast? = some '\n')) →
      Relation.ReflTransGen (Step path) (t, ofFile bound (t.read? path)) (t', h') →
      (ofFile bound (t'.read? path)).entries = h'.entries) ∧
    ∃ (bound : Nat) (path text : String) (t t' : FileTree) (h' : History),
      t.Holds path (some (Octets.ofText text)) ∧ '\r' ∉ text.toList ∧
        Step path (t, ofFile bound (t.read? path)) (t', h') ∧
        (ofFile bound (t'.read? path)).entries ≠ h'.entries := by
  refine ⟨fun bound path text? t t' h' hfile htext hrun => ?_, ?_⟩
  · have hstored : Stored path bound (t, ofFile bound (t.read? path)) := by
      refine ⟨rfl, _, hfile, ?_⟩
      rw [hfile.read?]
      exact mirrors_ofFile bound htext
    exact (hstored.run hrun).reload
  · have hread : (oneFile "a").Holds "/h" (some (Octets.ofText "a")) := by
      have hbytes : Octets.ofText "a" = "a" := by simp [Octets.ofText, Octets.isAscii]
      have hfind : (oneFile "a").find "/h" true = .ok 1 := by decide +kernel
      rw [hbytes]
      exact .file hfind rfl
    have hread' : (oneFile "ab\n").read? "/h" = some "ab\n" := by decide +kernel
    have hold : ofFile 2 (some (Octets.ofText "a")) = ⟨["a"], 2, 1⟩ :=
      ofFile_singleton 2 (by simp [Octets.ofText, Octets.isAscii, lines])
    have hnew : ofFile 2 (some "ab\n") = ⟨["ab"], 2, 1⟩ :=
      ofFile_singleton 2 (by simp [Octets.ofText, Octets.isAscii, lines])
    refine ⟨2, "/h", "a", oneFile "a", oneFile "ab\n", ⟨["a", "b"], 2, 2⟩, hread, by decide, ?_, ?_⟩
    · rw [hread.read?, hold]
      exact step_unended
    · rw [hread', hnew]
      decide

/-- An entry that is added to a history that is full, and the file read anew behind it. -/
theorem reload_eq_full :
    (oneFile "a\n").Holds "/h" ((some "a\n").map Octets.ofText) ∧
      ∃ t' h', Relation.ReflTransGen (Step "/h")
          (oneFile "a\n", ofFile 1 ((oneFile "a\n").read? "/h")) (t', h') ∧
        (ofFile 1 (t'.read? "/h")).entries = h'.entries := by
  have hread : (oneFile "a\n").Holds "/h" ((some "a\n").map Octets.ofText) := by
    have hbytes : Octets.ofText "a\n" = "a\n" := by simp [Octets.ofText, Octets.isAscii]
    have hfind : (oneFile "a\n").find "/h" true = .ok 1 := by decide +kernel
    rw [Option.map_some, hbytes]
    exact .file hfind rfl
  have hold : ofFile 1 ((some "a\n").map Octets.ofText) = ⟨["a"], 1, 1⟩ :=
    ofFile_singleton 1 (by simp [Octets.ofText, Octets.isAscii, lines])
  have hrun : Relation.ReflTransGen (Step "/h")
      (oneFile "a\n", ofFile 1 ((oneFile "a\n").read? "/h"))
      (oneFile "b\n", ofFile 1 ((oneFile "b\n").read? "/h")) := by
    rw [hread.read?, hold]
    exact (Relation.ReflTransGen.single step_full).tail .reopen
  exact ⟨hread, _, _, hrun, reload_eq.1 1 "/h" (some "a\n") _ _ _ hread (by decide) hrun⟩

end History

end Conch
