import LineBasic.CommandLine
import LineBasic.Proofs.Trimming

/-!
The same program from either kind of file. A file of a tree is cut at line feeds only, and a
file of the host at every line boundary. In a text whose lines end in line feeds, with a
carriage return in front or without, the two differ by that carriage return and by an empty
line at the end. Neither matters to a program, so the two load alike.
-/

namespace LineBasic

namespace Text

/-- Whether the only line boundaries of a text are line feeds, and carriage returns directly in
front of line feeds. -/
def BreaksAtFeeds (cs : List Char) : Prop :=
  ∀ before c after, cs = before ++ c :: after → isLineBreak c = true →
    c = '\n' ∨ c = '\r' ∧ after.head? = some '\n'

inductive CutAlike : List (List Char) → List (List Char) → Prop
  | done : CutAlike [[]] []
  | last (line : List Char) : CutAlike [line] [line]
  | feed (line : List Char) {fields lines : List (List Char)} (h : CutAlike fields lines) :
      CutAlike (line :: fields) (line :: lines)
  | returnFeed (line : List Char) {fields lines : List (List Char)} (h : CutAlike fields lines) :
      CutAlike ((line ++ ['\r']) :: fields) (line :: lines)

section Cutting

variable {c : Char} {cs : List Char}

theorem breaksAtFeeds_nil : BreaksAtFeeds [] := by
  intro before c after h
  simp at h

theorem breaksAtFeeds_cons : BreaksAtFeeds (c :: cs) ↔
    (isLineBreak c = true → c = '\n' ∨ c = '\r' ∧ cs.head? = some '\n') ∧ BreaksAtFeeds cs := by
  constructor
  · intro h
    exact ⟨h [] c cs rfl, fun before d after hcs => h (c :: before) d after (by rw [hcs]; rfl)⟩
  · rintro ⟨hc, hcs⟩ (_ | ⟨b, before⟩) d after h
    · cases h
      exact hc
    · exact hcs before d after (List.cons.inj h).2

theorem CutAlike.consFirst {fields lines : List (List Char)} (h : CutAlike fields lines)
    (c : Char) : CutAlike (consFirst c fields) (consFirst c lines) := by
  cases h with
  | done => exact .last [c]
  | last line => exact .last (c :: line)
  | feed line h => exact .feed (c :: line) h
  | returnFeed line h => exact .returnFeed (c :: line) h

/-- Line feeds cut such a text as line boundaries do. -/
theorem cutAlike_fields (h : BreaksAtFeeds cs) : CutAlike (fields '\n' cs) (lines cs) := by
  fun_induction lines cs with
  | case1 => exact .done
  | case2 cs ih =>
    obtain ⟨-, hcs⟩ := breaksAtFeeds_cons.mp (breaksAtFeeds_cons.mp h).2
    exact .returnFeed [] (ih hcs)
  | case3 c cs hpair hbreak ih =>
    obtain ⟨hc, hcs⟩ := breaksAtFeeds_cons.mp h
    rcases hc hbreak with rfl | ⟨rfl, hfeed⟩
    · exact .feed [] (ih hcs)
    · obtain ⟨rest, rfl⟩ := List.head?_eq_some_iff.mp hfeed
      exact absurd rfl (hpair rest rfl)
  | case4 c cs hpair hplain ih =>
    obtain ⟨-, hcs⟩ := breaksAtFeeds_cons.mp h
    have hfeed : c ≠ '\n' := by
      rintro rfl
      exact hplain (by decide)
    rw [fields, if_neg hfeed]
    exact (ih hcs).consFirst c

theorem lines_cons_of_ne (h : c ≠ '\r') (cs : List Char) : lines (c :: cs) =
    if isLineBreak c then [] :: lines cs else consFirst c (lines cs) := by
  rw [lines]
  rintro rest rfl
  exact absurd rfl h

/-- Where carriage returns stand in front of line feeds only, a text has the same lines without
them. -/
theorem lines_unixNewlines (h : BreaksAtFeeds cs) : lines (unixNewlines cs) = lines cs := by
  fun_induction unixNewlines cs with
  | case1 => rfl
  | case2 cs ih =>
    obtain ⟨-, hcs⟩ := breaksAtFeeds_cons.mp (breaksAtFeeds_cons.mp h).2
    rw [lines_cons_of_ne (by decide), ih hcs, lines]
    rfl
  | case3 cs hpair ih =>
    obtain ⟨hreturn, -⟩ := breaksAtFeeds_cons.mp h
    obtain ⟨-, hfeed⟩ := (hreturn (by decide)).resolve_left (by decide)
    obtain ⟨rest, rfl⟩ := List.head?_eq_some_iff.mp hfeed
    exact absurd rfl (hpair rest)
  | case4 c cs hpair hreturn ih =>
    obtain ⟨-, hcs⟩ := breaksAtFeeds_cons.mp h
    rw [lines_cons_of_ne hreturn, lines_cons_of_ne hreturn, ih hcs]

end Cutting

end Text

open Text

namespace Program

section Loading

variable {s t : String}

/-- A line is read by what is left of it when it is trimmed. -/
theorem Line.ofText_congr (h : trim s.toList = trim t.toList) : Line.ofText s = Line.ofText t := by
  rw [ofText, ofText, trimString, trimString, h]

theorem readLines_cons_congr {ss ts : List String} (hline : Line.ofText s = Line.ofText t)
    (hlines : readLines ss = readLines ts) : readLines (s :: ss) = readLines (t :: ts) := by
  rw [readLines, readLines, hline, hlines]

/-- Neither a carriage return behind a line nor an empty line at the end is read. -/
theorem readLines_of_cutAlike {fields lines : List (List Char)} (h : CutAlike fields lines) :
    readLines (fields.map String.ofList) = readLines (lines.map String.ofList) := by
  induction h with
  | done => rfl
  | last line => rfl
  | feed line _ ih => exact readLines_cons_congr rfl ih
  | returnFeed line _ ih =>
    have hblank : ∀ c ∈ ['\r'], isBlank c = true := List.forall_mem_singleton.mpr (by decide)
    refine readLines_cons_congr (Line.ofText_congr ?_) ih
    rw [String.toList_ofList, String.toList_ofList, trim_append_blanks hblank]

theorem load_stringFields (h : BreaksAtFeeds s.toList) :
    load (stringFields '\n' s) = loadText s := by
  rw [loadText, load, load, stringFields, stringLines, readLines_of_cutAlike (cutAlike_fields h)]

end Loading

/-- The two kinds of files load alike. If the lines of a text end in line feeds, with a carriage
return in front or without, its lines are there wherever it stands in a tree of files, or in a
file of the host, and they load as the text does: as the same program, with the same fault, or
breaking off alike. -/
theorem files_load_alike {s : String} (h : BreaksAtFeeds s.toList) :
    (∀ (tree : FileTree) directory path, tree.read directory path = .ok s →
      ∃ lines, tree.readLines directory path = .ok lines ∧ load lines = loadText s) ∧
      ∀ (read : CommandLine.HostReader) path, read (Path.tidy path) = .ok s →
        ∃ lines, CommandLine.hostLines read path = .ok lines ∧ load lines = loadText s := by
  refine ⟨fun tree directory path hread => ?_, fun read path hread => ?_⟩
  · exact ⟨stringFields '\n' s, by rw [FileTree.readLines, hread]; rfl, load_stringFields h⟩
  · refine ⟨stringLines s, ?_, rfl⟩
    rw [CommandLine.hostLines, hread, stringLines, ← lines_unixNewlines h]

/-- Lines with both ends and an empty one between them, and a number that stands twice. -/
theorem files_load_alike_at_mixedEnds :
    let source := "10 PRINT 1\r\n\r\n20 END\n10 END\r\n"
    let tree : FileTree := .object [("children", .object [("a.bas",
      .object [("type", .string "txt"), ("content", .string source)])])]
    (∃ lines, tree.readLines [] "a.bas" = .ok lines ∧
      load lines = .error (.fault (.duplicateLines [10]))) ∧
      ∃ lines, CommandLine.hostLines (fun _ => .ok source) "a.bas" = .ok lines ∧
        load lines = .error (.fault (.duplicateLines [10])) := by
  intro source tree
  have hends : BreaksAtFeeds source.toList := by
    simp [source, breaksAtFeeds_cons, breaksAtFeeds_nil, isLineBreak]
  have hload : loadText source = .error (.fault (.duplicateLines [10])) := by decide +kernel
  obtain ⟨htree, hhost⟩ := files_load_alike hends
  rw [hload] at htree hhost
  exact ⟨htree tree [] "a.bas" (by decide +kernel), hhost (fun _ => .ok source) "a.bas" rfl⟩

end Program

end LineBasic
