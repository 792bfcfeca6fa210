import LineBasic.Proofs.Decimals
import LineBasic.Proofs.Loading
import LineBasic.Proofs.Sessions

/-!
The stored lines of a session are what was typed last. Under each number stands
the code of the last line since NEW that started with it, in whatever digits, and
nothing if that code was empty. The lines are listed once each in ascending order,
and they load as exactly those statements unless one is stored under zero. A line that
starts with more digits than the host reads is not stored, and breaks the session off.
-/

namespace LineBasic

structure Program.ReadsBack (n : Nat) (code : String) : Prop where
  length_le : (natDigits n).length ≤ Text.maxDigits
  edges : Text.HasEdges code.toList

namespace Session

/-- Whether a typed line writes code under a number: it starts with digits, not too
many, that denote the number, and the code is what stands behind all of them. -/
def Writes (line : String) (number : Nat) (code : String) : Prop :=
  ∃ digits rest, Text.trim line.toList = digits ++ rest ∧ digits ≠ [] ∧
    (∀ c ∈ digits, Text.isDigit c = true) ∧ StopsAt Text.isDigit rest ∧
    digits.length ≤ Text.maxDigits ∧ number = Text.digitsValue digits ∧
    code = Text.trimString (String.ofList rest)

/-- Whether a typed line starts with more digits than the host reads. -/
def IsOversized (line : String) (length : Nat) : Prop :=
  ((Text.trim line.toList).takeWhile Text.isDigit).length = length ∧ Text.maxDigits < length

def IsUnnumbered (line : String) : Prop := StopsAt Text.isDigit (Text.trim line.toList)

/-- Whether a typed line is NEW, in any case and with anything behind it. -/
def Clears (line : String) : Prop :=
  IsUnnumbered line ∧
    String.ofList (Text.upper (Text.firstWord (Text.trim line.toList))) = "NEW"

structure Lists (s : Session) (entries : List (Nat × String)) : Prop where
  ascending : entries.Pairwise fun a b => a.1 < b.1
  mem_iff : ∀ n code, (n, code) ∈ entries ↔ s.lines[n]? = some code
  source : s.source = entries.map fun (n, code) => toString n ++ " " ++ code

end Session

namespace Incident

/-- Whether what happened is a typed line that writes code under a number. -/
def Writes (number : Nat) (code : String) : Incident → Prop
  | .typed _ _ line => Session.Writes line number code
  | .asked _ => False

def Clears : Incident → Prop
  | .typed _ _ line => Session.Clears line
  | .asked _ => False

/-- Whether what happened is neither NEW nor a line that writes under a number. -/
def Leaves (number : Nat) (what : Incident) : Prop :=
  ¬ what.Clears ∧ ∀ code, ¬ what.Writes number code

end Incident

/-- Whether `code` is what the last line since NEW wrote of those that write under
a number. -/
def LastWrite (history : List Incident) (number : Nat) (code : String) : Prop :=
  ∃ before what after, history = before ++ what :: after ∧ what.Writes number code ∧
    ∀ later ∈ after, later.Leaves number

section Lines

variable {line : String} {number n : Nat} {code c : String}

/-- The digits of a line end where the others start. -/
theorem Session.Writes.cut (h : Session.Writes line number code) :
    number = Text.digitsValue ((Text.trim line.toList).takeWhile Text.isDigit) ∧
      code = Text.trimString (String.ofList ((Text.trim line.toList).dropWhile Text.isDigit)) ∧
      (Text.trim line.toList).takeWhile Text.isDigit ≠ [] := by
  obtain ⟨digits, rest, htrim, hne, hdigits, hstop, -, hnumber, hcode⟩ := h
  rw [htrim, takeWhile_run hdigits hstop, dropWhile_run hdigits hstop]
  exact ⟨hnumber, hcode, hne⟩

theorem Session.Writes.unique (h : Session.Writes line number code)
    (h' : Session.Writes line n c) : n = number ∧ c = code := by
  rw [h.cut.1, h.cut.2.1, h'.cut.1, h'.cut.2.1]
  exact ⟨rfl, rfl⟩

theorem Session.Writes.not_isUnnumbered (h : Session.Writes line number code) :
    ¬ Session.IsUnnumbered line :=
  fun hstop => h.cut.2.2 (takeWhile_of_stopsAt hstop)

/-- What is written neither starts nor ends with a blank, and stands under a number that
the host reads. -/
theorem Session.Writes.readsBack (h : Session.Writes line number code) (hne : code ≠ "") :
    Program.ReadsBack number code := by
  obtain ⟨digits, rest, -, hdigits, -, -, hlength, rfl, rfl⟩ := h
  refine ⟨Nat.le_trans (length_natDigits_digitsValue_le hdigits) hlength, ?_⟩
  rw [Text.trimString, String.toList_ofList, String.toList_ofList] at *
  exact Text.hasEdges_trim fun hnil => hne (by rw [hnil])

/-- A line with too many digits is not taken in. -/
theorem Session.IsOversized.ofText {length : Nat} (h : Session.IsOversized line length) :
    Entry.ofText line = .oversized length := by
  obtain ⟨rfl, hlong⟩ := h
  have hdigits : (Text.trim line.toList).takeWhile Text.isDigit ≠ [] :=
    List.ne_nil_of_length_pos (Nat.lt_of_le_of_lt (Nat.zero_le _) hlong)
  unfold Entry.ofText
  cases htrim : Text.trim line.toList with
  | nil => simp [htrim] at hdigits
  | cons c cs =>
    rw [htrim] at hdigits hlong
    simp only [ne_eq, hdigits, not_false_eq_true, if_true, LineNumber.ofDigits_of_lt hlong]

theorem Session.Writes.ofText (h : Session.Writes line number code) :
    Entry.ofText line = .store number code := by
  obtain ⟨digits, rest, htrim, hne, hdigits, hstop, hlength, rfl, rfl⟩ := h
  unfold Entry.ofText
  obtain ⟨c, cs, hcons⟩ := List.exists_cons_of_ne_nil
    (List.append_ne_nil_of_left_ne_nil hne rest)
  rw [htrim, hcons]
  simp only
  rw [← hcons, takeWhile_run hdigits hstop, dropWhile_run hdigits hstop, if_pos hne,
    LineNumber.ofDigits_of_le hlength, Text.trimString, String.toList_ofList]

/-- A line without a number changes nothing that is stored, but for NEW. -/
theorem Session.IsUnnumbered.edit (h : Session.IsUnnumbered line)
    (lines : Std.ExtTreeMap Nat String compare) :
    (Session.Entry.ofText line).edit lines =
      if String.ofList (Text.upper (Text.firstWord (Text.trim line.toList))) = "NEW" then ∅
      else lines := by
  have hdigits := takeWhile_of_stopsAt h
  unfold Entry.ofText
  cases htrim : Text.trim line.toList with
  | nil => rfl
  | cons c cs =>
    rw [htrim] at hdigits
    simp only [hdigits, ne_eq, not_true_eq_false, if_false]
    split
    · next hword =>
      rw [hword]
      rfl
    · split
      · next hword =>
        rw [hword]
        rfl
      · split
        · rfl
        · split <;> rfl

/-- What a typed line is: it writes, it has too many digits, it is NEW, or it leaves what
is stored. -/
theorem Session.Entry.edit_cases (line : String) :
    (∃ number code, Session.Writes line number code ∧ ∀ lines,
      (Entry.ofText line).edit lines =
        if code = "" then lines.erase number else lines.insert number code) ∨
    (Session.Clears line ∧ ∀ lines, (Entry.ofText line).edit lines = ∅) ∨
    ((∀ number code, ¬ Session.Writes line number code) ∧ ¬ Session.Clears line ∧
      ∀ lines, (Entry.ofText line).edit lines = lines) := by
  by_cases hdigits : (Text.trim line.toList).takeWhile Text.isDigit = []
  · have hstop : IsUnnumbered line := fun c hc => by
      cases htrim : Text.trim line.toList <;> simp_all
    by_cases hword : String.ofList (Text.upper (Text.firstWord (Text.trim line.toList))) = "NEW"
    · exact .inr (.inl ⟨⟨hstop, hword⟩, fun lines => by rw [hstop.edit, if_pos hword]⟩)
    · exact .inr (.inr ⟨fun _ _ h => h.not_isUnnumbered hstop, fun h => hword h.2,
        fun lines => by rw [hstop.edit, if_neg hword]⟩)
  · by_cases hlength : ((Text.trim line.toList).takeWhile Text.isDigit).length ≤ Text.maxDigits
    · have hcut := (Text.trim line.toList).takeWhile_append_dropWhile (p := Text.isDigit)
      have hwrites : Session.Writes line _ _ := ⟨_, _, hcut.symm, hdigits,
        fun d hd => mem_takeWhile hd, stopsAt_dropWhile _ _, hlength, rfl, rfl⟩
      refine .inl ⟨_, _, hwrites, fun lines => ?_⟩
      simp only [hwrites.ofText, Entry.edit, String.isEmpty_iff]
    · have hoversized : Session.IsOversized line _ := ⟨rfl, Nat.lt_of_not_le hlength⟩
      refine .inr (.inr ⟨fun number code h => ?_, fun h => ?_, fun lines => ?_⟩)
      · obtain ⟨digits, rest, htrim, -, hall, hstop, hle, -⟩ := h
        rw [htrim, takeWhile_run hall hstop] at hlength
        exact hlength hle
      · exact hdigits (takeWhile_of_stopsAt h.1)
      · simp only [hoversized.ofText, Entry.edit]

end Lines

section History

variable {history : List Incident} {what : Incident} {number n : Nat} {code : String}

theorem lastWrite_nil : ¬ LastWrite [] number code := by
  rintro ⟨before, what, after, hsplit, -⟩
  simp at hsplit

/-- What happens last is the last write, or leaves it. -/
theorem lastWrite_concat : LastWrite (history ++ [what]) number code ↔
    what.Writes number code ∨ what.Leaves number ∧ LastWrite history number code := by
  constructor
  · rintro ⟨before, first, after, hsplit, hwrites, hleaves⟩
    rcases List.eq_nil_or_concat' after with rfl | ⟨after, last, rfl⟩
    · obtain ⟨-, hlast⟩ := List.append_inj' hsplit rfl
      rw [List.cons.inj hlast |>.1]
      exact .inl hwrites
    · obtain ⟨hfront, hlast⟩ := List.append_inj'
        (hsplit.trans (List.append_assoc before (first :: after) [last]).symm) rfl
      obtain rfl := (List.cons.inj hlast).1
      exact .inr ⟨hleaves what (by simp), before, first, after, hfront, hwrites,
        fun later hlater => hleaves later (by simp [hlater])⟩
  · rintro (hwrites | ⟨hleaves, before, first, after, rfl, hwrites, hafter⟩)
    · exact ⟨history, what, [], rfl, hwrites, by simp⟩
    · refine ⟨before, first, after ++ [what], by simp, hwrites, fun later hlater => ?_⟩
      rcases List.mem_append.mp hlater with hlater | hlater
      · exact hafter later hlater
      · rw [List.mem_singleton.mp hlater]
        exact hleaves

/-- What is stored under a number after one more thing happened: what it writes
there, nothing after NEW, and else what was there before. -/
theorem Incident.getElem?_edit (what : Incident) (lines : Std.ExtTreeMap Nat String compare)
    (number : Nat) (code : String) : (what.edit lines)[number]? = some code ↔
      code ≠ "" ∧ what.Writes number code ∨ what.Leaves number ∧ lines[number]? = some code := by
  cases what with
  | asked request =>
    simp [Incident.edit, Incident.Writes, Incident.Leaves, Incident.Clears]
  | typed fuel feed line =>
    simp only [Incident.edit, Incident.Writes, Incident.Leaves, Incident.Clears]
    rcases Session.Entry.edit_cases line with
      ⟨n, c, hwrites, hedit⟩ | ⟨hclears, hedit⟩ | ⟨hnone, hkeeps, hedit⟩
    · have hnew : ¬ Session.Clears line := fun h => hwrites.not_isUnnumbered h.1
      rw [hedit]
      by_cases hn : n = number
      · subst hn
        have hnot : ¬ ∀ code, ¬ Session.Writes line n code := fun h => h c hwrites
        have hiff : Session.Writes line n code ↔ c = code :=
          ⟨fun h => (h.unique hwrites).2, fun h => h ▸ hwrites⟩
        by_cases hc : c = ""
        · simp [hc, hnot, hiff, eq_comm]
        · simp only [hc, if_false, Std.ExtTreeMap.getElem?_insert_self, hnot, hiff, and_false,
            false_and, or_false, Option.some.injEq]
          exact ⟨fun h => ⟨h ▸ hc, h⟩, And.right⟩
      · have hnone : ∀ code, ¬ Session.Writes line number code :=
          fun code h => hn (h.unique hwrites).1
        have hother : compare n number ≠ .eq := fun h => hn (Std.LawfulEqCmp.eq_of_compare h)
        split <;>
          simp [Std.ExtTreeMap.getElem?_erase, Std.ExtTreeMap.getElem?_insert, hother, hnone, hnew]
    · have hnone : ∀ code, ¬ Session.Writes line number code :=
        fun code h => h.not_isUnnumbered hclears.1
      simp [hedit, hclears, hnone]
    · simp [hedit, hkeeps, hnone]

/-- The stored code is the last one that was written, unless that was empty. -/
theorem getElem?_history (history : List Incident) (number : Nat) (code : String) :
    (history.foldl Incident.edit ∅)[number]? = some code ↔
      code ≠ "" ∧ LastWrite history number code := by
  induction history using List.reverseRecOn with
  | nil => simp [lastWrite_nil]
  | append_singleton history what ih =>
    rw [List.foldl_append, List.foldl_cons, List.foldl_nil, what.getElem?_edit, ih,
      lastWrite_concat]
    tauto

end History

namespace Session

section Listed

variable {s : Session} {entries : List (Nat × String)} {n : Nat} {code : String}
  {ss : List Statement} {p : Program}

theorem exists_lists (s : Session) : ∃ entries, s.Lists entries := by
  refine ⟨s.lines.toList, ?_, fun n code => Std.ExtTreeMap.mem_toList_iff_getElem?_eq_some, rfl⟩
  exact Std.ExtTreeMap.ordered_keys_toList.imp fun h => Nat.compare_eq_lt.mp h

/-- A stored line has the form of a program's line. -/
theorem parts_of_readsBack (h : Program.ReadsBack n code) :
    Program.Parts (toString n ++ " " ++ code) (natDigits n) code.toList := by
  have hparts := Program.parts_of_hasEdges (natDigits_ne_nil n)
    (fun c hc => isDigit_of_mem_natDigits hc) h.edges
  have hdigits : String.ofList (natDigits n) = toString n := rfl
  rwa [hdigits] at hparts

theorem stops_of_zero (h : Program.ReadsBack 0 code) :
    ∃ e, Program.Stops (toString 0 ++ " " ++ code) e := by
  have hparts := parts_of_readsBack h
  refine ⟨_, .malformed ⟨hparts.not_isSkipped, fun digits rest hother => ?_⟩⟩
  rw [← hother.cut.1, hparts.cut.1, digitsValue_natDigits]
  exact ⟨h.length_le, rfl⟩

/-- It spells its number and its code, and nothing else. -/
theorem spells_iff_of_readsBack (h : Program.ReadsBack n code) (t : Statement) :
    Program.Spells (toString n ++ " " ++ code) t ↔ (t.number, t.code) = (n, code) := by
  have hparts := parts_of_readsBack h
  have hcode : Text.trimString (String.ofList code.toList) = code := by
    rw [Text.trimString, String.toList_ofList, h.edges.trim, String.ofList_toList]
  constructor
  · intro hspells
    have hpos : 0 < n := by
      refine Nat.pos_of_ne_zero fun hzero => ?_
      subst hzero
      obtain ⟨e, hstops⟩ := stops_of_zero h
      exact hspells.not_stops hstops
    have hself : Program.Spells (toString n ++ " " ++ code) ⟨n, code, hpos⟩ :=
      ⟨_, _, hparts, h.length_le, (digitsValue_natDigits n).symm, hcode.symm⟩
    rw [hspells.unique hself]
  · intro heq
    obtain ⟨rfl, rfl⟩ := Prod.mk.inj heq
    exact ⟨_, _, hparts, h.length_le, (digitsValue_natDigits _).symm, hcode.symm⟩

/-- The lines of a list of numbers and codes spell that list. -/
theorem forall₂_spells_iff (hentries : ∀ n code, (n, code) ∈ entries → Program.ReadsBack n code) :
    List.Forall₂ Program.Spells
        (Program.kept (entries.map fun (n, code) => toString n ++ " " ++ code)) ss ↔
      ss.map (fun t => (t.number, t.code)) = entries := by
  induction entries generalizing ss with
  | nil => simp [Program.kept]
  | cons entry entries ih =>
    obtain ⟨n, code⟩ := entry
    have hfirst := hentries n code List.mem_cons_self
    have hrest : ∀ n code, (n, code) ∈ entries → Program.ReadsBack n code :=
      fun n code hmem => hentries n code (List.mem_cons_of_mem _ hmem)
    rw [List.map_cons, Program.kept_cons_of_not_isSkipped
      (parts_of_readsBack hfirst).not_isSkipped]
    cases ss with
    | nil => simp
    | cons t ss =>
      rw [List.forall₂_cons, spells_iff_of_readsBack hfirst, ih hrest, List.map_cons,
        List.cons.injEq]

/-- Listed lines load unless one of them has the number zero, and they load as
what was listed. -/
theorem load_listed (hascending : entries.Pairwise fun a b => a.1 < b.1)
    (hentries : ∀ n code, (n, code) ∈ entries → Program.ReadsBack n code) :
    let source := entries.map fun (n, code) => toString n ++ " " ++ code
    ((∃ p, Program.load source = .ok p) ↔ ∀ code, (0, code) ∉ entries) ∧
      ∀ p, Program.load source = .ok p →
        p.statements.map (fun t => (t.number, t.code)) = entries := by
  intro source
  have hlisted : ∀ {ss}, List.Forall₂ Program.Spells (Program.kept source) ss →
      ss.map (fun t => (t.number, t.code)) = entries := fun h => (forall₂_spells_iff hentries).mp h
  refine ⟨⟨?_, fun hzero => ?_⟩, fun p hload => ?_⟩
  · rintro ⟨p, hload⟩ code hmem
    cases Program.load_eq_iff_denotes.mp hload with
    | program hspells =>
      have hline : toString 0 ++ " " ++ code ∈ source := List.mem_map.mpr ⟨_, hmem, rfl⟩
      obtain ⟨e, hstops⟩ := stops_of_zero (hentries 0 code hmem)
      exact hstops.not_forall₂ hline hspells
  · cases hload : Program.load source with
    | ok p => exact ⟨p, rfl⟩
    | error e =>
      cases Program.load_eq_iff_denotes.mp hload with
      | @stopped before after line _ hlines _ hline =>
        have hmem : line ∈ source := by simp [hlines]
        obtain ⟨⟨n, code⟩, hentry, rfl⟩ := List.mem_map.mp hmem
        have hpos : 0 < n := Nat.pos_of_ne_zero fun h => hzero code (h ▸ hentry)
        have hspells := (spells_iff_of_readsBack (hentries n code hentry) ⟨n, code, hpos⟩).mpr rfl
        exact absurd hline hspells.not_stops
      | @repeats ss numbers hspells hne _ hmem =>
        obtain ⟨n, hn⟩ := List.exists_mem_of_ne_nil numbers hne
        have hnumbers : ss.map Statement.number = entries.map Prod.fst := by
          rw [← hlisted hspells, List.map_map]
          rfl
        have hnodup : (ss.map Statement.number).Nodup := by
          rw [hnumbers]
          exact (List.pairwise_map.mpr hascending).imp Nat.ne_of_lt
        have htwice := (hmem n).mp hn
        have honce := List.nodup_iff_count_le_one.mp hnodup n
        omega
  · cases Program.load_eq_iff_denotes.mp hload with
    | @program ss _ hspells hperm =>
      have hss := hlisted hspells
      have hsorted : ss.Pairwise fun a b => a.number < b.number := by
        rw [← hss, List.pairwise_map] at hascending
        exact hascending
      rw [← hss, hperm.eq_of_pairwise (fun a b _ _ hab hba => absurd hab (Nat.lt_asymm hba))
        p.ascending hsorted]

end Listed

theorem handle_of_isOversized {line : String} {length : Nat} (h : IsOversized line length)
    (fuel : Nat) (feed : Feed) (s : Session) : s.handle fuel feed line =
      ⟨{ session := s, feed := feed, abort := some (.oversized length) }, []⟩ := by
  rw [handle, h.ofText]
  rfl

section Reached

variable {i : Interpreter} {history : List Incident} {n : Nat} {code : String}

theorem getElem?_undergo : (history.foldl undergo { interpreter := i }).lines[n]? = some code ↔
    code ≠ "" ∧ LastWrite history n code := by
  rw [(history_keeps _ history).1, getElem?_history]

/-- What a history stored can be printed and read back. -/
theorem readsBack_of_history
    (h : (history.foldl undergo { interpreter := i }).lines[n]? = some code) :
    Program.ReadsBack n code := by
  obtain ⟨hne, before, what, after, -, hwrites, -⟩ := getElem?_undergo.mp h
  cases what with
  | typed fuel feed line => exact Writes.readsBack hwrites hne
  | asked request => exact absurd hwrites id

/-- What a history stored never makes a RUN break off before it starts. -/
theorem load_source_ne_oversized (digits : Nat) :
    Program.load (history.foldl undergo { interpreter := i }).source ≠
      .error (.oversized digits) := by
  intro hload
  obtain ⟨entries, hlists⟩ := exists_lists (history.foldl undergo { interpreter := i })
  rw [hlists.source] at hload
  cases Program.load_eq_iff_denotes.mp hload with
  | stopped hlines _ hstops =>
    cases hstops with
    | @oversized _ hoversized =>
      obtain ⟨⟨n, code⟩, hentry, rfl⟩ := List.mem_map.mp (hlines ▸ List.mem_append_cons_self)
      have hreads : Program.ReadsBack n code :=
        readsBack_of_history ((hlists.mem_iff n code).mp hentry)
      obtain ⟨digits, rest, hparts, rfl, hlong⟩ := hoversized
      rw [← hparts.cut.1, (parts_of_readsBack hreads).cut.1] at hlong
      exact absurd hreads.length_le (Nat.not_le_of_lt hlong)

end Reached

/-- Whatever happened to a new session, under each number stands the code that the
last line since NEW wrote there, or nothing if none did or that code was empty. A line
that starts with more digits than the host reads writes nothing and breaks off. A
line without a number in front that is not NEW, such as RUN, LIST, a blank line or
an unknown word, changes nothing. The stored lines are listed once each in ascending
order, and they load unless one is stored under zero, as the statements stored. -/
theorem stores_last_writes (i : Interpreter) (history : List Incident) :
    let s := history.foldl undergo { interpreter := i }
    (∀ n code, s.lines[n]? = some code ↔ code ≠ "" ∧ LastWrite history n code) ∧
    (∀ n, s.lines[n]? = none ↔ ∀ code, LastWrite history n code → code = "") ∧
    (∀ fuel feed line length, IsOversized line length → s.handle fuel feed line =
      ⟨{ session := s, feed := feed, abort := some (.oversized length) }, []⟩) ∧
    (∀ fuel feed line, IsUnnumbered line → ¬ Clears line →
      (s.handle fuel feed line).value.session.lines = s.lines) ∧
    ∃ entries, s.Lists entries ∧
      ((∃ p, Program.load s.source = .ok p) ↔ s.lines[0]? = none) ∧
      ∀ p, Program.load s.source = .ok p →
        p.statements.map (fun t => (t.number, t.code)) = entries := by
  intro s
  have hstored (n : Nat) (code : String) :
      s.lines[n]? = some code ↔ code ≠ "" ∧ LastWrite history n code := getElem?_undergo
  obtain ⟨entries, hlists⟩ := s.exists_lists
  have hentries (n : Nat) (code : String) (hmem : (n, code) ∈ entries) :
      Program.ReadsBack n code := readsBack_of_history ((hlists.mem_iff n code).mp hmem)
  refine ⟨hstored, fun n => ?_, fun fuel feed line length h => handle_of_isOversized h fuel feed s,
    fun fuel feed line hstop hnew => ?_, entries, hlists, ?_⟩
  · rw [Option.eq_none_iff_forall_ne_some]
    simp only [ne_eq, hstored, not_and, not_imp_not]
  · have hword : ¬ String.ofList (Text.upper (Text.firstWord (Text.trim line.toList))) = "NEW" :=
      fun h => hnew ⟨hstop, h⟩
    rw [(handle_keeps fuel feed s line).1, hstop.edit, if_neg hword]
  · obtain ⟨hloads, hstatements⟩ := load_listed hlists.ascending hentries
    rw [hlists.source, hloads, Option.eq_none_iff_forall_ne_some]
    exact ⟨forall_congr' fun code => not_congr (hlists.mem_iff 0 code), hstatements⟩

/-- A line is typed again in another spelling of its number, one is deleted, and
one has code that starts with a number. -/
def retypedSession : List Incident :=
  ["5 PRINT 1", "new", "10 PRINT A", "0010PRINT B", "٢٠ LET A = 1", "20", " 30 30 REM"].map
    (.typed 9 {})

/-- The stored lines are the last ones, LIST leaves them, and they load. -/
theorem stores_last_writes_at_retypedSession :
    let s := retypedSession.foldl undergo { interpreter := { generator := ⟨#[], 0⟩ } }
    LastWrite retypedSession 10 "PRINT B" ∧
    (∀ code, LastWrite retypedSession 20 code → code = "") ∧
    (s.handle 9 {} "LIST").value.session.lines = s.lines ∧
    s.source = ["10 PRINT B", "30 30 REM"] ∧
    ∃ p, Program.load s.source = .ok p ∧
      s.Lists (p.statements.map fun t => (t.number, t.code)) := by
  intro s
  obtain ⟨hstored, hnone, -, hleaves, entries, hlists, hloads, hstatements⟩ :=
    stores_last_writes { generator := ⟨#[], 0⟩ } retypedSession
  have hunnumbered : IsUnnumbered "LIST" := stopsAt_cons (c := 'L') (by decide)
  have hnew : ¬ Clears "LIST" := fun h => absurd h.2 (by decide +kernel)
  obtain ⟨p, hload⟩ := hloads.mpr (by decide +kernel)
  refine ⟨((hstored 10 "PRINT B").mp (by decide +kernel)).2, (hnone 20).mp (by decide +kernel),
    hleaves 9 {} "LIST" hunnumbered hnew, by decide +kernel, p, hload, ?_⟩
  rw [hstatements p hload]
  exact hlists

/-- A line whose digits denote ten is not stored under ten. -/
theorem stores_nothing_at_overlongLine :
    let line := Program.overlongLine 10
    let reply := (({ interpreter := { generator := ⟨#[], 0⟩ } } : Session).handle 9 {} line).value
    (Text.trim line.toList).takeWhile Text.isDigit = LineNumber.overlong 10 ∧
      Text.digitsValue (LineNumber.overlong 10) = 10 ∧
      reply.session.lines[10]? = none ∧ reply.abort = some (.oversized 4302) := by
  intro line reply
  have hdigits := (Program.parts_overlongLine 10).cut.1
  have hoversized : IsOversized line 4302 :=
    ⟨(congrArg List.length hdigits).trans (LineNumber.length_overlong 10), by decide⟩
  have hreply : reply = _ := congrArg Logged.value (handle_of_isOversized hoversized 9 {} _)
  exact ⟨hdigits, LineNumber.digitsValue_overlong 10, by rw [hreply]; simp, by rw [hreply]⟩

end Session

end LineBasic
