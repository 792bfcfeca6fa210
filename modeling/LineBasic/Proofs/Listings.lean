import LineBasic.Proofs.Store

/-!
Programs typed, listed and loaded again. A session into which the lines of a
program are typed stores that program, in whatever order they are typed: no two of
them write different code under one number, and then what is stored depends on
which lines were typed only. The same holds of the lines that LIST prints and of
the stored lines as a program's text, so both restore what is stored, and the
printed statements of a loaded program load as that program.
-/

namespace LineBasic

section Agreement

variable {history : List Incident} {number : Nat} {code : String}

/-- Where nothing that happened is NEW, and whatever writes under a number writes the
same there, the last write is any write. -/
theorem lastWrite_iff_of_agree (hkeeps : ∀ what ∈ history, ¬ what.Clears)
    (hagree : ∀ what ∈ history, ∀ other ∈ history, ∀ n c c',
      what.Writes n c → other.Writes n c' → c = c') :
    LastWrite history number code ↔ ∃ what ∈ history, what.Writes number code := by
  induction history using List.reverseRecOn with
  | nil => simp [lastWrite_nil]
  | append_singleton history last ih =>
    have hbefore {what : Incident} (h : what ∈ history) : what ∈ history ++ [last] :=
      List.mem_append_left _ h
    have hlast : last ∈ history ++ [last] := List.mem_append_right _ (List.mem_singleton_self last)
    have ih := ih (fun what h => hkeeps what (hbefore h)) fun what h other h' =>
      hagree what (hbefore h) other (hbefore h')
    rw [lastWrite_concat, ih]
    constructor
    · rintro (hwrites | ⟨-, what, hwhat, hwrites⟩)
      · exact ⟨last, hlast, hwrites⟩
      · exact ⟨what, hbefore hwhat, hwrites⟩
    · rintro ⟨what, hwhat, hwrites⟩
      rcases List.mem_append.mp hwhat with hwhat | hwhat
      · by_cases hleaves : ∀ c, ¬ last.Writes number c
        · exact .inr ⟨⟨hkeeps last hlast, hleaves⟩, what, hwhat, hwrites⟩
        -- What was written before is written over, but by the same code.
        · obtain ⟨c, hc⟩ := Classical.not_forall_not.mp hleaves
          rw [hagree what (hbefore hwhat) last hlast number code c hwrites hc]
          exact .inl hc
      · rw [← List.mem_singleton.mp hwhat]
        exact .inl hwrites

end Agreement

namespace Session

/-- A session after lines were typed into it, one after another. -/
def typing (fuel : Nat) (feed : Feed) (s : Session) (lines : List String) : Session :=
  lines.foldl (fun s line => (s.handle fuel feed line).value.session) s

structure Agrees (lines : List String) : Prop where
  keeps : ∀ line ∈ lines, ¬ Clears line
  unique : ∀ line ∈ lines, ∀ other ∈ lines, ∀ n c c', Writes line n c → Writes other n c' → c = c'

section Typing

variable {fuel : Nat} {feed : Feed} {i : Interpreter} {lines lines' : List String}
  {line line' : String} {digits rest : List Char} {number n : Nat} {code c : String}

theorem typing_eq_undergo (s : Session) :
    s.typing fuel feed lines = (lines.map (Incident.typed fuel feed)).foldl undergo s := by
  rw [List.foldl_map]
  rfl

theorem Agrees.perm (h : Agrees lines) (hperm : lines'.Perm lines) : Agrees lines' where
  keeps line hline := h.keeps line (hperm.subset hline)
  unique line hline other hother := h.unique line (hperm.subset hline) other (hperm.subset hother)

/-- What is stored after such lines were typed into a new session is what they write. -/
theorem Agrees.getElem?_typing (h : Agrees lines) :
    (typing fuel feed { interpreter := i } lines).lines[number]? = some code ↔
      code ≠ "" ∧ ∃ line ∈ lines, Writes line number code := by
  have hlast : LastWrite (lines.map (Incident.typed fuel feed)) number code ↔
      ∃ what ∈ lines.map (Incident.typed fuel feed), what.Writes number code := by
    refine lastWrite_iff_of_agree ?_ ?_
    · intro what hwhat
      obtain ⟨line, hline, rfl⟩ := List.mem_map.mp hwhat
      exact h.keeps line hline
    · intro what hwhat other hother n c c'
      obtain ⟨line, hline, rfl⟩ := List.mem_map.mp hwhat
      obtain ⟨line', hline', rfl⟩ := List.mem_map.mp hother
      exact h.unique line hline line' hline' n c c'
  rw [typing_eq_undergo, (history_keeps _ _).1, getElem?_history, hlast]
  simp [Incident.Writes]

/-- What a line writes depends on what is left of it between the blanks at its ends. -/
theorem Writes.of_trim (h : Writes line number code)
    (htrim : Text.trim line'.toList = Text.trim line.toList) : Writes line' number code := by
  obtain ⟨digits, rest, hline, hparts⟩ := h
  exact ⟨digits, rest, htrim.trans hline, hparts⟩

/-- A line of the form of a program's line writes its rest under its number. -/
theorem writes_of_parts (h : Program.Parts line digits rest)
    (hlength : digits.length ≤ Text.maxDigits) :
    Writes line (Text.digitsValue digits) (Text.trimString (String.ofList rest)) := by
  obtain ⟨blanks, htrim, hne, hblanks⟩ := h.trimmed
  refine ⟨digits, blanks ++ rest, by rw [htrim, List.append_assoc], h.digits_ne_nil, h.isDigit,
    ?_, hlength, rfl, ?_⟩
  · obtain ⟨c, blanks, rfl⟩ := List.exists_cons_of_ne_nil hne
    refine stopsAt_cons (Bool.eq_false_iff.mpr fun hdigit => ?_)
    have hblank := hblanks c List.mem_cons_self
    rw [Text.isBlank_of_isDigit hdigit] at hblank
    cases hblank
  · rw [Text.trimString, Text.trimString, String.toList_ofList, String.toList_ofList,
      Text.trim_append_of_isBlank hblanks]

/-- A line with nothing but digits writes nothing under its number. -/
theorem Writes.of_isSkipped (h : Writes line number code)
    (hskipped : Program.isSkipped line = true) : code = "" ∧
      Text.trim line.toList ≠ [] ∧ number = Text.digitsValue (Text.trim line.toList) := by
  obtain ⟨hnumber, hcode, hne⟩ := h.cut
  have hdrop := Program.dropWhile_eq_nil_iff.mpr hskipped
  have hall := (Text.trim line.toList).takeWhile_append_dropWhile (p := Text.isDigit)
  rw [hdrop, List.append_nil] at hall
  rw [hall] at hnumber hne
  rw [hdrop] at hcode
  exact ⟨hcode, hne, hnumber⟩

theorem not_clears_of_isSkipped (hskipped : Program.isSkipped line = true) : ¬ Clears line := by
  rintro ⟨hstop, hword⟩
  have htrim : Text.trim line.toList = [] := by
    rw [← dropWhile_of_stopsAt hstop, Program.dropWhile_eq_nil_iff.mpr hskipped]
  rw [htrim] at hword
  exact absurd hword (by decide)

end Typing

section Lists

variable {s : Session} {entries : List (Nat × String)}

/-- There is one ascending list of what is stored. -/
theorem lists_of_mem_iff (hascending : entries.Pairwise fun a b => a.1 < b.1)
    (hmem : ∀ n code, (n, code) ∈ entries ↔ s.lines[n]? = some code) : s.Lists entries := by
  obtain ⟨listed, hlists⟩ := s.exists_lists
  have hnodup {es : List (Nat × String)} (h : es.Pairwise fun a b => a.1 < b.1) : es.Nodup :=
    h.imp fun hlt heq => Nat.ne_of_lt hlt (congrArg Prod.fst heq)
  have hperm : entries.Perm listed :=
    (List.perm_ext_iff_of_nodup (hnodup hascending) (hnodup hlists.ascending)).mpr
      fun ⟨n, code⟩ => (hmem n code).trans (hlists.mem_iff n code).symm
  have heq : entries = listed :=
    hperm.eq_of_pairwise (fun a b _ _ hab hba => absurd hab (Nat.lt_asymm hba)) hascending
      hlists.ascending
  rw [heq]
  exact hlists

end Lists

end Session

namespace Program

section Printed

variable {line : String} {lines printed : List String} {p : Program} {s : Statement}

/-- What a line spells it also writes. -/
theorem Spells.writes (h : Spells line s) : Session.Writes line s.number s.code := by
  obtain ⟨digits, rest, hparts, hlength, hnumber, hcode⟩ := h
  rw [hnumber, hcode]
  exact Session.writes_of_parts hparts hlength

/-- The code of a line neither starts nor ends with a blank: the line is trimmed, and
does not end before the code. -/
theorem Spells.readsBack (h : Spells line s) : ReadsBack s.number s.code := by
  obtain ⟨digits, rest, hparts, hlength, hnumber, hcode⟩ := h
  have hdigits := length_natDigits_digitsValue_le hparts.digits_ne_nil
  refine ⟨hnumber ▸ Nat.le_trans hdigits hlength, ?_⟩
  obtain ⟨blanks, htrim, -⟩ := hparts.trimmed
  obtain ⟨front, c, rfl⟩ := (List.eq_nil_or_concat' rest).resolve_left hparts.rest_ne_nil
  have hlast : Text.trim line.toList = digits ++ blanks ++ front ++ [c] := by
    rw [htrim, List.append_assoc _ front]
  have hc : Text.isBlank c = false := Text.isBlank_of_trim hlast
  rw [hcode, Text.trimString, String.toList_ofList, String.toList_ofList]
  exact Text.hasEdges_trim (Text.trim_ne_nil_of_mem (by simp) hc)

/-- Of the lines of a program each is left out or spells a statement, and each
statement is spelled by one. -/
theorem spells_of_load (hload : load lines = .ok p) :
    (∀ line ∈ lines, isSkipped line = true ∨ ∃ s ∈ p.statements, Spells line s) ∧
      ∀ s ∈ p.statements, ∃ line ∈ lines, Spells line s := by
  cases load_eq_iff_denotes.mp hload with
  | @program ss _ hspells hperm =>
    refine ⟨fun line hline => ?_, fun s hs => ?_⟩
    · cases hskipped : isSkipped line with
      | true => exact .inl rfl
      | false =>
        have hkept : line ∈ kept lines := List.mem_filter.mpr ⟨hline, by simp [hskipped]⟩
        obtain ⟨k, hk, rfl⟩ := List.getElem_of_mem hkept
        have hk' : k < ss.length := hspells.length_eq ▸ hk
        exact .inr ⟨ss[k], hperm.symm.subset (List.getElem_mem hk'), hspells.get hk hk'⟩
    · obtain ⟨k, hk, rfl⟩ := List.getElem_of_mem (hperm.subset hs)
      have hk' : k < (kept lines).length := hspells.length_eq ▸ hk
      exact ⟨_, List.mem_of_mem_filter (List.getElem_mem hk'), hspells.get hk' hk⟩

/-- A loaded program holds no statement with blanks around its code, none whose code is
empty, and none whose number has too many digits. -/
theorem readsBack_of_load (hload : load lines = .ok p) :
    ∀ s ∈ p.statements, ReadsBack s.number s.code := by
  intro s hs
  obtain ⟨line, -, hspells⟩ := (spells_of_load hload).2 s hs
  exact hspells.readsBack

/-- The printed statements load as the program, in any order. -/
theorem load_printed (hreads : ∀ s ∈ p.statements, ReadsBack s.number s.code)
    (hprinted : printed.Perm (p.statements.map Statement.display)) : load printed = .ok p := by
  have hspells : List.Forall₂ Spells (kept (p.statements.map Statement.display)) p.statements := by
    have hentries : ∀ n code, (n, code) ∈ p.statements.map (fun t => (t.number, t.code)) →
        ReadsBack n code := by
      intro n code hmem
      obtain ⟨s, hs, heq⟩ := List.mem_map.mp hmem
      obtain ⟨rfl, rfl⟩ := Prod.mk.inj heq
      exact hreads s hs
    have hlisted := (Session.forall₂_spells_iff hentries).mpr rfl
    rwa [List.map_map] at hlisted
  exact load_of_denotes ((Denotes.program hspells (.refl _)).perm hprinted.symm)

end Printed

def IsBare (line : String) (number : Nat) : Prop :=
  isSkipped line = true ∧ Text.trim line.toList ≠ [] ∧
    number = Text.digitsValue (Text.trim line.toList)

end Program

namespace Session

section Loaded

variable {lines : List String} {p : Program} {line : String} {n : Nat} {code : String}

/-- A line of a program writes one of its statements, or is a number alone, which
writes nothing. -/
theorem Writes.cases_of_load (h : Writes line n code) (hload : Program.load lines = .ok p)
    (hline : line ∈ lines) : (code = "" ∧ Program.IsBare line n) ∨
      ∃ s ∈ p.statements, s.number = n ∧ s.code = code := by
  rcases (Program.spells_of_load hload).1 line hline with hskipped | ⟨s, hs, hspells⟩
  · obtain ⟨hempty, hbare⟩ := h.of_isSkipped hskipped
    exact .inl ⟨hempty, hskipped, hbare⟩
  · exact .inr ⟨s, hs, h.unique hspells.writes⟩

/-- The lines of a program can be typed in any order, if none is the number of a
statement alone. -/
theorem agrees_of_load (hload : Program.load lines = .ok p)
    (hfree : ∀ line ∈ lines, ∀ n, Program.IsBare line n → ∀ s ∈ p.statements, s.number ≠ n) :
    Agrees lines where
  keeps line hline := by
    rcases (Program.spells_of_load hload).1 line hline with hskipped | ⟨s, -, hspells⟩
    · exact not_clears_of_isSkipped hskipped
    · exact fun hclears => hspells.writes.not_isUnnumbered hclears.1
  unique line hline other hother n c c' hc hc' := by
    rcases hc.cases_of_load hload hline with ⟨hempty, hbare⟩ | ⟨s, hs, hn, hcode⟩ <;>
      rcases hc'.cases_of_load hload hother with ⟨hempty', hbare'⟩ | ⟨s', hs', hn', hcode'⟩
    · rw [hempty, hempty']
    · exact absurd hn' (hfree line hline n hbare s' hs')
    · exact absurd hn (hfree other hother n hbare' s hs)
    · have heq : s = s' := List.inj_on_of_nodup_map p.nodup_numbers hs hs' (hn.trans hn'.symm)
      rw [← hcode, ← hcode', heq]

/-- What they write is the program. -/
theorem exists_writes_iff_of_load (hload : Program.load lines = .ok p) :
    (code ≠ "" ∧ ∃ line ∈ lines, Writes line n code) ↔
      (n, code) ∈ p.statements.map fun t => (t.number, t.code) := by
  rw [List.mem_map]
  constructor
  · rintro ⟨hne, line, hline, hwrites⟩
    obtain ⟨s, hs, hn, hcode⟩ := (hwrites.cases_of_load hload hline).resolve_left fun h => hne h.1
    exact ⟨s, hs, by rw [hn, hcode]⟩
  · rintro ⟨s, hs, heq⟩
    obtain ⟨rfl, rfl⟩ := Prod.mk.inj heq
    obtain ⟨line, hline, hspells⟩ := (Program.spells_of_load hload).2 s hs
    refine ⟨fun hempty => ?_, line, hline, hspells.writes⟩
    obtain ⟨c, rest, hfirst, -⟩ := hspells.readsBack.edges.first
    rw [hempty] at hfirst
    cases hfirst

/-- A number alone is not read if it has too many digits, and no other line of a program
has too many. -/
theorem abort_handle_of_load (hload : Program.load lines = .ok p) (hline : line ∈ lines)
    (fuel : Nat) (feed : Feed) (s : Session) (e : Abort) :
    (s.handle fuel feed line).value.abort = some e ↔ Program.isSkipped line = true ∧
      Text.maxDigits < (Text.trim line.toList).length ∧
      e = .oversized (Text.trim line.toList).length := by
  have hstored {n : Nat} {code : String} (h : Writes line n code) :
      (s.handle fuel feed line).value.abort = none := by
    rw [handle, h.ofText]
    rfl
  rcases (Program.spells_of_load hload).1 line hline with hskipped | ⟨t, -, hspells⟩
  · have hdigits : (Text.trim line.toList).takeWhile Text.isDigit = Text.trim line.toList :=
      List.takeWhile_eq_self_iff.mpr (List.all_eq_true.mp hskipped)
    by_cases hlong : Text.maxDigits < (Text.trim line.toList).length
    · have hoversized : IsOversized line _ := ⟨congrArg List.length hdigits, hlong⟩
      rw [handle_of_isOversized hoversized]
      simp only [Option.some.injEq, hskipped, hlong, true_and, eq_comm]
    · refine iff_of_false ?_ fun h => hlong h.2.1
      by_cases hnil : Text.trim line.toList = []
      · simp [handle, Entry.ofText, hnil]
      · have hwrites : Writes line _ _ := ⟨_, [], (List.append_nil _).symm, hnil,
          List.all_eq_true.mp hskipped, (fun _ hc => by cases hc), Nat.le_of_not_lt hlong, rfl, rfl⟩
        simp [hstored hwrites]
  · refine iff_of_false (by simp [hstored hspells.writes]) fun h => ?_
    rw [hspells.not_isSkipped] at h
    cases h.1

end Loaded

/-- The lines of a program, typed into a new session in any order, store its
statements, and what is stored loads as the same program. Only a number alone must
not be that of a statement, since typing it deletes what is stored there. Typing such a
number breaks off if it has more digits than the host reads, which loading does not read
it for, and typing any other line of a program does not. -/
theorem load_typing (i : Interpreter) (fuel : Nat) (feed : Feed) {lines typed : List String}
    {p : Program} (hload : Program.load lines = .ok p)
    (hfree : ∀ line ∈ lines, ∀ n, Program.IsBare line n → ∀ s ∈ p.statements, s.number ≠ n)
    (horder : typed.Perm lines) :
    let s := typing fuel feed { interpreter := i } typed
    s.Lists (p.statements.map fun t => (t.number, t.code)) ∧
      Program.load s.source = Program.load lines ∧
      ∀ line ∈ typed, ∀ (s : Session) (e : Abort),
        (s.handle fuel feed line).value.abort = some e ↔ Program.isSkipped line = true ∧
          Text.maxDigits < (Text.trim line.toList).length ∧
          e = .oversized (Text.trim line.toList).length := by
  intro s
  have hlists : s.Lists (p.statements.map fun t => (t.number, t.code)) := by
    refine lists_of_mem_iff (List.pairwise_map.mpr p.ascending) fun n code => ?_
    rw [((agrees_of_load hload hfree).perm horder).getElem?_typing,
      ← exists_writes_iff_of_load hload]
    simp only [horder.mem_iff]
  refine ⟨hlists, ?_, fun line hline s e => ?_⟩
  · rw [hload, hlists.source, List.map_map]
    exact Program.load_printed (Program.readsBack_of_load hload) (.refl _)
  · exact abort_handle_of_load hload (horder.subset hline) fuel feed s e

/-- A number alone of too many digits is a program without statements, and breaks off a
session. -/
theorem typing_breaks_off {line : String} {length : Nat} (hskipped : Program.isSkipped line = true)
    (hlength : (Text.trim line.toList).length = length) (hlong : Text.maxDigits < length)
    (fuel : Nat) (feed : Feed) (s : Session) : Program.load [line] = .ok .empty ∧
      (s.handle fuel feed line).value.abort = some (.oversized length) := by
  have hload : Program.load [line] = .ok .empty := by
    have hspells : List.Forall₂ Program.Spells (Program.kept [line]) [] := by
      rw [Program.kept_cons_of_isSkipped hskipped]
      exact .nil
    exact Program.load_of_denotes (.program hspells (.refl _))
  have habort := abort_handle_of_load hload List.mem_cons_self fuel feed s (.oversized length)
  rw [hlength] at habort
  exact ⟨hload, habort.mpr ⟨hskipped, hlong, rfl⟩⟩

theorem typing_breaks_off_at_overlong :
    let line := String.ofList (LineNumber.overlong 7)
    Program.load [line] = .ok .empty ∧
      (({ interpreter := { generator := ⟨#[], 0⟩ } } : Session).handle 9 {} line).value.abort =
        some (.oversized 4301) := by
  intro line
  have hdigits (c : Char) (hc : c ∈ LineNumber.overlong 7) : Text.isDigit c = true :=
    LineNumber.isDigit_of_mem_overlong hc
  have hedges : Text.HasEdges (LineNumber.overlong 7) :=
    Text.hasEdges_of_forall (LineNumber.overlong_ne_nil 7)
      fun c hc => Text.isBlank_of_isDigit (hdigits c hc)
  have htrim : Text.trim line.toList = LineNumber.overlong 7 := by
    rw [String.toList_ofList, hedges.trim]
  have hskipped : Program.isSkipped line = true := by
    rw [Program.isSkipped, htrim]
    exact List.all_eq_true.mpr hdigits
  have hlength : (Text.trim line.toList).length = 4301 := by
    rw [htrim, LineNumber.length_overlong]
    rfl
  exact typing_breaks_off hskipped hlength (by decide) 9 {} _

/-- Numbers in other spellings, code that starts with a number, a number alone, and a
blank line, typed backwards. -/
theorem load_typing_at_shuffledLines :
    let lines := ["٣٠ 5 PRINT A", " ", "7", " 010  LET A = 1 "]
    let p : Program := ⟨[⟨10, "LET A = 1", by decide⟩, ⟨30, "5 PRINT A", by decide⟩], by decide⟩
    let s := typing 9 {} { interpreter := { generator := ⟨#[], 0⟩ } } lines.reverse
    Program.load lines = .ok p ∧ Program.IsBare "7" 7 ∧
      s.source = ["10 LET A = 1", "30 5 PRINT A"] ∧ Program.load s.source = Program.load lines := by
  intro lines p s
  have hload : Program.load lines = .ok p := by decide +kernel
  have hfree : ∀ line ∈ lines, ∀ n, Program.IsBare line n → ∀ s ∈ p.statements, s.number ≠ n := by
    rintro line hline n ⟨hskipped, hne, rfl⟩
    revert line
    decide +kernel
  obtain ⟨hlists, heq, -⟩ := load_typing { generator := ⟨#[], 0⟩ } 9 {} hload hfree
    (List.reverse_perm lines)
  exact ⟨hload, by unfold Program.IsBare; decide +kernel, hlists.source, heq⟩

section Listing

variable {s : Session} {fuel : Nat} {feed : Feed} {i : Interpreter} {typed : List String}
  {line code : String} {n : Nat}

/-- A stored line in a program's text writes what is stored. -/
theorem writes_source (h : Program.ReadsBack n code) :
    Writes (toString n ++ " " ++ code) n code := by
  have hwrites := writes_of_parts (parts_of_readsBack h) h.length_le
  rwa [digitsValue_natDigits, Text.trimString, String.toList_ofList, h.edges.trim,
    String.ofList_toList] at hwrites

/-- So does a line that LIST prints: the number has only blanks in front of it. -/
theorem writes_listing (h : Program.ReadsBack n code) :
    Writes (padded n ++ " " ++ code) n code := by
  refine (writes_source h).of_trim ?_
  have hblanks : ∀ c ∈ List.replicate (4 - (toString n).length) ' ', Text.isBlank c = true := by
    intro c hc
    rw [List.eq_of_mem_replicate hc]
    decide
  simp only [padded, String.toList_append, String.toList_ofList, List.append_assoc]
  exact Text.trim_append_of_isBlank hblanks _

/-- Lines that write what is stored, one for each number, restore it. -/
theorem lines_typing_of_writes {f : Nat × String → String}
    (hwrites : ∀ n code, s.lines[n]? = some code → code ≠ "" ∧ Writes (f (n, code)) n code)
    (horder : typed.Perm (s.lines.toList.map f)) :
    (typing fuel feed { interpreter := i } typed).lines = s.lines := by
  have hmem {n : Nat} {code : String} : (n, code) ∈ s.lines.toList ↔ s.lines[n]? = some code :=
    Std.ExtTreeMap.mem_toList_iff_getElem?_eq_some
  have hiff (n : Nat) (code : String) :
      (∃ line ∈ s.lines.toList.map f, Writes line n code) ↔ s.lines[n]? = some code := by
    constructor
    · rintro ⟨line, hline, hcode⟩
      obtain ⟨⟨n', code'⟩, hentry, rfl⟩ := List.mem_map.mp hline
      obtain ⟨rfl, rfl⟩ := hcode.unique (hwrites n' code' (hmem.mp hentry)).2
      exact hmem.mp hentry
    · exact fun h => ⟨_, List.mem_map.mpr ⟨_, hmem.mpr h, rfl⟩, (hwrites n code h).2⟩
  have hagrees : Agrees (s.lines.toList.map f) := by
    refine ⟨fun line hline hclears => ?_, fun line hline other hother n c c' hc hc' => ?_⟩
    · obtain ⟨⟨n, code⟩, hentry, rfl⟩ := List.mem_map.mp hline
      exact (hwrites n code (hmem.mp hentry)).2.not_isUnnumbered hclears.1
    · exact Option.some.inj
        (((hiff n c).mp ⟨line, hline, hc⟩).symm.trans ((hiff n c').mp ⟨other, hother, hc'⟩))
  refine Std.ExtTreeMap.ext_getElem? fun n => Option.ext fun code => ?_
  rw [(hagrees.perm horder).getElem?_typing]
  simp only [horder.mem_iff, hiff]
  exact ⟨And.right, fun h => ⟨(hwrites n code h).1, h⟩⟩

/-- Both ways of listing what is stored restore it. -/
theorem lines_typing_listed
    (hstored : ∀ (n : Nat) (code : String), s.lines[n]? = some code →
      code ≠ "" ∧ Program.ReadsBack n code)
    (horder : typed.Perm s.listing ∨ typed.Perm s.source) :
    (typing fuel feed { interpreter := i } typed).lines = s.lines := by
  rcases horder with horder | horder
  · refine lines_typing_of_writes (fun n code h => ?_) horder
    exact (hstored n code h).imp_right writes_listing
  · refine lines_typing_of_writes (fun n code h => ?_) horder
    exact (hstored n code h).imp_right writes_source

theorem lines_events_list (hlist : Entry.ofText line = .list) :
    Event.lines (s.handle fuel feed line).events = s.listing := by
  simp only [handle, hlist, Logged.events_bind, Logged.events_pure, List.append_nil, print]
  induction s.listing with
  | nil => rfl
  | cons l ls ih => rw [List.map_cons, Event.lines_output, ih]

end Listing

/-- The statements of a loaded program, printed, load as that program, in any order;
and the lines that LIST prints for a session, or its lines as a program's text, typed
into a new session in any order, restore what it stored. -/
theorem listings_read_back :
    (∀ lines p, Program.load lines = .ok p → ∀ printed,
      printed.Perm (p.statements.map Statement.display) → Program.load printed = .ok p) ∧
    ∀ (i j : Interpreter) (history : List Incident) (fuel : Nat) (feed : Feed) (line : String),
      Entry.ofText line = .list →
      let s := history.foldl undergo { interpreter := i }
      ∀ typed, typed.Perm (Event.lines (s.handle fuel feed line).events) ∨ typed.Perm s.source →
        (typing fuel feed { interpreter := j } typed).lines = s.lines := by
  refine ⟨fun lines p hload printed hprinted => ?_, ?_⟩
  · exact Program.load_printed (Program.readsBack_of_load hload) hprinted
  · intro i j history fuel feed line hline s typed htyped
    rw [lines_events_list hline] at htyped
    refine lines_typing_listed (fun n code h => ?_) htyped
    exact ⟨(getElem?_undergo.mp h).1, readsBack_of_history h⟩

/-- A session whose lines have numbers of one to five digits, zero among them. -/
def widelyNumberedSession : List Incident :=
  ["12345 END", "7 30 REM", "0 x", "٢٠LET A = 1"].map (.typed 9 {})

theorem listings_read_back_at_widelyNumberedSession :
    let s := widelyNumberedSession.foldl undergo { interpreter := { generator := ⟨#[], 0⟩ } }
    let shown := Event.lines (s.handle 9 {} "list").events
    shown = ["   0 x", "   7 30 REM", "  20 LET A = 1", "12345 END"] ∧
      (typing 9 {} { interpreter := { generator := ⟨#[], 0⟩ } } shown).lines = s.lines ∧
      Program.load ["20 LET A = 1", "7 30 REM"] =
        .ok ⟨[⟨7, "30 REM", by decide⟩, ⟨20, "LET A = 1", by decide⟩], by decide⟩ := by
  intro s shown
  obtain ⟨hprinted, hlisted⟩ := listings_read_back
  refine ⟨by decide +kernel, ?_, ?_⟩
  · exact hlisted _ _ widelyNumberedSession 9 {} "list" (by decide +kernel) shown (.inl (.refl _))
  · exact hprinted ["007 30 REM", " 20 LET A = 1 "] _ (by decide +kernel) _ (.swap _ _ _)

end Session

end LineBasic
