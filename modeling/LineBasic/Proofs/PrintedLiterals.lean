import LineBasic.Proofs.Assignments
import LineBasic.Proofs.Containment

/-!
Text literals as they are printed. A list of literals with separators between them is cut
exactly at these separators, whatever the literals hold and whatever blanks stand around
the separators, and each item is its literal again. One line is printed, made of the
contents alone, and nothing else is done.
-/

namespace LineBasic

open Text

def Separator.char : Separator → Char
  | .comma => ','
  | .semicolon => ';'

theorem Separator.ofChar?_char (separator : Separator) :
    Separator.ofChar? separator.char = some separator := by
  cases separator <;> rfl

structure Gap where
  before : List Char
  separator : Separator
  behind : List Char

def Gap.spelling (gap : Gap) : List Char := gap.before ++ gap.separator.char :: gap.behind

structure LiteralList where
  first : String
  others : List (Gap × String)
  -- a separator behind the last one, and the blanks in front of it
  closing : Option (List Char × Separator)

namespace LiteralList

def spelling (l : LiteralList) : List Char :=
  (Value.text l.first).literal ++
    (l.others.flatMap (fun (gap, s) => gap.spelling ++ (Value.text s).literal) ++
      l.closing.elim [] fun (blanks, separator) => blanks ++ [separator.char])

/-- The line that the list prints: the contents, with a space for each comma between two
of them. -/
def displayed (l : LiteralList) : String :=
  l.first ++ String.join (l.others.map fun (gap, s) =>
    (if gap.separator = .comma then " " else "") ++ s)

structure IsSpelled (l : LiteralList) : Prop where
  first : '"' ∉ l.first.toList
  others : ∀ x ∈ l.others, '"' ∉ x.2.toList ∧
    ∀ c ∈ x.1.before ++ x.1.behind, isBlank c = true
  closing : ∀ x ∈ l.closing, ∀ c ∈ x.1, isBlank c = true

def items : String → List (Gap × String) → Option (List Char × Separator) → List PrintItem
  | s, [], closing => [⟨(Value.text s).literal, closing.map Prod.snd⟩]
  | s, (gap, t) :: others, closing =>
    ⟨(Value.text s).literal, some gap.separator⟩ :: items t others closing

end LiteralList

namespace PrintItem

section Cuts

variable {c : Char} {blanks before cs : List Char} {s : String} {separator : Separator}

/-- A character that separates nothing goes to the first item. -/
theorem cut_cons_of_text {quoted : Bool}
    (h : turn quoted c = true ∨ Separator.ofChar? c = none) :
    cut quoted (c :: cs) = consFirst c (cut (turn quoted c) cs) := by
  rw [cut_cons]
  rcases h with h | h
  · rw [h, if_pos rfl]
  · rw [h, ite_self]

theorem foldr_consFirst (front : List Char) (item : PrintItem) (items : List PrintItem) :
    front.foldr consFirst (item :: items) = ⟨front ++ item.text, item.separator⟩ :: items := by
  induction front with
  | nil => rfl
  | cons c front ih =>
    rw [List.foldr_cons, ih]
    rfl

theorem cut_blanks (h : ∀ c ∈ blanks, isBlank c = true) (cs : List Char) :
    cut false (blanks ++ cs) = blanks.foldr consFirst (cut false cs) := by
  induction blanks with
  | nil => rfl
  | cons c blanks ih =>
    have hc : isBlank c = true := h c List.mem_cons_self
    have hnone : Separator.ofChar? c = none := by
      have hcomma : c ≠ ',' := by
        rintro rfl
        cases hc
      have hsemicolon : c ≠ ';' := by
        rintro rfl
        cases hc
      rw [Separator.ofChar?, if_neg hcomma, if_neg hsemicolon]
    rw [List.cons_append, cut_cons_of_text (.inr hnone), turn_of_isBlank hc,
      ih fun d hd => h d (List.mem_cons_of_mem _ hd)]
    rfl

/-- No separator inside a literal cuts it. -/
theorem cut_literal (h : '"' ∉ s.toList) (cs : List Char) :
    cut false ((Value.text s).literal ++ cs) =
      (Value.text s).literal.foldr consFirst (cut false cs) := by
  have hinside (content : List Char) (hcontent : '"' ∉ content) :
      cut true (content ++ '"' :: cs) =
        content.foldr consFirst (consFirst '"' (cut false cs)) := by
    induction content with
    | nil => exact cut_cons_of_text (.inr rfl)
    | cons c content ih =>
      obtain ⟨hc, hrest⟩ := List.ne_and_not_mem_of_not_mem_cons hcontent
      have hturn : turn true c = true := turn_of_ne (Ne.symm hc) true
      rw [List.cons_append, cut_cons_of_text (.inl hturn), hturn, ih hrest]
      rfl
  have hquote : cut false ('"' :: (s.toList ++ '"' :: cs)) =
      consFirst '"' (cut true (s.toList ++ '"' :: cs)) := cut_cons_of_text (.inl rfl)
  simp only [Value.literal, List.cons_append, List.append_assoc, List.nil_append, hquote,
    hinside s.toList h, List.foldr_cons, List.foldr_append, List.foldr_nil]

theorem cut_separator (separator : Separator) (cs : List Char) :
    cut false (separator.char :: cs) = ⟨[], some separator⟩ :: cut false cs := by
  have hturn : turn false separator.char = false := by cases separator <;> rfl
  rw [cut_cons, hturn, if_neg Bool.false_ne_true, separator.ofChar?_char]

end Cuts

section Items

variable {blanks before cs : List Char} {s : String}

/-- A literal between blanks and a separator is the first item. -/
theorem ofText_literal_separator (h : '"' ∉ s.toList) (hblanks : ∀ c ∈ blanks, isBlank c = true)
    (hbefore : ∀ c ∈ before, isBlank c = true) (separator : Separator) (cs : List Char) :
    ofText (blanks ++ ((Value.text s).literal ++ (before ++ separator.char :: cs))) =
      ⟨(Value.text s).literal, some separator⟩ :: ofText cs := by
  have htrim : trim (blanks ++ ((Value.text s).literal ++ before)) = (Value.text s).literal := by
    rw [trim_append_of_isBlank hblanks, (Value.hasEdges_literal s).trim_append hbefore]
  rw [ofText, ofText, cut_blanks hblanks, cut_literal h, cut_blanks hbefore, cut_separator,
    foldr_consFirst, foldr_consFirst, foldr_consFirst, List.append_nil, List.map_cons, htrim,
    List.filter_cons_of_pos rfl]

/-- A literal behind blanks is an item even without a separator. -/
theorem ofText_literal (h : '"' ∉ s.toList) (hblanks : ∀ c ∈ blanks, isBlank c = true) :
    ofText (blanks ++ (Value.text s).literal) = [⟨(Value.text s).literal, none⟩] := by
  have htrim : trim (blanks ++ (Value.text s).literal) = (Value.text s).literal := by
    rw [trim_append_of_isBlank hblanks, (Value.hasEdges_literal s).trim]
  have hcut := cut_literal h []
  rw [List.append_nil] at hcut
  rw [ofText, cut_blanks hblanks, hcut, cut, foldr_consFirst, foldr_consFirst, List.append_nil,
    List.map_singleton, htrim]
  rfl

/-- The literal of a text is printed as the text. -/
theorem evaluate_literal (env : Environment) (h : '"' ∉ s.toList) :
    evaluate env (Value.text s).literal = pure (.text s) := by
  have hcontent : literalContent? (Value.text s).literal = some s.toList :=
    literalContent?_quoted h
  rw [evaluate, hcontent]
  simp only [String.ofList_toList]

end Items

end PrintItem

namespace LiteralList

variable {l : LiteralList}

/-- A list is cut into its literals. -/
theorem ofText_spelling (h : l.IsSpelled) {blanks : List Char}
    (hblanks : ∀ c ∈ blanks, isBlank c = true) :
    PrintItem.ofText (blanks ++ l.spelling) = items l.first l.others l.closing := by
  obtain ⟨first, others, closing⟩ := l
  induction others generalizing first blanks with
  | nil =>
    cases closing with
    | none => simpa [spelling, items] using PrintItem.ofText_literal h.first hblanks
    | some x =>
      have hitem := PrintItem.ofText_literal_separator h.first hblanks (h.closing x rfl) x.2 []
      have hnil : PrintItem.ofText [] = [] := rfl
      simpa [spelling, items, hnil] using hitem
  | cons x others ih =>
    obtain ⟨gap, s⟩ := x
    obtain ⟨hs, hgap⟩ := h.others _ List.mem_cons_self
    have hrest : IsSpelled ⟨s, others, closing⟩ :=
      ⟨hs, fun y hy => h.others y (List.mem_cons_of_mem _ hy), h.closing⟩
    have hitem := PrintItem.ofText_literal_separator h.first hblanks
      (fun c hc => hgap c (List.mem_append_left _ hc)) gap.separator
      (gap.behind ++ spelling ⟨s, others, closing⟩)
    rw [ih (fun c hc => hgap c (List.mem_append_right _ hc)) s hrest] at hitem
    rw [items, ← hitem]
    simp [spelling, Gap.spelling]

/-- The items of a list print its contents, with a space in front if a comma is there. -/
theorem line_items (env : Environment) (h : l.IsSpelled) (afterComma : Bool) :
    PrintItem.line env afterComma (items l.first l.others l.closing) =
      pure ((if afterComma then " " else "") ++ l.displayed) := by
  obtain ⟨first, others, closing⟩ := l
  induction others generalizing first afterComma with
  | nil =>
    simp [items, PrintItem.line, PrintItem.evaluate_literal env h.first, displayed, Value.display]
  | cons x others ih =>
    obtain ⟨gap, s⟩ := x
    have hrest : IsSpelled ⟨s, others, closing⟩ :=
      ⟨(h.others _ List.mem_cons_self).1, fun y hy => h.others y (List.mem_cons_of_mem _ hy),
        h.closing⟩
    simp [items, PrintItem.line, PrintItem.evaluate_literal env h.first, ih _ s hrest, displayed,
      Value.display, String.append_assoc]

/-- A list starts and ends with a character that is no blank. -/
theorem hasEdges_spelling (l : LiteralList) : HasEdges l.spelling := by
  have hfirst := Value.hasEdges_literal l.first
  have hseparator (separator : Separator) : HasEdges [separator.char] := by
    cases separator <;> exact hasEdges_of_forall (by simp) (by simp [Separator.char, Text.isBlank])
  obtain ⟨first, others, closing⟩ := l
  simp only [spelling]
  cases closing with
  | some x =>
    have hlast := hfirst.append (hseparator x.2)
      (others.flatMap (fun (gap, s) => gap.spelling ++ (Value.text s).literal) ++ x.1)
    simpa using hlast
  | none =>
    rw [Option.elim_none, List.append_nil]
    cases others using List.reverseRecOn with
    | nil => simpa using hfirst
    | append_singleton others x =>
      have hlast := hfirst.append (Value.hasEdges_literal x.2)
        (others.flatMap (fun (gap, s) => gap.spelling ++ (Value.text s).literal) ++ x.1.spelling)
      simpa using hlast

end LiteralList

/-- PRINT before a list of literals is the command of its items. -/
theorem Command.ofTrimmed_print {l : LiteralList} (h : l.IsSpelled) {blanks : List Char}
    (hblanks : ∀ c ∈ blanks, isBlank c = true) :
    ofTrimmed ("PRINT".toList ++ (blanks ++ l.spelling)) =
      .print (LiteralList.items l.first l.others l.closing) := by
  have hstop : StopsAt isWord (blanks ++ l.spelling) := by
    cases blanks with
    | nil => exact stopsAt_cons (by decide)
    | cons c blanks =>
      refine stopsAt_cons (Bool.eq_false_iff.mpr fun hword => ?_)
      have hblank := isBlank_of_isWord hword
      rw [hblanks c List.mem_cons_self] at hblank
      cases hblank
  have hk : Shape.keyword? ("PRINT".toList ++ (blanks ++ l.spelling)) =
      some (.PRINT, blanks ++ l.spelling) := Shape.keyword?_word_append .PRINT hstop
  have htrim : trim (blanks ++ l.spelling) = l.spelling := by
    rw [trim_append_of_isBlank hblanks, l.hasEdges_spelling.trim]
  have hitems := l.ofText_spelling h (List.forall_mem_nil _)
  rw [ofTrimmed_eq]
  simp only [hk, htrim]
  exact congrArg Command.print hitems

namespace Interpreter

variable {i : Interpreter} {s : Statement} {l : LiteralList} {blanks : List Char}

/-- Printing a line that is evaluated without a draw has no other effect. -/
theorem outcome_of_print {items : List PrintItem} {text : String}
    (hcommand : Command.ofText (trimString s.code) = .print items)
    (hline : PrintItem.line i.machine.environment false items = pure text) :
    (i.outcome s).1 = .ok { machine := i.machine, output := some text } ∧
      (i.outcome s).2.generator = i.generator := by
  have heval : (Exec.eval fun env => PrintItem.line env false items).run.run (i.begun s) =
      (.ok text, i.begun s) := by
    rw [Exec.run_eval]
    simp only [begun, hline]
    rfl
  have hexecution : i.execution s = (.ok .advance, { i.begun s with lines := [text] }) := by
    rw [execution_eq, hcommand, Command.execute, run_run_bind, heval]
    rfl
  rw [outcome, hexecution]
  exact ⟨rfl, rfl⟩

/-- Executing PRINT before a list of literals outputs one line, made of the contents with
a space for each comma between two of them. Then the run goes on behind the statement; no
variable is changed and nothing is drawn. -/
theorem prints_literals (hexecutes : i.Executes s) (hl : l.IsSpelled)
    (hblanks : ∀ c ∈ blanks, isBlank c = true)
    (hcode : trimString s.code = "PRINT" ++ String.ofList (blanks ++ l.spelling))
    (requests : List Request) :
    Event.lines (i.step requests).events = [l.displayed] ∧
      (i.step requests).value = ((i.asked requests).moveTo (i.machine.place + 1)).value ∧
      (i.step requests).value.machine.environment = i.machine.environment := by
  have hread : trimString s.code =
      String.ofList ("PRINT".toList ++ (blanks ++ l.spelling)) := by
    apply String.toList_inj.mp
    simp only [hcode, String.toList_append, String.toList_ofList]
  have hcommand := (Command.ofText_trimString hread).trans (Command.ofTrimmed_print hl hblanks)
  have hline := LiteralList.line_items i.machine.environment hl false
  rw [if_neg Bool.false_ne_true, String.empty_append] at hline
  obtain ⟨hout, hgenerator⟩ := outcome_of_print hcommand hline
  have hdrawn : i.drawn s = i := by rw [drawn, hgenerator]
  have hvalue : (i.step requests).value =
      ((i.asked requests).moveTo (i.machine.place + 1)).value := by
    rw [step_of_executes hexecutes, value_perform_of_ok hout, hdrawn]
    simp only [enact, follow, Logged.value_bind, value_output, place_asked]
  refine ⟨?_, hvalue, ?_⟩
  · rw [step_of_executes hexecutes, lines_perform_of_ok hout, hdrawn]
    simp only [enact, follow, Logged.events_bind, Event.lines_append, lines_output, lines_moveTo,
      List.append_nil]
  · rw [hvalue, value_moveTo]
    split <;> simp [ended, placed]

/-- Literals that hold separators, blanks and the words of a statement. -/
def punctuatedList : LiteralList where
  first := "a, b "
  others := [(⟨[' '], .comma, ['\t']⟩, "; THEN"), (⟨[], .semicolon, [' ', ' ']⟩, "\n,")]
  closing := some ([' '], .semicolon)

/-- The literals are printed as they are, with a space for the one comma outside them. -/
theorem prints_literals_at_punctuatedList :
    let s : Statement :=
      ⟨10, "PRINT \"a, b \" ,\t\"; THEN\";  \"\n,\" ;", by decide⟩
    let i : Interpreter := {
      program := ⟨[s], by simp⟩, machine := { running := true }, status := .running
      generator := ⟨#[], 0⟩ }
    i.Executes s ∧ Event.lines (i.step []).events = ["a, b  ; THEN\n,"] ∧
      (i.step []).value = (i.moveTo 1).value := by
  intro s i
  have hexecutes : i.Executes s := ⟨rfl, rfl, rfl, rfl⟩
  have hcode : trimString s.code =
      "PRINT" ++ String.ofList ([' '] ++ punctuatedList.spelling) := by decide +kernel
  have hblanks : ∀ c ∈ [' '], isBlank c = true := by simp [isBlank]
  have hspelled : punctuatedList.IsSpelled := by
    constructor <;> simp [punctuatedList, isBlank]
  have hdisplayed : punctuatedList.displayed = "a, b  ; THEN\n," := by decide +kernel
  obtain ⟨hlines, hvalue, -⟩ :=
    prints_literals hexecutes hspelled hblanks hcode []
  rw [hdisplayed] at hlines
  exact ⟨hexecutes, hlines, hvalue⟩

end Interpreter

end LineBasic
