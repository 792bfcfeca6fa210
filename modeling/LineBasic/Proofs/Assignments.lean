import LineBasic.Proofs.CapitalExpressions
import LineBasic.Proofs.Clauses
import LineBasic.Proofs.UpperCase
import LineBasic.Proofs.Wordings

/-!
What an assignment binds and where the binding can be read. Any name can be
printed afterwards, in any case of its ASCII letters. In an expression a name
ends at the first character that is not ASCII, so no other name is read there;
and a name whose upper case is none cannot be bound at all.
-/

namespace LineBasic

open Text

section Literals

variable {c : Char} {cs : List Char} {x : Float}

/-- A text that is a number is a numeral with at most one sign in front. -/
theorem exists_numeral_of_readTrimmedNumber? (h : readTrimmedNumber? cs = some x) :
    ∃ y : Numeral, y.IsSpelled ∧ ((cs = y.spelling ∧ x = y.value) ∨
      (cs = '+' :: y.spelling ∧ x = y.value) ∨
      (cs = '-' :: y.spelling ∧ x = y.signedValue true)) := by
  unfold readTrimmedNumber? at h
  split at h <;> obtain ⟨y, hy, rfl⟩ := Option.map_eq_some_iff.mp h <;>
    obtain ⟨hspelled, rfl⟩ := Numeral.exists_of_ofText? hy
  · exact ⟨y, hspelled, .inr (.inr ⟨rfl, rfl⟩)⟩
  · exact ⟨y, hspelled, .inr (.inl ⟨rfl, rfl⟩)⟩
  · exact ⟨y, hspelled, .inl ⟨rfl, rfl⟩⟩

/-- A number starts with a sign, a digit, or a point. -/
theorem head_of_readTrimmedNumber? (h : readTrimmedNumber? (c :: cs) = some x) :
    isDigit c = true ∨ c = '.' ∨ c = '+' ∨ c = '-' := by
  obtain ⟨y, hy, ⟨happend, -⟩ | ⟨happend, -⟩ | ⟨happend, -⟩⟩ :=
    exists_numeral_of_readTrimmedNumber? h
  · obtain ⟨d, ds, hspelling, hd⟩ := Token.exists_spelling_of_numeral hy
    rw [hspelling] at happend
    obtain ⟨rfl, -⟩ := List.cons.inj happend
    exact hd.imp_right Or.inl
  · exact .inr (.inr (.inl (List.cons.inj happend).1))
  · exact .inr (.inr (.inr (List.cons.inj happend).1))

theorem isBlank_of_readTrimmedNumber? (h : readTrimmedNumber? cs = some x) :
    cs ≠ [] ∧ ∀ c ∈ cs, isBlank c = false := by
  obtain ⟨y, hy, hcases⟩ := exists_numeral_of_readTrimmedNumber? h
  have hother : ∀ c ∈ ['.', 'e', 'E', '+', '-'], isBlank c = false := by simp [isBlank]
  have hspelling : ∀ c ∈ y.spelling, isBlank c = false :=
    hy.forall_mem (fun _ => isBlank_of_isDigit) hother
  rcases hcases with ⟨rfl, -⟩ | ⟨rfl, -⟩ | ⟨rfl, -⟩
  · obtain ⟨d, ds, hne, -⟩ := Token.exists_spelling_of_numeral hy
    exact ⟨by simp [hne], hspelling⟩
  · exact ⟨by simp, List.forall_mem_cons.mpr ⟨hother _ (by decide), hspelling⟩⟩
  · exact ⟨by simp, List.forall_mem_cons.mpr ⟨hother _ (by decide), hspelling⟩⟩

/-- No name is the literal of a value. -/
theorem readTrimmedNumber?_of_isName (h : isName cs = true) : readTrimmedNumber? cs = none := by
  cases cs with
  | nil => cases h
  | cons c cs =>
    rw [isName, Bool.and_eq_true] at h
    have hstart : isNameStart c = true := by simp [isNameStart, h.1]
    refine Option.eq_none_iff_forall_ne_some.mpr fun x hx => ?_
    rcases head_of_readTrimmedNumber? hx with hdigit | rfl | rfl | rfl
    · exact absurd hstart (by simp [isNameStart_of_isDigit hdigit])
    · cases h.1
    · cases h.1
    · cases h.1

theorem literalContent?_of_ne (h : c ≠ '"') : literalContent? (c :: cs) = none := by
  rw [literalContent?]
  intro ds hds
  exact h (List.cons.inj hds).1

/-- What stands between two double quotes and holds none is the content of a literal. -/
theorem literalContent?_quoted (h : '"' ∉ cs) : literalContent? ('"' :: cs ++ ['"']) = some cs := by
  have hinside : ∀ c ∈ cs, isInsideQuotes c = true := by
    intro c hc
    simp only [isInsideQuotes, bne_iff_ne]
    rintro rfl
    exact h hc
  have hstop : StopsAt isInsideQuotes ['"'] := stopsAt_cons (by decide)
  rw [List.cons_append, literalContent?, dropWhile_run hinside hstop, takeWhile_run hinside hstop,
    if_pos rfl]

theorem literalContent?_of_isName (h : isName cs = true) : literalContent? cs = none := by
  cases cs with
  | nil => cases h
  | cons c cs =>
    refine literalContent?_of_ne ?_
    rintro rfl
    exact notMem_of_isName h List.mem_cons_self

namespace Value

theorem hasEdges_literal (s : String) : HasEdges (Value.text s).literal :=
  ⟨⟨'"', s.toList ++ ['"'], rfl, by decide⟩, '"' :: s.toList, '"', rfl, by decide⟩

inductive IsLiteral : Value → String → Prop
  | text {s : String} (h : '"' ∉ s.toList) :
      IsLiteral (.text s) (String.ofList ('"' :: s.toList ++ ['"']))
  | number {x : Float} {s : String} (h : readTrimmedNumber? s.toList = some x) :
      IsLiteral (.number x) s

variable {v : Value} {literal : String}

theorem IsLiteral.hasEdges (h : v.IsLiteral literal) : HasEdges literal.toList := by
  cases h with
  | @text s hs =>
    rw [String.toList_ofList]
    exact hasEdges_literal s
  | number h =>
    obtain ⟨hne, hblanks⟩ := isBlank_of_readTrimmedNumber? h
    exact hasEdges_of_forall hne hblanks

/-- A literal has its value, whatever is bound. -/
theorem IsLiteral.evaluateTrimmed (h : v.IsLiteral literal) (env : Environment) :
    evaluateTrimmed env literal.toList = pure v := by
  cases h with
  | @text s hs =>
    rw [String.toList_ofList, LineBasic.evaluateTrimmed, literalContent?_quoted hs]
    simp only [String.ofList_toList]
  | @number x _ h =>
    have hnone : literalContent? literal.toList = none := by
      cases hcs : literal.toList with
      | nil => rfl
      | cons c cs =>
        refine literalContent?_of_ne ?_
        rintro rfl
        rw [hcs] at h
        have hhead := head_of_readTrimmedNumber? h
        revert hhead
        decide
    simp only [LineBasic.evaluateTrimmed, hnone, h]

end Value

end Literals

section Names

variable {c : Char} {cs ds : List Char} {v : Value}

/-- What does not tell a letter from its capital does not tell texts apart that are
the same in any case. -/
theorem Text.CaseBlind.map_eq {α : Type} {f : Char → α} (hf : CaseBlind f)
    (h : cs.map Char.toUpper = ds.map Char.toUpper) : cs.map f = ds.map f := by
  have hmap (es : List Char) : es.map f = (es.map Char.toUpper).map f := by
    rw [List.map_map]
    exact List.map_congr_left fun c _ => (hf false c).symm
  rw [hmap, h, ← hmap]

theorem Text.upperString_of_caseless {s t : String} (h : caseless s = caseless t) :
    upperString s = upperString t := by
  have hmap := caseBlind_upperChar.map_eq h
  rw [upperString, upperString, upper, upper, List.flatMap_def, List.flatMap_def, hmap]

theorem isName_of_map_toUpper (h : cs.map Char.toUpper = ds.map Char.toUpper) :
    isName cs = isName ds := by
  cases cs with
  | nil =>
    obtain rfl := List.map_eq_nil_iff.mp h.symm
    rfl
  | cons c cs =>
    obtain ⟨d, ds, rfl, hd, hds⟩ := List.map_eq_cons_iff.mp h.symm
    have hletter : isLetter d = isLetter c :=
      calc isLetter d
        _ = isLetter d.toUpper := (caseBlind_isLetter false d).symm
        _ = isLetter c.toUpper := congrArg isLetter hd
        _ = isLetter c := caseBlind_isLetter false c
    have hwords : ds.all isWord = cs.all isWord := by
      have hmap := congrArg (List.all · id) (caseBlind_isWord.map_eq hds)
      simpa only [List.all_map, Function.id_comp] using hmap
    rw [isName, isName, hletter, hwords]

/-- ASCII is put into upper case letter by letter. -/
theorem Text.upper_of_ascii (h : ∀ c ∈ cs, c.toNat < 128) : upper cs = cs.map Char.toUpper := by
  have hascii : ∀ n : Fin 128, upperChar (Char.ofNat n) = [(Char.ofNat n).toUpper] := by
    decide +kernel
  have hchars : ∀ c ∈ cs, upperChar c = [c.toUpper] := by
    intro c hc
    have hchar := hascii ⟨c.toNat, h c hc⟩
    rwa [Char.ofNat_toNat] at hchar
  rw [upper, List.flatMap_def, List.map_congr_left hchars, ← List.flatMap_def,
    ← List.map_eq_flatMap]

/-- The upper case of an ASCII name is a name. -/
theorem isName_upper_of_isNameChar (hname : isName cs = true) (h : cs.all isNameChar = true) :
    isName (upper cs) = true := by
  have hascii : ∀ c ∈ cs, c.toNat < 128 := by
    intro c hc
    have hrange := isNameChar_iff.mp (List.all_eq_true.mp h c hc)
    omega
  rw [upper_of_ascii hascii, ← hname]
  apply isName_of_map_toUpper
  rw [List.map_map]
  exact List.map_congr_left fun c _ => caseBlind_toUpper false c

/-- An expression ends behind what has been derived, unless an operator follows. -/
theorem Expr.ofTokens?_eq_none_of_stops {level : Level} {ts rest : List Token} {e : Expr}
    (h : Derives level ts e) (hstops : level.Stops rest) (hrest : rest ≠ []) :
    ofTokens? level (ts ++ rest) = none := by
  have hread := h.reads.1 (10 * (ts ++ rest).length + 10) rest
    (by simp only [need, List.length_append]; omega) hstops
  obtain ⟨t, rest, rfl⟩ := List.exists_cons_of_ne_nil hrest
  rw [ofTokens?, hread]

/-- A name is an expression of its own. -/
theorem Expr.derives_name (cs : List Char) : Derives .sum [.name cs] (.variable (treeName cs)) :=
  .operand (by decide) (.operand (by decide) (.operand (by decide) (.variable cs)))

/-- Where a name goes on beyond ASCII, a number is the only token that may come. -/
theorem exists_number_of_isWord (hword : isWord c = true) (hc : isNameChar c = false)
    {ts : List Token} (h : tokens? (c :: cs) = some ts) : ∃ x rest, ts = .number x :: rest := by
  have hstart : isNameStart c = false :=
    Bool.eq_false_iff.mpr fun hstart => by simp [isNameChar_of_isNameStart hstart] at hc
  have hspace : isSpace c = false := by
    refine Bool.eq_false_iff.mpr fun hspace => ?_
    simp only [isSpace, Bool.or_eq_true, beq_iff_eq] at hspace
    rcases hspace with (((rfl | rfl) | rfl) | rfl) | rfl <;> cases hword
  have hquote : c ≠ '"' := by
    rintro rfl
    cases hword
  have hsymbol : Token.scanSymbol? (c :: cs) = none := by
    unfold Token.scanSymbol?
    split
    all_goals first
      | rfl
      | next heq =>
        obtain ⟨rfl, -⟩ := List.cons.inj heq
        cases hword
  rw [tokens?, hspace, if_neg Bool.false_ne_true] at h
  split at h
  · next t rest hscan =>
    obtain ⟨ts, -, rfl⟩ := Option.map_eq_some_iff.mp h
    rw [Token.scan?, if_neg hquote, hstart, if_neg Bool.false_ne_true] at hscan
    split at hscan
    · cases hscan
      exact ⟨_, ts, rfl⟩
    · rw [hsymbol] at hscan
      cases hscan
  · cases h

/-- As an expression a name is read as a variable if it is ASCII, and not at all
otherwise. -/
theorem Expr.ofExpression?_of_isName (h : isName cs = true) : ofExpression? cs =
    if cs.all isNameChar then some (.variable (treeName cs)) else none := by
  cases cs with
  | nil => cases h
  | cons c cs =>
    have hwords := Shape.forall_isWord_of_isName h
    rw [isName, Bool.and_eq_true] at h
    have hstart : isNameStart c = true := by simp [isNameStart, h.1]
    have hquote : c ≠ '"' := by
      rintro rfl
      cases hstart
    have hscan : Token.scan? (c :: cs) =
        some (.name (c :: cs.takeWhile isNameChar), cs.dropWhile isNameChar) := by
      rw [Token.scan?, if_neg hquote, if_pos hstart]
    have hall : (c :: cs).all isNameChar = cs.all isNameChar := by
      rw [List.all_cons, isNameChar_of_isNameStart hstart, Bool.true_and]
    rw [ofExpression?, parse?, tokens?_of_scan? hscan, hall]
    cases hrest : cs.dropWhile isNameChar with
    | nil =>
      have htake : cs.takeWhile isNameChar = cs := by
        have happend := List.takeWhile_append_dropWhile (p := isNameChar) (l := cs)
        rwa [hrest, List.append_nil] at happend
      have hascii : cs.all isNameChar = true := by
        rw [← htake]
        exact List.all_takeWhile
      rw [htake, hascii, tokens?]
      exact ofTokens?_eq_some_iff.mpr (derives_name (c :: cs))
    | cons d ds =>
      have hd : isNameChar d = false := stopsAt_dropWhile isNameChar cs d (by rw [hrest]; rfl)
      have hmem : d ∈ cs := (List.dropWhile_sublist isNameChar).subset (by simp [hrest])
      have hascii : cs.all isNameChar = false :=
        List.all_eq_false.mpr ⟨d, hmem, by simp [hd]⟩
      -- No operator starts with a word character, so the name is all that is derived, and
      -- something is left over.
      rw [hascii, if_neg Bool.false_ne_true]
      cases htokens : tokens? (d :: ds) with
      | none => rfl
      | some ts =>
        obtain ⟨x, rest, rfl⟩ :=
          exists_number_of_isWord (hwords d (List.mem_cons_of_mem _ hmem)) hd htokens
        have hstops : Level.sum.Stops (.number x :: rest) := ⟨by simp, by simp⟩
        exact ofTokens?_eq_none_of_stops (derives_name (c :: cs.takeWhile isNameChar)) hstops
          (by simp)

/-- What a name is evaluated as: its variable, if it is ASCII. -/
theorem evaluateTrimmed_of_isName {env : Environment} (hname : isName cs = true)
    (hrnd : upper cs ≠ "RND".toList) (hget : env.get (Expr.treeName cs) = .ok v) :
    evaluateTrimmed env cs =
      if cs.all isNameChar then pure v else throw (.malformedExpression (String.ofList cs)) := by
  have hne : Expr.treeName cs ≠ "RND" := by
    intro heq
    rw [Expr.treeName] at heq
    exact hrnd (by rw [← heq, String.toList_ofList])
  simp only [evaluateTrimmed, literalContent?_of_isName hname, readTrimmedNumber?_of_isName hname,
    Expr.ofExpression?_of_isName hname]
  cases cs.all isNameChar with
  | true =>
    simp only [if_true, Expr.eval, if_neg hne, hget]
    rfl
  | false => rfl

/-- What a name is printed as: its variable. -/
theorem PrintItem.evaluate_of_isName {env : Environment} (hname : isName cs = true)
    (hrnd : upper cs ≠ "RND".toList) (hget : env.get (String.ofList cs) = .ok v) :
    PrintItem.evaluate env cs = pure v := by
  simp only [PrintItem.evaluate, literalContent?_of_isName hname, hname, if_true, if_neg hrnd, hget]
  rfl

end Names

section Bindings

variable {env env' : Environment} {name read : String} {v : Value}

theorem Environment.exists_set (env : Environment) (v : Value) (h : isName name.toList = true) :
    ∃ env', env.set name v = .ok env' := by
  rw [set, normalName, if_pos h]
  exact ⟨_, rfl⟩

/-- What is bound under a name is found under each text with the same upper case. -/
theorem Environment.get_of_set (h : env.set name v = .ok env')
    (hread : upperString read = upperString name) : env'.get read = .ok v := by
  rw [get, get?_set h, if_pos hread.symm]

/-- A name that is bound under its upper case can be read in any case: always where it
is printed, and as an expression if it is ASCII. -/
theorem Environment.reads_of_set (h : env.set (upperString name) v = .ok env')
    (hname : isName name.toList = true) (hrnd : upperString name ≠ "RND")
    (hread : caseless read = caseless name) :
    PrintItem.evaluate env' (trim read.toList) = pure v ∧
      evaluate env' read = if read.toList.all isNameChar then pure v
        else throw (.malformedExpression read) := by
  have hname' : isName read.toList = true := (isName_of_map_toUpper hread).trans hname
  have hupper : upperString read = upperString name := upperString_of_caseless hread
  have hrnd' : upper read.toList ≠ "RND".toList := by
    intro heq
    apply hrnd
    rw [← hupper, upperString, heq, String.ofList_toList]
  have hprinted : env'.get (String.ofList read.toList) = .ok v :=
    get_of_set h (by rw [String.ofList_toList, hupper, upperString_upperString])
  have hevaluated : env'.get (Expr.treeName read.toList) = .ok v := by
    apply get_of_set h
    rw [← hupper]
    rfl
  have htrim : trim read.toList = read.toList := (Shape.hasEdges_of_isName hname').trim
  constructor
  · rw [htrim]
    exact PrintItem.evaluate_of_isName hname' hrnd' hprinted
  · rw [evaluate, htrim, evaluateTrimmed_of_isName hname' hrnd' hevaluated, String.ofList_toList]

end Bindings

namespace Interpreter

variable {i : Interpreter} {s : Statement} {key name literal : String} {value : List Char}
  {v : Value}

/-- An assignment whose expression has a value binds it, or faults because it cannot. -/
theorem execution_of_assign (hcommand : Command.ofText (trimString s.code) = .assign key value)
    (hvalue : evaluateTrimmed i.machine.environment value = pure v) :
    i.execution s = match i.machine.environment.set key v with
      | .ok environment =>
        (.ok .advance, { i.begun s with machine := { i.machine with environment } })
      | .error f => (.error f, i.begun s) := by
  have heval : (Exec.eval fun env => evaluateTrimmed env value).run.run (i.begun s) =
      (.ok v, i.begun s) := by
    rw [Exec.run_eval]
    simp only [begun, hvalue]
    rfl
  rw [execution_eq, hcommand, Command.execute, run_run_bind, heval]
  simp only [run_run_bind, Exec.run_assign, Exec.run_pure, begun]
  cases i.machine.environment.set key v <;> rfl

/-- The command of an assignment behind LET. -/
theorem command_of_let (hname : isName name.toList = true) (hliteral : HasEdges literal.toList)
    (hcode : s.code = "LET " ++ name ++ " = " ++ literal) :
    Command.ofText (trimString s.code) = .assign (upperString name) literal.toList := by
  have hlist : s.code.toList =
      "LET".toList ++ ' ' :: (name.toList ++ ' ' :: '=' :: ' ' :: literal.toList) := by
    simp [hcode]
  have hedges : HasEdges s.code.toList := by
    have happend :=
      (Shape.hasEdges_word .LET).append hliteral (' ' :: (name.toList ++ [' ', '=', ' ']))
    rw [List.cons_append, List.append_assoc] at happend
    rw [hlist]
    exact happend
  have hread : trimString s.code = String.ofList
      ("LET".toList ++ ' ' :: (name.toList ++ ' ' :: '=' :: ' ' :: literal.toList)) := by
    rw [hedges.trimString, ← hlist, String.ofList_toList]
  rw [Command.ofText_trimString hread, Command.ofTrimmed_let hname hliteral, upperString]

/-- Executing LET binds the name of a variable to a literal unless its upper case is
no name, which is never so for an ASCII name. The variable is then read in any case
of its letters: always where it is printed, and in an expression if it is ASCII. -/
theorem assigned_reads_back (i : Interpreter) (hname : isName name.toList = true)
    (hrnd : upperString name ≠ "RND") (hliteral : v.IsLiteral literal)
    (hcode : s.code = "LET " ++ name ++ " = " ++ literal) :
    (name.toList.all isNameChar = true → isName (upperString name).toList = true) ∧
      (isName (upperString name).toList = false →
        (i.execution s).1 = .error (.invalidName (upperString name)) ∧
          (i.execution s).2.unnoted = { machine := i.machine, generator := i.generator }) ∧
      (isName (upperString name).toList = true → ∃ environment,
        (i.execution s).1 = .ok .advance ∧
          (i.execution s).2.unnoted = {
            machine := { i.machine with environment := environment }
            generator := i.generator } ∧
          (∀ x, environment.get? x = if upperString x = upperString name then some v
            else i.machine.environment.get? x) ∧
          ∀ read, caseless read = caseless name →
            PrintItem.evaluate environment (trim read.toList) = pure v ∧
              evaluate environment read = if name.toList.all isNameChar then pure v
                else throw (.malformedExpression read)) := by
  have hcommand := command_of_let hname hliteral.hasEdges hcode
  have hexecution := execution_of_assign hcommand (hliteral.evaluateTrimmed i.machine.environment)
  refine ⟨?_, ?_, ?_⟩
  · intro hascii
    rw [upperString, String.toList_ofList]
    exact isName_upper_of_isNameChar hname hascii
  · intro hno
    rw [hexecution, Environment.set_eq_error_iff.mpr ⟨hno, rfl⟩]
    exact ⟨rfl, rfl⟩
  · intro hyes
    obtain ⟨environment, hset⟩ := i.machine.environment.exists_set v hyes
    rw [hexecution, hset]
    refine ⟨environment, rfl, rfl, fun x => ?_, fun read hread => ?_⟩
    · rw [Environment.get?_set hset, upperString_upperString]
      simp only [eq_comm]
    · have hascii : read.toList.all isNameChar = name.toList.all isNameChar := by
        have hmap := congrArg (List.all · id) (Token.caseBlind_isNameChar.map_eq hread)
        simpa only [List.all_map, Function.id_comp] using hmap
      rw [← hascii]
      exact Environment.reads_of_set hset hname hrnd hread

/-- An assignment to a name that is not ASCII, and whose upper case is longer. -/
def namedInGerman : Statement := ⟨100, "LET Größe = \"12 m\"", Nat.succ_pos _⟩

/-- In any case the name is printed as the text that it was assigned. -/
theorem assigned_reads_back_at_namedInGerman :
    let i : Interpreter := { generator := ⟨#[], 0⟩ }
    isName "Größe".toList = true ∧ upperString "Größe" = "GRÖSSE" ∧
      (Value.text "12 m").IsLiteral "\"12 m\"" ∧
      ∃ environment, (i.execution namedInGerman).2.machine =
          { i.machine with environment := environment } ∧
        PrintItem.evaluate environment "gRößE".toList = pure (.text "12 m") ∧
        evaluate environment "gRößE" = throw (.malformedExpression "gRößE") := by
  intro i
  have hname : isName "Größe".toList = true := by decide +kernel
  have hupper : upperString "Größe" = "GRÖSSE" := by decide +kernel
  have hliteral : (Value.text "12 m").IsLiteral "\"12 m\"" := .text (s := "12 m") (by decide)
  have hrnd : upperString "Größe" ≠ "RND" := by
    rw [hupper]
    decide
  have hread : caseless "gRößE" = caseless "Größe" := by decide +kernel
  have hyes : isName (upperString "Größe").toList = true := by decide +kernel
  obtain ⟨-, -, hbound⟩ := assigned_reads_back i hname hrnd hliteral (s := namedInGerman) rfl
  obtain ⟨environment, -, hunnoted, -, hreads⟩ := hbound hyes
  obtain ⟨hprinted, hevaluated⟩ := hreads "gRößE" hread
  have hascii : "Größe".toList.all isNameChar = false := by decide +kernel
  rw [hascii] at hevaluated
  exact ⟨hname, hupper, hliteral, environment, congrArg Execution.machine hunnoted, hprinted,
    hevaluated⟩

/-- A name that can be assigned and printed, and that no expression can read. -/
theorem assigned_not_read_at_accentedName :
    let i : Interpreter := { generator := ⟨#[], 0⟩ }
    isName "Aé".toList = true ∧ (Value.number 1).IsLiteral "1" ∧
      ∃ environment, (i.execution ⟨10, "LET Aé = 1", by decide⟩).2.machine =
          { i.machine with environment := environment } ∧
        environment.get? "Aé" = some (.number 1) ∧
        PrintItem.evaluate environment "Aé".toList = pure (.number 1) ∧
        evaluate environment "Aé" = throw (.malformedExpression "Aé") := by
  intro i
  have hname : isName "Aé".toList = true := by decide +kernel
  have hnumber : readTrimmedNumber? "1".toList = some 1 := by decide +kernel
  have hliteral : (Value.number 1).IsLiteral "1" := .number hnumber
  have hrnd : upperString "Aé" ≠ "RND" := by decide +kernel
  have hyes : isName (upperString "Aé").toList = true := by decide +kernel
  obtain ⟨environment, hset⟩ := i.machine.environment.exists_set (.number 1) hyes
  have hexecution := execution_of_assign (i := i)
    (command_of_let hname hliteral.hasEdges (s := ⟨10, "LET Aé = 1", by decide⟩) rfl)
    (hliteral.evaluateTrimmed _)
  obtain ⟨hprinted, hevaluated⟩ := Environment.reads_of_set hset hname hrnd rfl
  have hascii : "Aé".toList.all isNameChar = false := by decide +kernel
  have hget : environment.get? "Aé" = some (.number 1) := by
    rw [Environment.get?_set hset, upperString_upperString, if_pos rfl]
  have hmachine : (i.execution ⟨10, "LET Aé = 1", by decide⟩).2.machine =
      { i.machine with environment := environment } := by
    rw [hexecution, hset]
  rw [hascii] at hevaluated
  exact ⟨hname, hliteral, environment, hmachine, hget, hprinted, hevaluated⟩

end Interpreter

end LineBasic
