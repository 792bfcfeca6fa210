import LineBasic.Expr.Token
import LineBasic.Keyword
import LineBasic.LineNumber
import LineBasic.Text.Blank
import LineBasic.Text.Upper
import LineBasic.Text.Word

/-!
The shapes of statements: how the text behind a command word is cut into
names, expressions and clauses. An inner keyword (THEN, TO, STEP) counts in
any case, and only between blanks.
-/

namespace LineBasic.Shape

/-- The command word at the front of a statement and the text behind it. The
word must not run on into further word characters. -/
def keyword? (code : List Char) : Option (Keyword × List Char) :=
  let rest := code.dropWhile Text.isLetter
  if rest.head?.any Text.isWord then none
  else
    (Keyword.ofWord? (String.ofList (Text.upper (code.takeWhile Text.isLetter)))).map (·, rest)

/-- The text without its leading blanks; `none` if it does not start with a
blank. -/
def afterBlanks? : List Char → Option (List Char)
  | [] => none
  | c :: cs => if Text.isBlank c then some (Text.trimLeft cs) else none

def isLeftSide (c : Char) : Bool := !Text.isBlank c && c != '='

/-- The left and right sides of the first equals sign that is not the first
character. Blanks may stand before the sign, but not inside the left side. -/
def atEquals? : List Char → Option (List Char × List Char)
  | [] => none
  | c :: cs =>
    match Text.trimLeft (cs.dropWhile isLeftSide) with
    | '=' :: right => some (c :: cs.takeWhile isLeftSide, right)
    | _ => none

def assignment? (cs : List Char) : Option (List Char × List Char) :=
  match atEquals? cs with
  | some (left, c :: right) => some (left, c :: right)
  | _ => none

/-- Takes a word, given in upper case, from the front of a text. -/
def takeWord? : List Char → List Char → Option (List Char)
  | [], cs => some cs
  | _ :: _, [] => none
  | k :: ks, c :: cs => if Text.upperChar c = [k] then takeWord? ks cs else none

/-- The text behind a word at the front and the blanks after it. -/
def behindWord? (word cs : List Char) : Option (List Char) :=
  match takeWord? word cs with
  | some (c :: rest) =>
    if Text.isBlank c ∧ Text.trimLeft rest ≠ [] then some (Text.trimLeft rest) else none
  | _ => none

/-- The texts before and behind the first standing of a word between blanks. -/
def aroundWord? (word : List Char) : List Char → Option (List Char × List Char)
  | [] => none
  | c :: cs =>
    match if Text.isBlank c then behindWord? word (Text.trimLeft cs) else none with
    | some behind => some ([], behind)
    | none => (aroundWord? word cs).map fun (before, behind) => (c :: before, behind)

/-- The texts around an inner keyword. The text before it starts at the first
character that is not blank and is not empty. Only where the keyword itself
stands there, behind at least `spare` blanks, is the text before it blank. -/
def atWord? (word : List Char) (spare : Nat) (cs : List Char) :
    Option (List Char × List Char) :=
  match Text.trimLeft cs with
  | [] => none
  | c :: rest =>
    match aroundWord? word rest with
    | some (before, behind) => some (c :: before, behind)
    | none =>
      if rest.length + 1 + spare ≤ cs.length then
        (behindWord? word (c :: rest)).map fun behind => ([], behind)
      else none

def conditional? (cs : List Char) : Option (List Char × List Char) :=
  if cs.head?.any Text.isBlank then
    (atWord? "THEN".toList 3 cs).map fun (condition, clause) =>
      (Text.trim condition, Text.trim clause)
  else none

structure LoopText where
  name : List Char
  start : List Char
  bound : List Char
  step : Option (List Char)
deriving DecidableEq, Repr

def loop? (cs : List Char) : Option LoopText := do
  let (name, right) ← (afterBlanks? cs).bind atEquals?
  let (start, behind) ← atWord? "TO".toList 2 right
  match behind with
  | [] => none
  | c :: rest =>
    match aroundWord? "STEP".toList rest with
    | some (before, step) =>
      return ⟨name, Text.trim start, Text.trim (c :: before), some (Text.trim step)⟩
    | none => return ⟨name, Text.trim start, Text.trim behind, none⟩

def next? (cs : List Char) : Option (List Char) := do
  let rest ← afterBlanks? cs
  let word := rest.takeWhile fun c => !Text.isBlank c
  if word ≠ [] ∧ Text.trimLeft (rest.dropWhile fun c => !Text.isBlank c) = [] then some word
  else none

def target? (cs : List Char) : Option LineNumber :=
  let digits := Text.trim cs
  if digits ≠ [] ∧ digits.all Text.isDigit then some (.ofDigits digits) else none

def isInputName (c : Char) : Bool := !Text.isBlank c && c != '"' && c != ';'

/-- The name behind INPUT, with nothing but blanks around it. -/
def inputName? (cs : List Char) : Option (List Char) :=
  let cs := Text.trimLeft cs
  let name := cs.takeWhile isInputName
  if name ≠ [] ∧ Text.trimLeft (cs.dropWhile isInputName) = [] then some name else none

/-- The prompt and the name behind INPUT. A prompt is a text literal with a
semicolon after it. -/
def input? (cs : List Char) : Option (List Char × List Char) :=
  match Text.trimLeft cs with
  | '"' :: rest =>
    match rest.dropWhile isInsideQuotes with
    | [] => none
    | _ :: behind =>
      match Text.trimLeft behind with
      | ';' :: behind => (inputName? behind).map (rest.takeWhile isInsideQuotes, ·)
      | _ => none
  | rest => (inputName? rest).map ([], ·)

theorem length_of_keyword? {code rest : List Char} {k : Keyword}
    (h : keyword? code = some (k, rest)) : rest.length ≤ code.length := by
  simp only [keyword?] at h
  split at h
  · cases h
  · obtain ⟨_, _, hrest⟩ := Option.map_eq_some_iff.mp h
    cases hrest
    exact (List.dropWhile_sublist Text.isLetter).length_le

private theorem length_of_takeWord? {word cs rest : List Char}
    (h : takeWord? word cs = some rest) : rest.length ≤ cs.length := by
  induction word generalizing cs with
  | nil =>
    cases h
    exact Nat.le_refl _
  | cons k ks ih =>
    cases cs with
    | nil => cases h
    | cons c cs =>
      rw [takeWord?] at h
      split at h
      · exact Nat.le_succ_of_le (ih h)
      · cases h

private theorem length_of_behindWord? {word cs rest : List Char}
    (h : behindWord? word cs = some rest) : rest.length < cs.length := by
  unfold behindWord? at h
  split at h
  · next c tail htake =>
    split at h
    · cases h
      have hword := length_of_takeWord? htake
      have htrim := Text.length_trimLeft_le tail
      simp only [List.length_cons] at hword
      omega
    · cases h
  · cases h

private theorem length_of_aroundWord? {word cs before behind : List Char}
    (h : aroundWord? word cs = some (before, behind)) : behind.length < cs.length := by
  induction cs generalizing before with
  | nil => cases h
  | cons c cs ih =>
    rw [aroundWord?] at h
    split at h
    · next rest hrest =>
      cases h
      split at hrest
      · have hlt := length_of_behindWord? hrest
        have htrim := Text.length_trimLeft_le cs
        simp only [List.length_cons]
        omega
      · cases hrest
    · obtain ⟨⟨b, a⟩, hr, heq⟩ := Option.map_eq_some_iff.mp h
      cases heq
      exact Nat.lt_succ_of_lt (ih hr)

private theorem length_of_atWord? {word cs before behind : List Char} {spare : Nat}
    (h : atWord? word spare cs = some (before, behind)) : behind.length < cs.length := by
  have htrim := Text.length_trimLeft_le cs
  unfold atWord? at h
  split at h
  · cases h
  · next c rest hcs =>
    rw [hcs] at htrim
    simp only [List.length_cons] at htrim
    split at h
    · next b a hr =>
      cases h
      have := length_of_aroundWord? hr
      omega
    · split at h
      · obtain ⟨a, hr, heq⟩ := Option.map_eq_some_iff.mp h
        cases heq
        have := length_of_behindWord? hr
        simp only [List.length_cons] at this
        omega
      · cases h

/-- The clause of IF is shorter than the text that it is taken from. -/
theorem length_of_conditional? {cs condition clause : List Char}
    (h : conditional? cs = some (condition, clause)) : clause.length < cs.length := by
  unfold conditional? at h
  split at h
  · obtain ⟨⟨b, a⟩, hr, heq⟩ := Option.map_eq_some_iff.mp h
    cases heq
    exact Nat.lt_of_le_of_lt (Text.length_trim_le _) (length_of_atWord? hr)
  · cases h

end LineBasic.Shape
