import LineBasic.Fault
import LineBasic.LineNumber
import LineBasic.Text.Blank
import LineBasic.Text.Lines

/-!
Programs: statements in strictly ascending order of positive line numbers,
and how a program is loaded from lines of text.

A line is a number, blanks and a statement. Blank lines and lines that hold
only a number are skipped, and their numbers are not read. The first line of any
other form makes loading fault, unless it breaks off before at a number that the
host does not read; if there is neither, repeated line numbers make it fault.
-/

namespace LineBasic

structure Statement where
  number : Nat
  code : String
  number_pos : 0 < number
deriving DecidableEq, Repr

def Statement.display (s : Statement) : String := toString s.number ++ " " ++ s.code

structure Program where
  statements : List Statement
  ascending : statements.Pairwise fun s t => s.number < t.number
deriving DecidableEq, Repr

namespace Program

def empty : Program := ⟨[], .nil⟩

instance : Inhabited Program := ⟨empty⟩

def size (p : Program) : Nat := p.statements.length

def statementAt? (p : Program) (index : Nat) : Option Statement := p.statements[index]?

def lineNumbers (p : Program) : List Nat := p.statements.map Statement.number

/-- The index between `low` and `high` at which a number belongs in an ascending
list: the first one from which on nothing is less. The part that it belongs in is
halved until nothing is left of it. -/
def bisect (numbers : List Nat) (number low high : Nat) : Nat :=
  if low < high then
    let middle := (low + high) / 2
    if numbers[middle]?.any (· < number) then bisect numbers number (middle + 1) high
    else bisect numbers number low middle
  else low
termination_by high - low

def indexOf? (p : Program) (number : Nat) : Option Nat :=
  let index := bisect p.lineNumbers number 0 p.size
  if p.lineNumbers[index]? = some number then some index else none

inductive Line where
  | skipped
  | statement (s : Statement)
  | oversized (digits : Nat)
deriving DecidableEq, Repr

namespace Line

def ofTrimmed? (cs : List Char) : Option Line :=
  let digits := cs.takeWhile Text.isDigit
  match cs.dropWhile Text.isDigit with
  | [] => some .skipped
  | c :: rest =>
    if digits ≠ [] ∧ Text.isBlank c then
      match LineNumber.ofDigits digits with
      | .line n =>
        if h : 0 < n then some (.statement ⟨n, Text.trimString (String.ofList rest), h⟩) else none
      | .oversized n => some (.oversized n)
    else none

def ofText (s : String) : Except Fault Line :=
  match ofTrimmed? (Text.trim s.toList) with
  | some line => .ok line
  | none => .error (.invalidLine (Text.trimString s))

end Line

/-- The statements of lines of text, in the order of the lines. -/
def readLines : List String → Except Abort (List Statement)
  | [] => .ok []
  | s :: rest =>
    match Line.ofText s with
    | .ok .skipped => readLines rest
    | .ok (.statement statement) => (readLines rest).map (statement :: ·)
    | .ok (.oversized digits) => .error (.oversized digits)
    | .error f => .error (.fault f)

/-- Puts a statement in front of the first one with a greater line number, or
with the same one. -/
def insert (s : Statement) : List Statement → List Statement
  | [] => [s]
  | t :: ts => if s.number ≤ t.number then s :: t :: ts else t :: insert s ts

def sort (ss : List Statement) : List Statement := ss.foldr insert []

/-- The numbers that stand at least twice in an ascending list, each once. -/
def repeated : List Nat → List Nat
  | a :: b :: rest =>
    if a = b then
      let others := repeated (b :: rest)
      if others.head? = some a then others else a :: others
    else repeated (b :: rest)
  | _ => []

theorem mem_insert {s x : Statement} {ts : List Statement} :
    x ∈ insert s ts ↔ x = s ∨ x ∈ ts := by
  induction ts with
  | nil => simp [insert]
  | cons t ts ih =>
    rw [insert]
    split
    · simp
    · simp only [List.mem_cons, ih]
      exact or_left_comm

/-- Inserting keeps the order. -/
theorem pairwise_insert {s : Statement} {ts : List Statement}
    (h : ts.Pairwise fun a b => a.number ≤ b.number) :
    (insert s ts).Pairwise fun a b => a.number ≤ b.number := by
  induction ts with
  | nil => simp [insert]
  | cons t ts ih =>
    rw [List.pairwise_cons] at h
    rw [insert]
    split
    · next hst =>
      refine List.pairwise_cons.mpr ⟨fun x hx => ?_, List.pairwise_cons.mpr h⟩
      rcases List.mem_cons.mp hx with rfl | hx
      · exact hst
      · exact Nat.le_trans hst (h.1 x hx)
    · next hst =>
      refine List.pairwise_cons.mpr ⟨fun x hx => ?_, ih h.2⟩
      rcases mem_insert.mp hx with rfl | hx
      · omega
      · exact h.1 x hx

/-- The sorted statements are in order. -/
theorem pairwise_sort (ss : List Statement) :
    (sort ss).Pairwise fun a b => a.number ≤ b.number := by
  induction ss with
  | nil => exact .nil
  | cons s ss ih => exact pairwise_insert ih

/-- An ascending list without repeated numbers is strictly ascending. -/
theorem pairwise_lt_of_repeated_eq_nil {ns : List Nat} (h : ns.Pairwise (· ≤ ·))
    (hr : repeated ns = []) : ns.Pairwise (· < ·) := by
  induction ns with
  | nil => exact .nil
  | cons a ns ih =>
    cases ns with
    | nil => simp
    | cons b ns =>
      rw [repeated] at hr
      rw [List.pairwise_cons] at h
      split at hr
      · dsimp only at hr
        split at hr
        · next hhead => simp [hr] at hhead
        · cases hr
      · next hne =>
        have hab : a < b := by
          have := h.1 b List.mem_cons_self
          omega
        have htail := ih h.2 hr
        refine List.pairwise_cons.mpr ⟨fun x hx => ?_, htail⟩
        rcases List.mem_cons.mp hx with rfl | hx
        · exact hab
        · exact Nat.lt_trans hab ((List.pairwise_cons.mp htail).1 x hx)

/-- The program of statements in any order; a fault if a line number is
repeated. -/
def ofStatements (ss : List Statement) : Except Fault Program :=
  let sorted := sort ss
  if h : repeated (sorted.map Statement.number) = [] then
    .ok ⟨sorted, List.pairwise_map.mp
      (pairwise_lt_of_repeated_eq_nil (List.pairwise_map.mpr (pairwise_sort ss)) h)⟩
  else .error (.duplicateLines (repeated (sorted.map Statement.number)))

def load (lines : List String) : Except Abort Program :=
  match readLines lines with
  | .ok ss => (ofStatements ss).mapError .fault
  | .error e => .error e

def loadText (source : String) : Except Abort Program := load (Text.stringLines source)

end Program

end LineBasic
