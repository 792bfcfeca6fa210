import LineBasic.Json.Basic
import LineBasic.Number.Numeral

/-!
Reading JSON text. A value is read from the front of a text, and where that
fails the failure keeps what is left of the text there, so that the place can
be told by line and column. Besides the numbers of the standard there are NaN
and the two infinities.
-/

namespace LineBasic.Json

inductive Reason where
  | byteOrderMark
  | extraData
  | expectedValue
  | expectedName
  | expectedColon
  | expectedComma
  | openString
  | controlCharacter
  | badEscape
  | badCodeUnit
deriving DecidableEq, Repr

def Reason.words : Reason → String
  | .byteOrderMark => "Unexpected UTF-8 BOM (decode using utf-8-sig)"
  | .extraData => "Extra data"
  | .expectedValue => "Expecting value"
  | .expectedName => "Expecting property name enclosed in double quotes"
  | .expectedColon => "Expecting ':' delimiter"
  | .expectedComma => "Expecting ',' delimiter"
  | .openString => "Unterminated string starting at"
  | .controlCharacter => "Invalid control character at"
  | .badEscape => "Invalid \\escape"
  | .badCodeUnit => "Invalid \\uXXXX escape"

structure Failure where
  reason : Reason
  rest : List Char
deriving DecidableEq, Repr

def failure {α : Type} (reason : Reason) (rest : List Char) : Except Failure α :=
  .error ⟨reason, rest⟩

def skipBlanks (cs : List Char) : List Char :=
  cs.dropWhile fun c => c == ' ' || c == '\t' || c == '\n' || c == '\r'

def behind? : List Char → List Char → Option (List Char)
  | [], cs => some cs
  | _ :: _, [] => none
  | k :: ks, c :: cs => if k = c then behind? ks cs else none

def hexDigit? (c : Char) : Option Nat :=
  let n := c.toNat
  if 48 ≤ n ∧ n ≤ 57 then some (n - 48)
  else if 97 ≤ n ∧ n ≤ 102 then some (n - 87)
  else if 65 ≤ n ∧ n ≤ 70 then some (n - 55)
  else none

/-- The code unit of four hexadecimal digits, which cannot end the text. -/
def codeUnit? : List Char → Option (Nat × List Char)
  | a :: b :: c :: d :: e :: rest => do
    let a ← hexDigit? a
    let b ← hexDigit? b
    let c ← hexDigit? c
    let d ← hexDigit? d
    return (((a * 16 + b) * 16 + c) * 16 + d, e :: rest)
  | _ => none

/-- The character of a code unit whose escape has been read, joined with the
escape of a low surrogate after it. -/
def joinSurrogates (unit : Nat) (rest : List Char) : Char × List Char :=
  if 0xD800 ≤ unit ∧ unit < 0xDC00 then
    match (behind? ['\\', 'u'] rest).bind codeUnit? with
    | some (low, rest') =>
      if 0xDC00 ≤ low ∧ low < 0xE000 then
        (Char.ofNat (0x10000 + (unit - 0xD800) * 0x400 + (low - 0xDC00)), rest')
      else (Char.ofNat 0xFFFD, rest)
    | none => (Char.ofNat 0xFFFD, rest)
  else if 0xDC00 ≤ unit ∧ unit < 0xE000 then (Char.ofNat 0xFFFD, rest)
  else (Char.ofNat unit, rest)

def escape? (c : Char) : Option Char :=
  match c with
  | '"' => some '"'
  | '\\' => some '\\'
  | '/' => some '/'
  | 'b' => some '\x08'
  | 'f' => some '\x0c'
  | 'n' => some '\n'
  | 'r' => some '\r'
  | 't' => some '\t'
  | _ => none

/-- Reads one character of a string from the text behind a backslash. -/
def readEscape (opening : List Char) : List Char → Except Failure (Char × List Char)
  | [] => failure .openString opening
  | 'u' :: rest =>
    match codeUnit? rest with
    | some (unit, rest) => .ok (joinSurrogates unit rest)
    | none => failure .badCodeUnit ('u' :: rest)
  | c :: rest =>
    match escape? c with
    | some c => .ok (c, rest)
    | none => failure .badEscape ('\\' :: c :: rest)

/-- Reads the rest of a string whose opening quote has been read. `opening` is
the text from that quote on, and the fuel is more than the length of the
text. -/
def readString (opening : List Char) : Nat → List Char → Except Failure (List Char × List Char)
  | 0, _ | _ + 1, [] => failure .openString opening
  | fuel + 1, c :: rest =>
    if c = '"' then .ok ([], rest)
    else if c = '\\' then do
      let (c, rest) ← readEscape opening rest
      let (cs, rest) ← readString opening fuel rest
      return (c :: cs, rest)
    else if c.toNat < 32 then failure .controlCharacter (c :: rest)
    else do
      let (cs, rest) ← readString opening fuel rest
      return (c :: cs, rest)

def readQuoted (rest : List Char) : Except Failure (String × List Char) := do
  let (cs, rest) ← readString ('"' :: rest) (rest.length + 1) rest
  return (String.ofList cs, rest)

def isNumberDigit (c : Char) : Bool := 48 ≤ c.toNat && c.toNat ≤ 57

/-- The text behind one or more digits; `none` if there are none. -/
def behindDigits? (cs : List Char) : Option (List Char) :=
  if cs.head?.any isNumberDigit then some (cs.dropWhile isNumberDigit) else none

/-- The text behind the whole part of a number, which has no leading zeros. -/
def behindWhole? : List Char → Option (List Char)
  | '0' :: rest => some rest
  | cs => behindDigits? cs

/-- The text behind a fraction, if one stands at the front. -/
def behindFraction (cs : List Char) : List Char :=
  ((behind? ['.'] cs).bind behindDigits?).getD cs

/-- The text behind an exponent, if one stands at the front. -/
def behindExponent (cs : List Char) : List Char :=
  match cs with
  | c :: rest =>
    if c = 'e' ∨ c = 'E' then
      let unsigned := ((behind? ['-'] rest).or (behind? ['+'] rest)).getD rest
      (behindDigits? unsigned).getD cs
    else cs
  | [] => []

/-- Whether the number that a text without sign spells is zero as a double. -/
def isZero (cs : List Char) : Bool :=
  match Numeral.ofText? cs with
  | some x => x.value == 0
  | none => false

/-- Reads a number at the front of a text. It is an integer if it has neither
fraction nor exponent. -/
def readNumber (cs : List Char) : Except Failure (Json × List Char) :=
  let unsigned := (behind? ['-'] cs).getD cs
  match behindWhole? unsigned with
  | none => failure .expectedValue cs
  | some tail =>
    let rest := behindExponent (behindFraction tail)
    .ok (.number (tail == rest) (isZero (unsigned.take (unsigned.length - rest.length))), rest)

/-- Reads a number or one of the words at the front of a text. -/
def readAtom (cs : List Char) : Except Failure (Json × List Char) :=
  let words : List (String × Json) :=
    [("null", .null), ("true", .bool true), ("false", .bool false),
      ("NaN", .number false false), ("Infinity", .number false false),
      ("-Infinity", .number false false)]
  match words.findSome? fun (word, value) =>
      (behind? word.toList cs).map fun rest => (value, rest) with
  | some found => .ok found
  | none => readNumber cs

mutual

/-- Reads a value at the front of a text. The fuel bounds the nesting. -/
def read : Nat → List Char → Except Failure (Json × List Char)
  | 0, cs => failure .expectedValue cs
  | fuel + 1, cs =>
    match skipBlanks cs with
    | '"' :: rest => do
      let (s, rest) ← readQuoted rest
      return (.string s, rest)
    | '[' :: rest =>
      match skipBlanks rest with
      | ']' :: rest => .ok (.array [], rest)
      | rest => do
        let (values, rest) ← readElements fuel rest
        return (.array values, rest)
    | '\x7b' :: rest =>
      match skipBlanks rest with
      | '\x7d' :: rest => .ok (.object [], rest)
      | rest => do
        let (fields, rest) ← readFields fuel rest
        return (.object fields, rest)
    | cs => readAtom cs

/-- Reads the elements of an array up to its closing bracket. -/
def readElements : Nat → List Char → Except Failure (List Json × List Char)
  | 0, cs => failure .expectedValue cs
  | fuel + 1, cs => do
    let (value, rest) ← read fuel cs
    match skipBlanks rest with
    | ']' :: rest => return ([value], rest)
    | ',' :: rest => do
      let (values, rest) ← readElements fuel rest
      return (value :: values, rest)
    | rest => failure .expectedComma rest

def readFields : Nat → List Char → Except Failure (List (String × Json) × List Char)
  | 0, cs => failure .expectedName cs
  | fuel + 1, cs =>
    match skipBlanks cs with
    | '"' :: rest => do
      let (name, rest) ← readQuoted rest
      match skipBlanks rest with
      | ':' :: rest => do
        let (value, rest) ← read fuel rest
        match skipBlanks rest with
        | '\x7d' :: rest => return ([(name, value)], rest)
        | ',' :: rest => do
          let (fields, rest) ← readFields fuel rest
          return ((name, value) :: fields, rest)
        | rest => failure .expectedComma rest
      | rest => failure .expectedColon rest
    | rest => failure .expectedName rest

end

def readWhole (cs : List Char) : Except Failure Json :=
  if cs.head? = some '\uFEFF' then .error ⟨.byteOrderMark, cs⟩
  else do
    let (value, rest) ← read (2 * cs.length + 2) cs
    match skipBlanks rest with
    | [] => return value
    | rest => .error ⟨.extraData, rest⟩

structure SyntaxError where
  reason : Reason
  -- the characters before the place
  position : Nat
  line : Nat
  column : Nat
deriving DecidableEq, Repr

def SyntaxError.message (e : SyntaxError) : String :=
  e.reason.words ++ ": line " ++ toString e.line ++ " column " ++ toString e.column
    ++ " (char " ++ toString e.position ++ ")"

def Failure.locate (cs : List Char) (f : Failure) : SyntaxError :=
  let before := cs.take (cs.length - f.rest.length)
  { reason := f.reason
    position := before.length
    line := before.count '\n' + 1
    column := (before.reverse.takeWhile (· != '\n')).length + 1 }

def ofText (cs : List Char) : Except SyntaxError Json := (readWhole cs).mapError (·.locate cs)

end LineBasic.Json
