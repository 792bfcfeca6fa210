import LineBasic.Proofs.Effects
import Mathlib.Logic.Function.Iterate

/-!
Which random numbers an expression draws. `Expr.Draws` has one rule for each way in which a tree
comes to its value or fails, with the numbers drawn on that way in their order: those of the left
operand, and then those of the right one unless it is skipped; those of an argument, and then that
of the function.

From every generator a tree goes exactly one of these ways. On none are there more numbers than
RND stands in the tree, and without logical operators there are that many on every way to a value.
-/

namespace LineBasic

namespace Generator

def skip (n : Nat) (g : Generator) : Generator := (fun g => g.draw.2)^[n] g

theorem skip_add (n k : Nat) (g : Generator) : g.skip (n + k) = (g.skip n).skip k := by
  rw [Nat.add_comm]
  exact Function.iterate_add_apply _ k n g

def numbers (g : Generator) : Nat → List Float
  | 0 => []
  | n + 1 => g.draw.1 :: g.draw.2.numbers n

theorem length_numbers (g : Generator) (n : Nat) : (g.numbers n).length = n := by
  induction n generalizing g with
  | zero => rfl
  | succ n ih => rw [numbers, List.length_cons, ih]

/-- What is drawn next comes behind what was drawn. -/
theorem numbers_add (g : Generator) (n k : Nat) :
    g.numbers (n + k) = g.numbers n ++ (g.skip n).numbers k := by
  induction n generalizing g with
  | zero =>
    rw [Nat.zero_add]
    rfl
  | succ n ih =>
    rw [Nat.succ_add, numbers, numbers, ih, List.cons_append]
    rfl

end Generator

inductive Builtin.Draws : Builtin → List Value → List Float → Except Fault Value → Prop
  | random {values : List Value} (h : values.length ≤ 1) (x : Float) :
      Draws .rnd values [x] (.ok (.number x))
  | crowded {values : List Value} (h : 1 < values.length) :
      Draws .rnd values [] (.error (.wrongArity .rnd))
  | floor (x : Float) : Draws .int [.number x] [] (.ok (.number (Binary64.floor x)))
  | notNumber (s : String) : Draws .int [.text s] [] (.error (.nonNumericArgument .int))
  | notSingle {values : List Value} (h : values.length ≠ 1) :
      Draws .int values [] (.error (.wrongArity .int))

/-- How many numbers an intrinsic function draws, unless it fails. -/
def Builtin.randoms : Builtin → Nat
  | .rnd => 1
  | .int => 0

/-- The value of a logical operator if its left operand decides it. -/
def BinaryOp.decided? : BinaryOp → Value → Option Value
  | .and, a => if a.isTrue then none else some (.ofBool false)
  | .or, a => if a.isTrue then some (.ofBool true) else none
  | _, _ => none

namespace Expr

inductive Draws (env : Environment) : Expr → List Float → Except Failure Value → Prop
  | number (x : Numeral) : Draws env (.number x) [] (.ok (.number x.value))
  | text (s : String) : Draws env (.text s) [] (.ok (.text s))
  | random {name : String} (hname : name = "RND") (x : Float) :
      Draws env (.variable name) [x] (.ok (.number x))
  | variable {name : String} (hname : name ≠ "RND") :
      Draws env (.variable name) [] ((env.get name).mapError .fault)
  | invokeUnknown {name : String} (hf : Builtin.ofName? name = none) :
      Draws env (.invoke name) [] (.error (.fault (.unknownFunction name)))
  | invoke {name : String} {f : Builtin} (hf : Builtin.ofName? name = some f) {xs : List Float}
      {r : Except Fault Value} (hcall : f.Draws [] xs r) :
      Draws env (.invoke name) xs (r.mapError .fault)
  | applyUnknown {name : String} (hf : Builtin.ofName? name = none) (argument : Expr) :
      Draws env (.apply name argument) [] (.error (.fault (.unknownFunction name)))
  | argumentFails {name : String} {f : Builtin} (hf : Builtin.ofName? name = some f)
      {argument : Expr} {xs : List Float} {failure : Failure}
      (h : Draws env argument xs (.error failure)) :
      Draws env (.apply name argument) xs (.error failure)
  | apply {name : String} {f : Builtin} (hf : Builtin.ofName? name = some f) {argument : Expr}
      {xs ys : List Float} {v : Value} {r : Except Fault Value}
      (h : Draws env argument xs (.ok v)) (hcall : f.Draws [v] ys r) :
      Draws env (.apply name argument) (xs ++ ys) (r.mapError .fault)
  | unary (op : UnaryOp) {operand : Expr} {xs : List Float} {r : Except Failure Value}
      (h : Draws env operand xs r) : Draws env (.unary op operand) xs (r.bind op.apply)
  | leftFails (op : BinaryOp) {left : Expr} (right : Expr) {xs : List Float} {failure : Failure}
      (h : Draws env left xs (.error failure)) :
      Draws env (.binary op left right) xs (.error failure)
  | skipped {op : BinaryOp} {left : Expr} (right : Expr) {xs : List Float} {a v : Value}
      (h : Draws env left xs (.ok a)) (hdecided : op.decided? a = some v) :
      Draws env (.binary op left right) xs (.ok v)
  | both {op : BinaryOp} {left right : Expr} {xs ys : List Float} {a : Value}
      {r : Except Failure Value} (h : Draws env left xs (.ok a)) (hopen : op.decided? a = none)
      (hright : Draws env right ys r) :
      Draws env (.binary op left right) (xs ++ ys) (r.bind (op.apply a))

def randoms : Expr → Nat
  | .number _ | .text _ => 0
  | .variable name => if name = "RND" then 1 else 0
  | .invoke name => (Builtin.ofName? name).elim 0 Builtin.randoms
  | .apply name argument => argument.randoms + (Builtin.ofName? name).elim 0 Builtin.randoms
  | .unary _ operand => operand.randoms
  | .binary _ left right => left.randoms + right.randoms

def operators : Expr → List BinaryOp
  | .number _ | .text _ | .variable _ | .invoke _ => []
  | .apply _ e | .unary _ e => e.operators
  | .binary op left right => op :: (left.operators ++ right.operators)

end Expr

section Ways

variable {env : Environment} {e : Expr} {xs ys us vs : List Float}

theorem Builtin.Draws.unique {f : Builtin} {values : List Value} {r r' : Except Fault Value}
    (h : f.Draws values xs r) (h' : f.Draws values ys r') (hsame : xs ++ us = ys ++ vs) :
    xs = ys ∧ r = r' := by
  cases h with
  | random hle x =>
    cases h' with
    | random _ y =>
      obtain rfl := (List.cons.inj hsame).1
      exact ⟨rfl, rfl⟩
    | crowded hlt => exact absurd hlt (Nat.not_lt.mpr hle)
  | crowded hlt =>
    cases h' with
    | random hle => exact absurd hlt (Nat.not_lt.mpr hle)
    | crowded => exact ⟨rfl, rfl⟩
  | floor | notNumber =>
    cases h' with
    | notSingle hne => exact absurd rfl hne
    | _ => exact ⟨rfl, rfl⟩
  | notSingle hne =>
    cases h' with
    | floor | notNumber => exact absurd rfl hne
    | notSingle => exact ⟨rfl, rfl⟩

/-- Along the same numbers a tree goes only one way. -/
theorem Expr.Draws.unique {r r' : Except Failure Value} (h : e.Draws env xs r)
    (h' : e.Draws env ys r') (hsame : xs ++ us = ys ++ vs) : xs = ys ∧ r = r' := by
  induction h generalizing ys us vs r' with
  | number | text =>
    cases h'
    exact ⟨rfl, rfl⟩
  | random hname x =>
    cases h' with
    | random _ y =>
      obtain rfl := (List.cons.inj hsame).1
      exact ⟨rfl, rfl⟩
    | «variable» hne => exact absurd hname hne
  | «variable» hne =>
    cases h' with
    | random hname => exact absurd hname hne
    | «variable» => exact ⟨rfl, rfl⟩
  | invokeUnknown hf =>
    cases h' with
    | invokeUnknown => exact ⟨rfl, rfl⟩
    | invoke hf' => exact absurd (hf.symm.trans hf') nofun
  | invoke hf hcall =>
    cases h' with
    | invokeUnknown hf' => exact absurd (hf'.symm.trans hf) nofun
    | invoke hf' hcall' =>
      obtain rfl := Option.some.inj (hf.symm.trans hf')
      obtain ⟨rfl, rfl⟩ := hcall.unique hcall' hsame
      exact ⟨rfl, rfl⟩
  -- Every way through an operation starts with a way through its first operand, so two of them
  -- agree on the numbers and the result of that one before they part.
  | applyUnknown hf =>
    cases h' with
    | applyUnknown => exact ⟨rfl, rfl⟩
    | argumentFails hf' | apply hf' => exact absurd (hf.symm.trans hf') nofun
  | argumentFails hf h ih =>
    cases h' with
    | applyUnknown hf' => exact absurd (hf'.symm.trans hf) nofun
    | argumentFails _ h' => exact ih h' hsame
    | apply _ h' =>
      rw [List.append_assoc] at hsame
      cases (ih h' hsame).2
  | apply hf h hcall ih =>
    rw [List.append_assoc] at hsame
    cases h' with
    | applyUnknown hf' => exact absurd (hf'.symm.trans hf) nofun
    | argumentFails _ h' => cases (ih h' hsame).2
    | apply hf' h' hcall' =>
      rw [List.append_assoc] at hsame
      obtain ⟨rfl, hv⟩ := ih h' hsame
      cases hv
      obtain rfl := Option.some.inj (hf.symm.trans hf')
      obtain ⟨rfl, rfl⟩ := hcall.unique hcall' (List.append_cancel_left hsame)
      exact ⟨rfl, rfl⟩
  | unary op h ih =>
    cases h' with
    | unary _ h' =>
      obtain ⟨rfl, rfl⟩ := ih h' hsame
      exact ⟨rfl, rfl⟩
  | leftFails op right h ih =>
    cases h' with
    | leftFails _ _ h' => exact ih h' hsame
    | skipped _ h' => cases (ih h' hsame).2
    | both h' =>
      rw [List.append_assoc] at hsame
      cases (ih h' hsame).2
  | skipped right h hdecided ih =>
    cases h' with
    | leftFails _ _ h' => cases (ih h' hsame).2
    | skipped _ h' hdecided' =>
      obtain ⟨rfl, hv⟩ := ih h' hsame
      cases hv
      obtain rfl := Option.some.inj (hdecided.symm.trans hdecided')
      exact ⟨rfl, rfl⟩
    | both h' hopen =>
      rw [List.append_assoc] at hsame
      cases (ih h' hsame).2
      exact absurd (hopen.symm.trans hdecided) nofun
  | both h hopen hright ih ihright =>
    rw [List.append_assoc] at hsame
    cases h' with
    | leftFails _ _ h' => cases (ih h' hsame).2
    | skipped _ h' hdecided =>
      cases (ih h' hsame).2
      exact absurd (hopen.symm.trans hdecided) nofun
    | both h' _ hright' =>
      rw [List.append_assoc] at hsame
      obtain ⟨rfl, hv⟩ := ih h' hsame
      cases hv
      obtain ⟨rfl, rfl⟩ := ihright hright' (List.append_cancel_left hsame)
      exact ⟨rfl, rfl⟩

theorem Builtin.Draws.length_le {f : Builtin} {values : List Value} {r : Except Fault Value}
    (h : f.Draws values xs r) : xs.length ≤ f.randoms := by
  cases h with
  | random => exact Nat.le_refl _
  | _ => exact Nat.zero_le _

theorem Builtin.Draws.length_eq {f : Builtin} {values : List Value} {v : Value}
    (h : f.Draws values xs (.ok v)) : xs.length = f.randoms := by
  cases h with
  | random | floor => rfl

/-- No way draws more numbers than RND stands in the tree. -/
theorem Expr.Draws.length_le {r : Except Failure Value} (h : e.Draws env xs r) :
    xs.length ≤ e.randoms := by
  induction h with
  | number | text | «variable» | invokeUnknown | applyUnknown => exact Nat.zero_le _
  | random hname => simp [randoms, hname]
  | invoke hf hcall => simpa [randoms, hf] using hcall.length_le
  | argumentFails _ _ ih => exact Nat.le_trans ih (Nat.le_add_right _ _)
  | apply hf _ hcall ih =>
    rw [List.length_append, randoms, hf]
    exact Nat.add_le_add ih hcall.length_le
  | unary _ _ ih => exact ih
  | leftFails _ _ _ ih | skipped _ _ _ ih => exact Nat.le_trans ih (Nat.le_add_right _ _)
  | both _ _ _ ih ihright =>
    rw [List.length_append]
    exact Nat.add_le_add ih ihright

/-- Without logical operators a way to a value draws as many numbers as RND stands in the tree. -/
theorem Expr.Draws.length_eq {r : Except Failure Value} (h : e.Draws env xs r)
    (hops : ∀ op ∈ e.operators, op ≠ .and ∧ op ≠ .or) {v : Value} (hr : r = .ok v) :
    xs.length = e.randoms := by
  induction h generalizing v with
  | number | text => rfl
  | random hname | «variable» hname => simp [randoms, hname]
  | invokeUnknown | applyUnknown | argumentFails | leftFails => cases hr
  | @invoke _ _ hf _ r hcall =>
    cases r with
    | error => cases hr
    | ok => simpa [randoms, hf] using hcall.length_eq
  | @apply _ _ hf _ _ _ _ r _ hcall ih =>
    cases r with
    | error => cases hr
    | ok =>
      rw [List.length_append, ih hops rfl, hcall.length_eq, randoms, hf]
      rfl
  | @unary op _ _ r _ ih =>
    cases r with
    | error => cases hr
    | ok => exact ih hops rfl
  | @skipped op _ _ _ _ _ _ hdecided =>
    obtain ⟨hand, hor⟩ := hops op List.mem_cons_self
    cases op <;> contradiction
  | @both op left right xs ys _ r _ _ _ ih ihright =>
    rw [operators, List.forall_mem_cons, List.forall_mem_append] at hops
    cases r with
    | error => cases hr
    | ok => rw [List.length_append, ih hops.2.1 rfl, ihright hops.2.2 rfl, randoms]

end Ways

section Runs

variable {ε ε' α β : Type} {P : List Float → Except ε α → Prop}

/-- Whether a computation draws so many of the next numbers of a generator, and they and its result
are as a relation has it. -/
def DrawsNext (P : List Float → Except ε α → Prop) (x : Eval ε α) (g : Generator) (n : Nat) :
    Prop :=
  P (g.numbers n) (x.run.run g).1 ∧ (x.run.run g).2 = g.skip n

/-- Whether a computation draws from every generator as a relation has it. -/
def DrawsBy (P : List Float → Except ε α → Prop) (x : Eval ε α) : Prop :=
  ∀ g, ∃ n, DrawsNext P x g n

theorem drawsBy_mk_pure {r : Except ε α} (h : P [] r) : DrawsBy P (ExceptT.mk (pure r)) :=
  fun _ => ⟨0, h, rfl⟩

theorem drawsBy_draw {P : List Float → Except ε Value → Prop}
    (h : ∀ x, P [x] (.ok (.number x))) : DrawsBy P Eval.draw :=
  fun g => ⟨1, h g.draw.1, rfl⟩

/-- What is computed second draws behind what was computed first. -/
theorem DrawsBy.bind {Q : List Float → Except ε β → Prop} {x : Eval ε α} {f : α → Eval ε β}
    (hx : DrawsBy P x)
    (herror : ∀ xs e, P xs (.error e) → Q xs (.error e))
    (hok : ∀ xs a, P xs (.ok a) → DrawsBy (fun ys r => Q (xs ++ ys) r) (f a)) :
    DrawsBy Q (x >>= f) := by
  intro g
  obtain ⟨n, hdraws⟩ := hx g
  unfold DrawsNext at hdraws ⊢
  rw [run_run_bind]
  cases hrun : x.run.run g with
  | mk r g' =>
    rw [hrun] at hdraws
    obtain ⟨hP, rfl⟩ := hdraws
    cases r with
    | error e => exact ⟨n, herror _ e hP, rfl⟩
    | ok a =>
      obtain ⟨k, hQ, hg⟩ := hok _ a hP (g.skip n)
      refine ⟨n + k, ?_, ?_⟩
      · rw [Generator.numbers_add]
        exact hQ
      · rw [Generator.skip_add]
        exact hg

theorem DrawsBy.adapt {Q : List Float → Except ε' α → Prop} {f : ε → ε'} {x : Eval ε α}
    (hx : DrawsBy P x) (h : ∀ xs r, P xs r → Q xs (r.mapError f)) : DrawsBy Q (x.adapt f) := by
  intro g
  obtain ⟨n, hP, hg⟩ := hx g
  exact ⟨n, h _ _ hP, hg⟩

end Runs

section Trees

theorem Builtin.drawsBy_call (f : Builtin) (values : List Value) :
    DrawsBy (f.Draws values) (f.call values) := by
  have hcrowded (v w : Value) (values : List Value) : 1 < (v :: w :: values).length := by simp
  cases f with
  | rnd =>
    rcases values with _ | ⟨v, _ | ⟨w, values⟩⟩
    · exact drawsBy_draw (.random (Nat.zero_le _))
    · exact drawsBy_draw (.random (Nat.le_refl _))
    · exact drawsBy_mk_pure (.crowded (hcrowded v w values))
  | int =>
    rcases values with _ | ⟨v, _ | ⟨w, values⟩⟩
    · exact drawsBy_mk_pure (.notSingle Nat.zero_ne_one)
    · cases v with
      | number x => exact drawsBy_mk_pure (.floor x)
      | text s => exact drawsBy_mk_pure (.notNumber s)
    · have hmany : (v :: w :: values).length ≠ 1 := Nat.ne_of_gt (hcrowded v w values)
      cases v with
      | number | text => exact drawsBy_mk_pure (.notSingle hmany)

theorem Expr.builtin_eq (name : String) : builtin name =
    (Builtin.ofName? name).elim (throw (.fault (.unknownFunction name))) pure := by
  rw [builtin]
  cases Builtin.ofName? name <;> rfl

/-- A logical operator skips its right operand if the left one decides, and every other operator
is applied to both. -/
theorem Expr.eval_binary (env : Environment) (op : BinaryOp) (left right : Expr) :
    (Expr.binary op left right).eval env = left.eval env >>= fun a =>
      match op.decided? a with
      | some v => pure v
      | none => right.eval env >>= fun b => Eval.ofExcept (op.apply a b) := by
  cases op with
  | and | or =>
    rw [eval]
    refine bind_congr fun a => ?_
    cases ha : a.isTrue with
    | true | false =>
      simp only [BinaryOp.decided?, BinaryOp.apply, ha]
      rfl
  | _ => rfl

/-- Evaluating a tree draws numbers on one of its ways. -/
theorem Expr.drawsBy_eval (env : Environment) (e : Expr) : DrawsBy (e.Draws env) (e.eval env) := by
  induction e with
  | number x => exact drawsBy_mk_pure (.number x)
  | text s => exact drawsBy_mk_pure (.text s)
  | «variable» name =>
    unfold eval
    split
    · next hname => exact drawsBy_draw (.random hname)
    · next hname =>
      have hvariable : DrawsBy (fun xs r => xs = [] ∧ r = env.get name)
          (Eval.ofExcept (env.get name)) := drawsBy_mk_pure ⟨rfl, rfl⟩
      refine hvariable.adapt ?_
      rintro _ _ ⟨rfl, rfl⟩
      exact .variable hname
  | invoke name =>
    rw [eval, builtin_eq]
    cases hf : Builtin.ofName? name with
    | none => exact drawsBy_mk_pure (.invokeUnknown hf)
    | some f => exact (f.drawsBy_call []).adapt fun xs r hcall => .invoke hf hcall
  | apply name argument ih =>
    rw [eval, builtin_eq]
    cases hf : Builtin.ofName? name with
    | none => exact drawsBy_mk_pure (.applyUnknown hf argument)
    | some f =>
      refine ih.bind (fun xs failure h => .argumentFails hf h) fun xs v h => ?_
      exact (f.drawsBy_call [v]).adapt fun ys r hcall => .apply hf h hcall
  | unary op operand ih =>
    refine ih.bind (fun xs failure h => .unary op h) fun xs v h => drawsBy_mk_pure ?_
    rw [List.append_nil]
    exact .unary op h
  | binary op left right ihleft ihright =>
    rw [eval_binary]
    refine ihleft.bind (fun xs failure h => .leftFails op right h) fun xs a h => ?_
    cases hdecided : op.decided? a with
    | some v =>
      refine drawsBy_mk_pure ?_
      rw [List.append_nil]
      exact .skipped right h hdecided
    | none =>
      refine ihright.bind (fun ys failure hright => .both h hdecided hright) fun ys b hright => ?_
      refine drawsBy_mk_pure ?_
      rw [List.append_nil]
      exact .both h hdecided hright

end Trees

end LineBasic
