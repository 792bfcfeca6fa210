import Mathlib.Data.List.Induction
import LineBasic.Proofs.Invariant
import LineBasic.Proofs.UpperCase

/-!
The variables after a history of bindings. Some of the bindings fail, and those leave every
variable as it is. The others make the variables a map from names in upper case: a name is
read as the last value that was bound under a name with the same upper case, and each upper
case stands at most once among the bindings.
-/

namespace LineBasic

open Text

/-- Whether a text is the name of a variable: an ASCII letter, and then letters and numbers
of any script, and underscores. -/
def IsVariableName (name : String) : Prop :=
  ∃ c rest, name.toList = c :: rest ∧ ('A' ≤ c ∧ c ≤ 'Z' ∨ 'a' ≤ c ∧ c ≤ 'z') ∧
    ∀ d ∈ rest, isWord d = true

theorem isLetter_iff {c : Char} :
    isLetter c = true ↔ 'A' ≤ c ∧ c ≤ 'Z' ∨ 'a' ≤ c ∧ c ≤ 'z' := by
  simp only [isLetter, Bool.or_eq_true, Bool.and_eq_true, decide_eq_true_eq, Char.le_def,
    UInt32.le_iff_toNat_le]
  rfl

theorem isName_iff {name : String} : isName name.toList = true ↔ IsVariableName name := by
  unfold IsVariableName
  cases name.toList with
  | nil => simp [isName]
  | cons c rest =>
    rw [isName, Bool.and_eq_true, isLetter_iff, List.all_eq_true]
    constructor
    · rintro ⟨hc, hrest⟩
      exact ⟨c, rest, rfl, hc, hrest⟩
    · rintro ⟨_, _, heq, hc, hrest⟩
      cases heq
      exact ⟨hc, hrest⟩

instance : DecidablePred IsVariableName := fun _ => decidable_of_iff _ isName_iff

namespace Environment

abbrev Binding := String × Value

def Binding.Reaches (name : String) (b : Binding) : Prop :=
  IsVariableName b.1 ∧ upperString b.1 = upperString name

instance (name : String) : DecidablePred (Binding.Reaches name) :=
  fun _ => inferInstanceAs (Decidable (_ ∧ _))

/-- The value of the last binding of a history that succeeds and is found under a name. -/
def lastBound? (history : List Binding) (name : String) : Option Value :=
  ((history.filter fun b => decide (b.Reaches name)).getLast?).map Prod.snd

/-- The variables after a binding has been tried. One that fails changes nothing. -/
def attempt (env : Environment) (b : Binding) : Environment :=
  match env.set b.1 b.2 with
  | .ok next => next
  | .error _ => env

/-- The variables after a history of bindings has been tried. -/
def afterBindings (history : List Binding) : Environment := history.foldl attempt empty

/-- Whether every variable is bound under a name in upper case. -/
def InUpperCase (env : Environment) : Prop := ∀ b ∈ env.toList, upperString b.1 = b.1

section Step

variable {env : Environment} {b : Binding} {name : String} {v : Value}

theorem set_isOk_iff (env : Environment) (name : String) (v : Value) :
    (env.set name v).isOk = true ↔ IsVariableName name := by
  rw [← isName_iff]
  unfold set normalName
  cases isName name.toList <;> simp [Except.isOk, Except.toBool]

/-- What is read after one more binding: its value where it is found, and else what was read
before. -/
theorem get?_attempt (env : Environment) (b : Binding) (name : String) :
    (env.attempt b).get? name = if b.Reaches name then some b.2 else env.get? name := by
  unfold attempt
  cases hset : env.set b.1 b.2 with
  | ok next =>
    have hname : IsVariableName b.1 := (set_isOk_iff env b.1 b.2).mp (by rw [hset]; rfl)
    simp only [get?_set hset, Binding.Reaches, hname, true_and]
  | error f =>
    have hname : ¬ IsVariableName b.1 := by
      rw [← isName_iff, (set_eq_error_iff.mp hset).1]
      exact Bool.false_ne_true
    simp only [Binding.Reaches, hname, false_and, if_false]

/-- A name is bound under its upper case, which is in upper case. -/
theorem InUpperCase.attempt (h : env.InUpperCase) (b : Binding) : (env.attempt b).InUpperCase := by
  unfold Environment.attempt
  cases hset : env.set b.1 b.2 with
  | error f => exact h
  | ok next =>
    unfold set normalName at hset
    split at hset
    · next key hkey =>
      split at hkey
      · cases hkey
        cases hset
        rintro ⟨name, v⟩ hmem
        have hbound := Std.ExtTreeMap.mem_toList_iff_getElem?_eq_some.mp hmem
        rw [Std.ExtTreeMap.getElem?_insert] at hbound
        split at hbound
        · next heq =>
          obtain rfl := Std.LawfulEqCmp.eq_of_compare heq
          exact upperString_upperString b.1
        · exact h (name, v) (Std.ExtTreeMap.mem_toList_iff_getElem?_eq_some.mpr hbound)
      · cases hkey
    · cases hset

/-- Where names are in upper case, the bindings are what is read under such names. -/
theorem InUpperCase.mem_toList_iff (h : env.InUpperCase) :
    (name, v) ∈ env.toList ↔ upperString name = name ∧ env.get? name = some v := by
  have hmem : (name, v) ∈ env.toList ↔ env.bindings[name]? = some v :=
    Std.ExtTreeMap.mem_toList_iff_getElem?_eq_some
  constructor
  · intro hb
    have hupper : upperString name = name := h (name, v) hb
    exact ⟨hupper, by rw [get?, hupper]; exact hmem.mp hb⟩
  · rintro ⟨hupper, hget⟩
    rw [get?, hupper] at hget
    exact hmem.mpr hget

/-- Where names are in upper case, no two of them have the same upper case. -/
theorem InUpperCase.pairwise_toList (h : env.InUpperCase) :
    env.toList.Pairwise fun a b => upperString a.1 ≠ upperString b.1 := by
  refine (Std.ExtTreeMap.distinct_keys_toList (t := env.bindings)).imp_of_mem ?_
  intro a b ha hb hdistinct heq
  rw [h a ha, h b hb] at heq
  exact hdistinct (by rw [heq]; exact Std.ReflCmp.compare_self)

end Step

section History

variable {history : List Binding}

theorem afterBindings_concat (history : List Binding) (b : Binding) :
    afterBindings (history ++ [b]) = (afterBindings history).attempt b := by
  rw [afterBindings, List.foldl_append]
  rfl

theorem lastBound?_concat (history : List Binding) (b : Binding) (name : String) :
    lastBound? (history ++ [b]) name =
      if b.Reaches name then some b.2 else lastBound? history name := by
  unfold lastBound?
  by_cases hb : b.Reaches name <;> simp [hb]

/-- After a history a name is read as the last value that was bound under it. -/
theorem get?_afterBindings (history : List Binding) (name : String) :
    (afterBindings history).get? name = lastBound? history name := by
  induction history using List.reverseRecOn with
  | nil => exact get?_empty name
  | append_singleton history b ih =>
    rw [afterBindings_concat, get?_attempt, lastBound?_concat, ih]

theorem inUpperCase_afterBindings (history : List Binding) :
    (afterBindings history).InUpperCase := by
  induction history using List.reverseRecOn with
  | nil =>
    rintro ⟨name, v⟩ hmem
    have hbound := Std.ExtTreeMap.mem_toList_iff_getElem?_eq_some.mp hmem
    simp [afterBindings, empty] at hbound
  | append_singleton history b ih =>
    rw [afterBindings_concat]
    exact ih.attempt b

end History

end Environment

end LineBasic
