import LineBasic.Number.Format
import LineBasic.Proofs.Lexemes
import LineBasic.Proofs.Rounding

/-!
Printed numbers. The text of a finite number is a numeral, and the numeral is
read as that number again.
-/

namespace LineBasic

open Binary64

namespace Text

variable {cs ds : List Char}

theorem digit?_of_isDigit {c : Char} (h : c.isDigit = true) :
    digit? c = some (c.toNat - '0'.toNat) := by
  have hrange : 48 ≤ c.toNat ∧ c.toNat ≤ 57 := Char.isDigit_iff_toNat.mp h
  have hascii : c.toNat < 128 := by omega
  rw [digit?]
  simp only [if_pos hascii]
  rw [if_pos hrange]
  rfl

theorem foldl_digits (n : Nat) (cs : List Char) :
    cs.foldl (fun n c => 10 * n + (digit? c).getD 0) n = n * 10 ^ cs.length + digitsValue cs := by
  induction cs generalizing n with
  | nil => simp [digitsValue]
  | cons c cs ih =>
    simp only [digitsValue, List.foldl_cons, List.length_cons]
    rw [ih, ih (10 * 0 + _), Nat.pow_succ]
    ring

theorem digitsValue_append (cs ds : List Char) :
    digitsValue (cs ++ ds) = digitsValue cs * 10 ^ ds.length + digitsValue ds := by
  rw [digitsValue, List.foldl_append, foldl_digits _ ds]
  rfl

theorem digitsValue_zeros (n : Nat) : digitsValue (List.replicate n '0') = 0 := by
  induction n with
  | zero => rfl
  | succ n ih =>
    have hzero : digitsValue ['0'] = 0 := by decide
    rw [List.replicate_succ, ← List.singleton_append, digitsValue_append, ih, hzero,
      Nat.zero_mul]

theorem digit?_lt_ten {c : Char} {n : Nat} (h : digit? c = some n) : n < 10 := by
  unfold digit? at h
  simp only at h
  split at h
  · split at h
    · cases h
      omega
    · cases h
  · obtain ⟨range, -, rfl⟩ := Option.map_eq_some_iff.mp h
    exact Nat.mod_lt _ (by decide)

theorem digitsValue_lt (cs : List Char) : digitsValue cs < 10 ^ cs.length := by
  induction cs with
  | nil => decide
  | cons c cs ih =>
    have hdigit : digitsValue [c] ≤ 9 := by
      change 10 * 0 + (digit? c).getD 0 ≤ 9
      cases hc : digit? c with
      | none => decide
      | some n =>
        have hn := digit?_lt_ten hc
        rw [Option.getD_some]
        omega
    have hfront := Nat.mul_le_mul_right (10 ^ cs.length) hdigit
    rw [← List.singleton_append, digitsValue_append, List.length_append, Nat.pow_add]
    change _ < 10 * 10 ^ cs.length
    omega

theorem digitsValue_eq_ofDigitChars (h : ∀ c ∈ cs, c.isDigit = true) :
    digitsValue cs = Nat.ofDigitChars 10 cs 0 := by
  rw [digitsValue, Nat.ofDigitChars_eq_foldl]
  apply List.foldl_ext
  intro n c hc
  rw [digit?_of_isDigit (h c hc), Option.getD_some]

end Text

section Digits

variable {c : Char} {n : Nat}

theorem isDigit_of_mem_natDigits (h : c ∈ natDigits n) : Text.isDigit c = true := by
  have hdigit : c.isDigit = true := Nat.isDigit_of_mem_toDigits (by decide) (by decide) h
  rw [Text.isDigit, Text.digit?_of_isDigit hdigit]
  rfl

theorem digitsValue_natDigits (n : Nat) : Text.digitsValue (natDigits n) = n := by
  have hdigits : ∀ c ∈ natDigits n, c.isDigit = true :=
    fun c hc => Nat.isDigit_of_mem_toDigits (by decide) (by decide) hc
  rw [Text.digitsValue_eq_ofDigitChars hdigits]
  exact Nat.ofDigitChars_ten_toDigits

/-- No digits of a number are fewer than its own. -/
theorem length_natDigits_digitsValue_le {cs : List Char} (hne : cs ≠ []) :
    (natDigits (Text.digitsValue cs)).length ≤ cs.length :=
  (Nat.length_toDigits_le_iff (by decide) (List.length_pos_iff.mpr hne)).mpr
    (Text.digitsValue_lt cs)

theorem natDigits_ne_nil (n : Nat) : natDigits n ≠ [] := Nat.toDigits_ne_nil

theorem isDigit_of_mem_zeros (h : c ∈ List.replicate n '0') : Text.isDigit c = true := by
  rw [List.eq_of_mem_replicate h]
  decide

end Digits

def Numeral.amount (x : Numeral) : ℚ := x.coefficient * 10 ^ x.exponent

def Decimal.amount (x : Decimal) : ℚ := x.coefficient * 10 ^ x.exponent

def Spells (cs : List Char) (q : ℚ) : Prop :=
  ∃ x : Numeral, x.IsSpelled ∧ x.spelling = cs ∧ x.amount = q

theorem exists_paddedDigits (n : Nat) :
    ∃ ds, (if (natDigits n).length < 2 then '0' :: natDigits n else natDigits n) = ds ∧
      ds ≠ [] ∧ (∀ c ∈ ds, Text.isDigit c = true) ∧ Text.digitsValue ds = n := by
  split
  · refine ⟨_, rfl, by simp, ?_, ?_⟩
    · intro c hc
      rcases List.mem_cons.mp hc with rfl | hc
      · decide
      · exact isDigit_of_mem_natDigits hc
    · have hzero : Text.digitsValue ['0'] = 0 := by decide
      rw [← List.singleton_append, Text.digitsValue_append, hzero, Nat.zero_mul, Nat.zero_add,
        digitsValue_natDigits]
  · exact ⟨_, rfl, natDigits_ne_nil n, fun c hc => isDigit_of_mem_natDigits hc,
      digitsValue_natDigits n⟩

/-- The text of a power of ten is spelled as one. -/
theorem exists_power (e : Int) :
    ∃ p : Power, p.IsSpelled ∧ p.spelling = powerText e ∧ p.value = e := by
  obtain ⟨ds, hpadded, hne, hdigits, hvalue⟩ := exists_paddedDigits e.natAbs
  unfold powerText
  simp only [hpadded]
  by_cases he : e < 0
  · refine ⟨⟨'e', ['-'], ds⟩, ⟨.inl rfl, .inr (.inr rfl), hne, hdigits⟩, ?_, ?_⟩
    · rw [if_pos he]
      rfl
    · simp only [Power.value, if_true, hvalue]
      omega
  · refine ⟨⟨'e', ['+'], ds⟩, ⟨.inl rfl, .inr (.inl rfl), hne, hdigits⟩, ?_, ?_⟩
    · rw [if_neg he]
      rfl
    · have hsign : ['+'] ≠ ['-'] := by decide
      simp only [Power.value, if_neg hsign, hvalue]
      omega

section Layouts

variable {ds : List Char} {place : Int}

/-- The rational number that digits denote with the decimal point at a place. -/
def amountAt (ds : List Char) (place : Int) : ℚ :=
  Text.digitsValue ds * 10 ^ (place - ds.length)

theorem spells_leading (hds : ∀ c ∈ ds, Text.isDigit c = true) (hplace : place ≤ 0) :
    Spells ('0' :: '.' :: List.replicate (-place).toNat '0' ++ ds) (amountAt ds place) := by
  refine ⟨⟨['0'], some (List.replicate (-place).toNat '0' ++ ds), none⟩, ⟨?_, ?_, ?_, ?_⟩, ?_, ?_⟩
  · intro c hc
    rw [List.mem_singleton.mp hc]
    decide
  · rintro cs hcs c hc
    cases hcs
    rcases List.mem_append.mp hc with hc | hc
    · exact isDigit_of_mem_zeros hc
    · exact hds c hc
  · intro h
    cases h
  · intro p hp
    cases hp
  · simp [Numeral.spelling]
  · have hzeros : Text.digitsValue (['0'] ++ List.replicate (-place).toNat '0' ++ ds) =
        Text.digitsValue ds := by
      rw [← List.replicate_one, List.replicate_append_replicate, Text.digitsValue_append,
        Text.digitsValue_zeros, Nat.zero_mul, Nat.zero_add]
    have hexponent : (0 : Int) - (List.replicate (-place).toNat '0' ++ ds).length =
        place - ds.length := by
      rw [List.length_append, List.length_replicate]
      omega
    simp only [Numeral.amount, Numeral.coefficient, Numeral.exponent, Option.getD_some,
      Option.map_none, Option.getD_none, ← List.append_assoc, hzeros, hexponent, amountAt]

theorem spells_inside (hds : ∀ c ∈ ds, Text.isDigit c = true) (hpos : 0 < place)
    (hplace : place < ds.length) :
    Spells (ds.take place.toNat ++ '.' :: ds.drop place.toNat) (amountAt ds place) := by
  refine ⟨⟨ds.take place.toNat, some (ds.drop place.toNat), none⟩, ⟨?_, ?_, ?_, ?_⟩, ?_, ?_⟩
  · exact fun c hc => hds c (List.mem_of_mem_take hc)
  · rintro cs hcs c hc
    cases hcs
    exact hds c (List.mem_of_mem_drop hc)
  · intro h
    have hlength := congrArg List.length h
    simp only [List.length_take, List.length_nil] at hlength
    omega
  · intro p hp
    cases hp
  · simp [Numeral.spelling]
  · have hexponent : (0 : Int) - (ds.drop place.toNat).length = place - ds.length := by
      rw [List.length_drop]
      omega
    simp only [Numeral.amount, Numeral.coefficient, Numeral.exponent, Option.getD_some,
      Option.map_none, Option.getD_none, List.take_append_drop, hexponent, amountAt]

theorem spells_whole (hne : ds ≠ []) (hds : ∀ c ∈ ds, Text.isDigit c = true) :
    Spells ds (Text.digitsValue ds) := by
  refine ⟨⟨ds, none, none⟩, ⟨hds, ?_, fun h => absurd h hne, ?_⟩, ?_, ?_⟩
  · intro cs hcs
    cases hcs
  · intro p hp
    cases hp
  · simp [Numeral.spelling]
  · simp [Numeral.amount, Numeral.coefficient, Numeral.exponent]

theorem spells_trailing (hne : ds ≠ []) (hds : ∀ c ∈ ds, Text.isDigit c = true)
    (hplace : (ds.length : Int) ≤ place) :
    Spells (ds ++ List.replicate (place.toNat - ds.length) '0') (amountAt ds place) := by
  have hamount : amountAt ds place =
      Text.digitsValue (ds ++ List.replicate (place.toNat - ds.length) '0') := by
    have hexponent : place - ds.length = ((place.toNat - ds.length : Nat) : Int) := by omega
    rw [Text.digitsValue_append, Text.digitsValue_zeros, List.length_replicate, amountAt,
      hexponent, zpow_natCast]
    push_cast
    rw [add_zero]
  rw [hamount]
  apply spells_whole
  · intro h
    exact hne (List.append_eq_nil_iff.mp h).1
  · intro c hc
    rcases List.mem_append.mp hc with hc | hc
    · exact hds c hc
    · exact isDigit_of_mem_zeros hc

theorem spells_scientific {d : Char} (hds : ∀ c ∈ d :: ds, Text.isDigit c = true) :
    Spells ((match d :: ds with
      | [] => []
      | [d] => [d]
      | d :: ds => d :: '.' :: ds) ++ powerText (place - 1)) (amountAt (d :: ds) place) := by
  obtain ⟨p, hp, hspelling, hvalue⟩ := exists_power (place - 1)
  have hpower : ∀ p', some p = some p' → p'.IsSpelled := by
    rintro p' hp'
    cases hp'
    exact hp
  have hwhole : ∀ c ∈ [d], Text.isDigit c = true := by
    intro c hc
    exact hds c (List.mem_cons.mpr (.inl (List.mem_singleton.mp hc)))
  cases ds with
  | nil =>
    refine ⟨⟨[d], none, some p⟩, ⟨hwhole, ?_, ?_, hpower⟩, ?_, ?_⟩
    · intro cs hcs
      cases hcs
    · intro h
      cases h
    · simp [Numeral.spelling, hspelling]
    · simp [Numeral.amount, Numeral.coefficient, Numeral.exponent, amountAt, hvalue]
  | cons d' ds =>
    refine ⟨⟨[d], some (d' :: ds), some p⟩, ⟨hwhole, ?_, ?_, hpower⟩, ?_, ?_⟩
    · rintro cs hcs c hc
      cases hcs
      exact hds c (List.mem_cons_of_mem d hc)
    · intro h
      cases h
    · simp [Numeral.spelling, hspelling]
    · have hexponent : place - 1 - ((d' :: ds).length : Int) = place - (d :: d' :: ds).length := by
        simp only [List.length_cons]
        omega
      simp only [Numeral.amount, Numeral.coefficient, Numeral.exponent, Option.getD_some,
        Option.map_some, hvalue, hexponent, List.singleton_append, amountAt]

end Layouts

namespace Decimal

variable {x : Decimal}

/-- The digits of the coefficient are the significant ones and then zeros. -/
theorem exists_zeros (x : Decimal) :
    ∃ k, natDigits x.coefficient = x.significantDigits ++ List.replicate k '0' := by
  have hsplit : (natDigits x.coefficient).reverse.takeWhile (· == '0') ++
      (natDigits x.coefficient).reverse.dropWhile (· == '0') = (natDigits x.coefficient).reverse :=
    List.takeWhile_append_dropWhile
  have hzeros : ∃ k, (natDigits x.coefficient).reverse.takeWhile (· == '0') =
      List.replicate k '0' := by
    refine ⟨_, List.eq_replicate_of_mem fun c hc => ?_⟩
    exact eq_of_beq (mem_takeWhile (p := (· == '0')) hc)
  obtain ⟨k, hk⟩ := hzeros
  refine ⟨k, ?_⟩
  calc natDigits x.coefficient = (natDigits x.coefficient).reverse.reverse :=
        (List.reverse_reverse _).symm
    _ = x.significantDigits ++ List.replicate k '0' := by
      rw [← hsplit, hk, List.reverse_append, List.reverse_replicate]
      rfl

theorem isDigit_of_mem_significantDigits {c : Char} (h : c ∈ x.significantDigits) :
    Text.isDigit c = true := by
  obtain ⟨k, hk⟩ := x.exists_zeros
  apply isDigit_of_mem_natDigits
  rw [hk]
  exact List.mem_append_left _ h

/-- The significant digits and the place denote the decimal. -/
theorem amountAt_place (x : Decimal) : amountAt x.significantDigits x.place = x.amount := by
  obtain ⟨k, hk⟩ := x.exists_zeros
  have hcoefficient : x.coefficient = Text.digitsValue x.significantDigits * 10 ^ k := by
    rw [← digitsValue_natDigits x.coefficient, hk, Text.digitsValue_append, Text.digitsValue_zeros,
      List.length_replicate, Nat.add_zero]
  have hplace : x.place - x.significantDigits.length = k + x.exponent := by
    rw [place, hk, List.length_append, List.length_replicate]
    omega
  rw [amountAt, amount, hplace, hcoefficient, zpow_add₀ (by norm_num), zpow_natCast]
  push_cast
  rw [mul_assoc]

theorem significantDigits_ne_nil (h : x.coefficient ≠ 0) : x.significantDigits ≠ [] := by
  intro hnil
  obtain ⟨k, hk⟩ := x.exists_zeros
  apply h
  rw [← digitsValue_natDigits x.coefficient, hk, hnil, List.nil_append, Text.digitsValue_zeros]

/-- The text of a decimal other than zero is a numeral of its amount. -/
theorem spells_toText (h : x.coefficient ≠ 0) : Spells x.toText x.amount := by
  have hne := significantDigits_ne_nil h
  have hds : ∀ c ∈ x.significantDigits, Text.isDigit c = true :=
    fun c hc => isDigit_of_mem_significantDigits hc
  rw [← amountAt_place]
  unfold toText
  simp only
  split
  · split
    · next hplace => exact spells_leading hds hplace
    · next hpos =>
      split
      · next hplace => exact spells_inside hds (by omega) hplace
      · next hplace => exact spells_trailing hne hds (by omega)
  · generalize x.significantDigits = ds at hne hds
    cases ds with
    | nil => exact absurd rfl hne
    | cons d ds => exact spells_scientific hds

end Decimal

section Magnitudes

variable {m : Nat} {e : Int}

theorem amount_ofBinary (m : Nat) (e : Int) : (Decimal.ofBinary m e).amount = m * 2 ^ e := by
  unfold Decimal.ofBinary
  split
  · next he =>
    simp only [Decimal.amount, Nat.pow_eq]
    push_cast
    rw [mul_one, ← zpow_natCast, Int.toNat_of_nonneg he]
  · next he =>
    have hzero : e.toNat = 0 := by omega
    have hsplit : (10 : ℚ) ^ (-e).toNat = 2 ^ (-e).toNat * 5 ^ (-e).toNat := by
      rw [← mul_pow]
      norm_num
    simp only [Decimal.amount, Nat.pow_eq]
    push_cast
    rw [zpow_eq_div (by norm_num), zpow_eq_div two_ne_zero, hzero, pow_zero, pow_zero, hsplit]
    field_simp

theorem amount_wholeNumber? {n : Nat} (h : wholeNumber? m e = some n) : (n : ℚ) = m * 2 ^ e := by
  unfold wholeNumber? at h
  split at h
  · next he =>
    cases h
    rw [Nat.pow_eq]
    push_cast
    rw [← zpow_natCast, Int.toNat_of_nonneg he]
  · next he =>
    simp only [Nat.pow_eq] at h
    split at h
    · next hmod =>
      cases h
      have hzero : e.toNat = 0 := by omega
      have hproduct : m / 2 ^ (-e).toNat * 2 ^ (-e).toNat = m :=
        Nat.div_mul_cancel (Nat.dvd_of_mod_eq_zero hmod)
      rw [zpow_eq_div two_ne_zero, hzero, pow_zero, mul_one_div, eq_div_iff (by positivity)]
      exact_mod_cast hproduct
    · cases h

theorem readsBack_of_nearestOnGrid? {n d : Nat} {readsBack : Decimal → Bool} {grid : Int}
    {x : Decimal} (h : Decimal.nearestOnGrid? n d readsBack grid = some x) :
    readsBack x = true := by
  unfold Decimal.nearestOnGrid? at h
  generalize (if 0 ≤ grid then (n, d * Nat.pow 10 grid.toNat)
    else (n * Nat.pow 10 (-grid).toNat, d)) = quotient at h
  obtain ⟨num, den⟩ := quotient
  simp only at h
  split at h
  · next hlow hhigh =>
    cases h
    split
    · exact hlow
    · exact hhigh
  · next hlow _ =>
    cases h
    exact hlow
  · next _ hhigh =>
    cases h
    exact hhigh
  · cases h

/-- The shortest decimal of a finite double is read as that double. -/
theorem toFloat_shortest (hfinite : IsFinite m e) (hpos : 0 < m) :
    (Decimal.shortest m e).toFloat false = ofMagnitude false (finiteBits m e) := by
  have hexact : (Decimal.ofBinary m e).toFloat false = ofMagnitude false (finiteBits m e) :=
    ofDecimal_of_finite false hfinite hpos (amount_ofBinary m e)
  rw [← hexact]
  unfold Decimal.shortest
  simp only
  cases hfound : List.findSome? _ _ with
  | none => rfl
  | some x =>
    obtain ⟨grid, -, hgrid⟩ := List.exists_of_findSome?_eq_some hfound
    have hbits := readsBack_of_nearestOnGrid? hgrid
    exact Float.toBits_inj.mp (eq_of_beq hbits)

theorem coefficient_shortest_ne_zero (hfinite : IsFinite m e) (hpos : 0 < m) :
    (Decimal.shortest m e).coefficient ≠ 0 := by
  intro hzero
  have hfloat := toFloat_shortest hfinite hpos
  rw [Decimal.toFloat, hzero, ofDecimal, if_pos rfl] at hfloat
  have hbits := congrArg (fun x => x.toBits.toNat) hfloat
  simp only [toBits_ofMagnitude (Nat.zero_le _), toBits_ofMagnitude hfinite.finiteBits_lt.le,
    toNat_signedBits (Nat.zero_le _), toNat_signedBits hfinite.finiteBits_lt.le] at hbits
  rw [finiteBits] at hbits
  omega

/-- The text of a finite number other than zero is a numeral that is read as
that number. -/
theorem exists_numeral_of_magnitudeText (hfinite : IsFinite m e) (hpos : 0 < m) :
    ∃ x : Numeral, x.IsSpelled ∧ x.spelling = magnitudeText m e ∧
      x.value = ofMagnitude false (finiteBits m e) := by
  have hshortest : ∃ x : Numeral, x.IsSpelled ∧ x.spelling = (Decimal.shortest m e).toText ∧
      x.value = ofMagnitude false (finiteBits m e) := by
    obtain ⟨x, hx, hspelling, hamount⟩ :=
      Decimal.spells_toText (coefficient_shortest_ne_zero hfinite hpos)
    refine ⟨x, hx, hspelling, ?_⟩
    rw [← toFloat_shortest hfinite hpos]
    exact ofDecimal_congr false hamount
  unfold magnitudeText
  split
  · next n hn =>
    split
    · obtain ⟨x, hx, hspelling, hamount⟩ :=
        spells_whole (natDigits_ne_nil n) fun c hc => isDigit_of_mem_natDigits hc
      refine ⟨x, hx, hspelling, ofDecimal_of_finite false hfinite hpos (hamount.trans ?_)⟩
      rw [digitsValue_natDigits]
      exact amount_wholeNumber? hn
    · exact hshortest
  · exact hshortest

end Magnitudes

end LineBasic
