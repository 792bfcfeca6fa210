import LineBasic.Proofs.Doubles

/-!
Rounding to doubles, in exact terms. The double nearest to a quotient or to a
decimal depends on nothing but the rational number that these denote, and a
number that is a double is rounded to itself.
-/

namespace LineBasic.Binary64

section Quotients

variable {n d n' d' k : Nat} {e q : Int}

/-- A power with an integer exponent, as the quotient of two with natural ones. -/
theorem zpow_mul_pow_toNat {b : ℚ} (hb : b ≠ 0) (e : Int) :
    b ^ e * b ^ (-e).toNat = b ^ e.toNat := by
  have hsum : e + ((-e).toNat : Int) = e.toNat := by omega
  rw [← zpow_natCast, ← zpow_natCast, ← zpow_add₀ hb, hsum]

theorem zpow_eq_div {b : ℚ} (hb : b ≠ 0) (e : Int) : b ^ e = b ^ e.toNat / b ^ (-e).toNat := by
  rw [eq_div_iff (pow_ne_zero _ hb), zpow_mul_pow_toNat hb]

theorem pow_le_quotient_iff (hd : 0 < d) :
    d * 2 ^ e.toNat ≤ n * 2 ^ (-e).toNat ↔ (2 : ℚ) ^ e ≤ n / d := by
  have hd' : (0 : ℚ) < d := by exact_mod_cast hd
  rw [zpow_eq_div two_ne_zero, div_le_div_iff₀ (by positivity) hd', mul_comm d]
  exact_mod_cast Iff.rfl

/-- The binary logarithms of numerator and denominator enclose that of the
quotient. -/
theorem log_quotient_mem (hn : 0 < n) (hd : 0 < d) :
    (n.log2 : Int) - d.log2 - 1 ≤ Int.log 2 (n / d : ℚ) ∧
      Int.log 2 (n / d : ℚ) < (n.log2 : Int) - d.log2 + 1 := by
  have hn' : (0 : ℚ) < n := by exact_mod_cast hn
  have hd' : (0 : ℚ) < d := by exact_mod_cast hd
  have hlow (m : Nat) (hm : 0 < m) : (2 : ℚ) ^ (m.log2 : Int) ≤ m := by
    have hle : 2 ^ m.log2 ≤ m := Nat.log2_self_le (Nat.pos_iff_ne_zero.mp hm)
    exact_mod_cast hle
  have hhigh (m : Nat) : (m : ℚ) < (2 : ℚ) ^ ((m.log2 : Int) + 1) := by
    have hlt : m < 2 ^ (m.log2 + 1) := Nat.lt_log2_self
    exact_mod_cast hlt
  constructor
  · rw [← Int.zpow_le_iff_le_log (by decide) (by positivity)]
    have hsplit : (n.log2 : Int) - d.log2 - 1 = n.log2 - (d.log2 + 1) := by omega
    rw [hsplit, Nat.cast_ofNat, zpow_sub₀ two_ne_zero]
    exact div_le_div₀ hn'.le (hlow n hn) hd' (hhigh d).le
  · rw [← Int.lt_zpow_iff_log_lt (by decide) (by positivity)]
    have hsplit : (n.log2 : Int) - d.log2 + 1 = (n.log2 + 1) - d.log2 := by omega
    have hpower (t : Int) : (0 : ℚ) < 2 ^ t := zpow_pos two_pos t
    rw [hsplit, Nat.cast_ofNat, zpow_sub₀ two_ne_zero]
    exact div_lt_div₀ (hhigh n) (hlow d hd) (hpower _).le (hpower _)

/-- The computed logarithm is that of the quotient. -/
theorem floorLog2_eq_log (hn : 0 < n) (hd : 0 < d) : floorLog2 n d = Int.log 2 (n / d : ℚ) := by
  obtain ⟨hlow, hhigh⟩ := log_quotient_mem hn hd
  have hpos : (0 : ℚ) < n / d := by positivity
  have hreached := pow_le_quotient_iff (n := n) (e := (n.log2 : Int) - d.log2) hd
  have hlog := Int.zpow_le_iff_le_log (x := (n.log2 : Int) - d.log2) one_lt_two hpos
  rw [Nat.cast_ofNat, ← hreached] at hlog
  have hbranches : (if 0 ≤ (n.log2 : Int) - d.log2 then
        d * Nat.pow 2 ((n.log2 : Int) - d.log2).toNat ≤ n
      else d ≤ n * Nat.pow 2 (-((n.log2 : Int) - d.log2)).toNat) ↔
      (n.log2 : Int) - d.log2 ≤ Int.log 2 (n / d : ℚ) := by
    rw [← hlog]
    split
    · next he =>
      have hzero : (-((n.log2 : Int) - d.log2)).toNat = 0 := by omega
      simp only [hzero, Nat.pow_zero, Nat.mul_one, Nat.pow_eq]
    · next he =>
      have hzero : ((n.log2 : Int) - d.log2).toNat = 0 := by omega
      simp only [hzero, Nat.pow_zero, Nat.mul_one, Nat.pow_eq]
  unfold floorLog2
  simp only [hbranches]
  split <;> omega

theorem roundDiv_mul_right (n d : Nat) (hk : 0 < k) :
    roundDiv (n * k) (d * k) = roundDiv n d := by
  have hscale (a b : Nat) : a * k < b * k ↔ a < b := Nat.mul_lt_mul_right hk
  have hdouble (a : Nat) : 2 * (a * k) = 2 * a * k := by rw [Nat.mul_assoc]
  simp only [roundDiv, Nat.mul_div_mul_right _ _ hk, Nat.mul_mod_mul_right, hdouble, hscale]

theorem roundDiv_mul_self (n : Nat) (hd : 0 < d) : roundDiv (n * d) d = n := by
  simp only [roundDiv, Nat.mul_div_cancel _ hd, Nat.mul_mod_left, Nat.mul_zero, hd, if_true]

theorem div_le_roundDiv (n d : Nat) : n / d ≤ roundDiv n d := by
  simp only [roundDiv]
  split
  · exact Nat.le_refl _
  · split
    · exact Nat.le_succ _
    · split
      · exact Nat.le_refl _
      · exact Nat.le_succ _

theorem roundDiv_eq_zero (h : 2 * n < d) : roundDiv n d = 0 := by
  have hlt : n < d := by omega
  simp only [roundDiv, Nat.mod_eq_of_lt hlt, Nat.div_eq_of_lt hlt, h, if_true]

/-- The exponent of the last place of the double nearest to `n / d`. -/
def lastPlace (n d : Nat) : Int := max (-1074) (floorLog2 n d - 52)

theorem nearestBits_eq (n d : Nat) : nearestBits n d =
    min infinityBits ((lastPlace n d + 1074).toNat * hiddenBit +
      roundDiv (n * 2 ^ (-lastPlace n d).toNat) (d * 2 ^ (lastPlace n d).toNat)) := by
  unfold nearestBits
  simp only
  rw [← lastPlace]
  split
  · next hq =>
    have hzero : (-lastPlace n d).toNat = 0 := by omega
    rw [hzero, Nat.pow_zero, Nat.mul_one, Nat.pow_eq]
  · next hq =>
    have hzero : (lastPlace n d).toNat = 0 := by omega
    rw [hzero, Nat.pow_zero, Nat.mul_one, Nat.pow_eq]

theorem nearestBits_mul_right (hn : 0 < n) (hd : 0 < d) (hk : 0 < k) :
    nearestBits (n * k) (d * k) = nearestBits n d := by
  have hplace : lastPlace (n * k) (d * k) = lastPlace n d := by
    have hk' : (k : ℚ) ≠ 0 := by positivity
    rw [lastPlace, lastPlace, floorLog2_eq_log (by positivity) (by positivity),
      floorLog2_eq_log hn hd]
    push_cast
    rw [mul_div_mul_right _ _ hk']
  rw [nearestBits_eq, nearestBits_eq, hplace, Nat.mul_right_comm, Nat.mul_right_comm d,
    roundDiv_mul_right _ _ hk]

/-- Equal quotients are rounded to the same double. -/
theorem ofRatio_congr (negative : Bool) (hd : 0 < d) (hd' : 0 < d')
    (h : (n : ℚ) / d = n' / d') : ofRatio negative n d = ofRatio negative n' d' := by
  have hcross : n * d' = n' * d := by
    rw [div_eq_div_iff (by positivity) (by positivity)] at h
    exact_mod_cast h
  rcases Nat.eq_zero_or_pos n with rfl | hn
  · have hn' : n' = 0 := by
      rw [Nat.zero_mul] at hcross
      exact (Nat.mul_eq_zero.mp hcross.symm).resolve_right hd.ne'
    rw [hn', ofRatio, ofRatio, if_pos rfl, if_pos rfl]
  · have hn' : 0 < n' := by
      have hpos : 0 < n' * d := hcross ▸ Nat.mul_pos hn hd'
      exact Nat.pos_of_mul_pos_right hpos
    have hbits : nearestBits n d = nearestBits n' d' := by
      rw [← nearestBits_mul_right hn hd hd', hcross, Nat.mul_comm d,
        nearestBits_mul_right hn' hd' hd]
    rw [ofRatio, ofRatio, if_neg hn.ne', if_neg hn'.ne', hbits]

/-- A quotient of at least `2 ^ 1024` is rounded to infinity. -/
theorem nearestBits_of_large (hd : 0 < d) (h : (2 : ℚ) ^ (1024 : Int) ≤ n / d) :
    nearestBits n d = infinityBits := by
  have hpos : (0 : ℚ) < n / d := lt_of_lt_of_le (zpow_pos two_pos _) h
  have hn : 0 < n := by
    rcases Nat.eq_zero_or_pos n with rfl | hn
    · simp at hpos
    · exact hn
  have hlog : 1024 ≤ floorLog2 n d := by
    rw [floorLog2_eq_log hn hd, ← Int.zpow_le_iff_le_log (by decide) hpos]
    exact h
  obtain ⟨q, hq, hplace⟩ : ∃ q : Nat, 972 ≤ q ∧ lastPlace n d = q := by
    refine ⟨(floorLog2 n d - 52).toNat, by omega, ?_⟩
    rw [lastPlace]
    omega
  have hfloor : 2 ^ 52 * (d * 2 ^ q) ≤ n := by
    have hself : (2 : ℚ) ^ floorLog2 n d ≤ n / d := by
      rw [floorLog2_eq_log hn hd]
      exact Int.zpow_log_le_self one_lt_two hpos
    have hexponent : floorLog2 n d = ((52 + q : Nat) : Int) := by
      rw [lastPlace] at hplace
      omega
    rw [hexponent, ← pow_le_quotient_iff hd, Int.toNat_natCast, Int.toNat_neg_natCast,
      Nat.pow_zero, Nat.mul_one, Nat.pow_add, Nat.mul_left_comm] at hself
    exact hself
  have hmantissa : 2 ^ 52 ≤ roundDiv n (d * 2 ^ q) :=
    calc 2 ^ 52 ≤ n / (d * 2 ^ q) := (Nat.le_div_iff_mul_le (by positivity)).mpr hfloor
      _ ≤ roundDiv n (d * 2 ^ q) := div_le_roundDiv _ _
  rw [nearestBits_eq, hplace, Int.toNat_neg_natCast, Int.toNat_natCast, Nat.pow_zero, Nat.mul_one]
  apply Nat.min_eq_left
  have hrank : 2046 ≤ ((q : Int) + 1074).toNat := by omega
  have hproduct := Nat.mul_le_mul_right hiddenBit hrank
  simp only [infinityBits, hiddenBit] at hproduct ⊢
  omega

/-- A quotient below `2 ^ -1075` is rounded to zero. -/
theorem nearestBits_of_small (hn : 0 < n) (hd : 0 < d) (h : 2 * (n * 2 ^ 1074) < d) :
    nearestBits n d = 0 := by
  have hnumerator : (-(-1074 : Int)).toNat = 1074 := rfl
  have hdenominator : (-1074 : Int).toNat = 0 := rfl
  have hlog : floorLog2 n d < -1074 := by
    rw [floorLog2_eq_log hn hd, ← Int.lt_zpow_iff_log_lt one_lt_two (by positivity), ← not_le,
      Nat.cast_ofNat, ← pow_le_quotient_iff hd, not_le, hnumerator, hdenominator, Nat.pow_zero,
      Nat.mul_one]
    omega
  have hplace : lastPlace n d = -1074 := by
    rw [lastPlace]
    omega
  rw [nearestBits_eq, hplace, hnumerator, hdenominator, Nat.pow_zero, Nat.mul_one,
    roundDiv_eq_zero h]
  rfl

end Quotients

section Decimals

variable {n d c c' k : Nat} {e e' : Int}

theorem pow_two_le_pow_five (h : 331 ≤ k) : 2 ^ (2 * k + 85) ≤ 5 ^ k := by
  induction k, h using Nat.le_induction with
  | base => decide +kernel
  | succ k _ ih =>
    have hstep : 2 * (k + 1) + 85 = 2 * k + 85 + 2 := by omega
    rw [hstep, Nat.pow_add, Nat.pow_succ 5]
    exact Nat.mul_le_mul ih (by decide)

/-- A decimal that is settled as too small is below half of the least double. -/
theorem mul_pow_lt_of_log2_le (h : c.log2 + 991 ≤ 3 * k) : 2 * (c * 2 ^ 1074) < 10 ^ k := by
  have hc : c < 2 ^ (c.log2 + 1) := Nat.lt_log2_self
  have hsum : c.log2 + 1 + 1074 + 1 ≤ k + (2 * k + 85) := by omega
  calc 2 * (c * 2 ^ 1074) < 2 * (2 ^ (c.log2 + 1) * 2 ^ 1074) :=
        Nat.mul_lt_mul_of_pos_left (Nat.mul_lt_mul_of_pos_right hc (by positivity)) two_pos
    _ = 2 ^ (c.log2 + 1 + 1074 + 1) := by rw [← Nat.pow_add, ← Nat.pow_succ']
    _ ≤ 2 ^ (k + (2 * k + 85)) := Nat.pow_le_pow_right two_pos hsum
    _ = 2 ^ k * 2 ^ (2 * k + 85) := Nat.pow_add ..
    _ ≤ 2 ^ k * 5 ^ k := Nat.mul_le_mul_left _ (pow_two_le_pow_five (by omega))
    _ = 10 ^ k := (Nat.mul_pow 2 5 k).symm

/-- The double nearest to a decimal is the one nearest to any quotient that is
equal to it. -/
theorem ofDecimal_eq_ofRatio (negative : Bool) (hd : 0 < d)
    (h : (n : ℚ) / d = c * 10 ^ e) : ofDecimal negative c e = ofRatio negative n d := by
  have hd' : (0 : ℚ) < d := by exact_mod_cast hd
  unfold ofDecimal
  split
  · next hc =>
    have hn : n = 0 := by
      rw [hc, Nat.cast_zero, zero_mul, div_eq_zero_iff] at h
      exact_mod_cast h.resolve_right hd'.ne'
    rw [ofRatio, if_pos hn]
  · next hc =>
    have hone : (1 : ℚ) ≤ c := by exact_mod_cast Nat.pos_of_ne_zero hc
    have hpower : (0 : ℚ) < 10 ^ e := zpow_pos (by norm_num) e
    have hpos : (0 : ℚ) < n / d := by
      rw [h]
      exact mul_pos (one_pos.trans_le hone) hpower
    have hn : n ≠ 0 := by
      rintro rfl
      simp at hpos
    split
    · next he =>
      have hlarge : (2 : ℚ) ^ (1024 : Int) ≤ n / d := by
        have hpowers : 2 ^ 1024 ≤ 10 ^ 310 := by decide +kernel
        calc (2 : ℚ) ^ (1024 : Int) ≤ 10 ^ (310 : Int) := by exact_mod_cast hpowers
          _ ≤ 10 ^ e := zpow_le_zpow_right₀ (by norm_num) he
          _ ≤ c * 10 ^ e := le_mul_of_one_le_left hpower.le hone
          _ = n / d := h.symm
      rw [ofRatio, if_neg hn, nearestBits_of_large hd hlarge, infinity]
    · split
      · next he =>
        apply ofRatio_congr negative Nat.one_pos hd
        rw [h, Nat.cast_one, div_one, Nat.pow_eq]
        push_cast
        rw [← zpow_natCast, Int.toNat_of_nonneg he]
      · next he =>
        have hquotient : (c : ℚ) / (10 ^ (-e).toNat : Nat) = n / d := by
          have hzero : e.toNat = 0 := by omega
          rw [h, zpow_eq_div (by norm_num), hzero, pow_zero, mul_one_div]
          push_cast
          rfl
        rw [Nat.pow_eq, ← ofRatio_congr negative (by positivity) hd hquotient]
        split
        · next hsmall =>
          rw [ofRatio, if_neg hc, nearestBits_of_small (Nat.pos_of_ne_zero hc) (by positivity)
            (mul_pow_lt_of_log2_le hsmall)]
        · rfl

/-- Equal decimals are read as the same double. -/
theorem ofDecimal_congr (negative : Bool) (h : (c : ℚ) * 10 ^ e = c' * 10 ^ e') :
    ofDecimal negative c e = ofDecimal negative c' e' := by
  have hquotient : ((c * 10 ^ e.toNat : Nat) : ℚ) / (10 ^ (-e).toNat : Nat) = c * 10 ^ e := by
    rw [zpow_eq_div (by norm_num)]
    push_cast
    rw [mul_div_assoc]
  rw [ofDecimal_eq_ofRatio negative (by positivity) hquotient,
    ofDecimal_eq_ofRatio negative (by positivity) (hquotient.trans h)]

end Decimals

section Exactness

variable {n d m c : Nat} {e k : Int}

theorem lastPlace_of_finite (hfinite : IsFinite m e) (hpos : 0 < m) (hd : 0 < d)
    (h : (n : ℚ) / d = m * 2 ^ e) : lastPlace n d = e := by
  have hpower : (0 : ℚ) < 2 ^ e := zpow_pos two_pos e
  have hvalue : (0 : ℚ) < n / d := by
    rw [h]
    exact mul_pos (by exact_mod_cast hpos) hpower
  have hn : 0 < n := by
    rcases Nat.eq_zero_or_pos n with rfl | hn
    · simp at hvalue
    · exact hn
  have hsplit (t : Int) : (2 : ℚ) ^ (t + e) = 2 ^ t * 2 ^ e := zpow_add₀ two_ne_zero t e
  have hupper : floorLog2 n d < 53 + e := by
    have hm : (m : ℚ) < 2 ^ (53 : Int) := by exact_mod_cast hfinite.mantissa_lt
    rw [floorLog2_eq_log hn hd, ← Int.lt_zpow_iff_log_lt one_lt_two hvalue, h, Nat.cast_ofNat,
      hsplit]
    exact mul_lt_mul_of_pos_right hm hpower
  have hge := hfinite.exponent_ge
  rcases hfinite.normal with hnormal | rfl
  · have hlower : 52 + e ≤ floorLog2 n d := by
      have hm : (2 : ℚ) ^ (52 : Int) ≤ m := by exact_mod_cast hnormal
      rw [floorLog2_eq_log hn hd, ← Int.zpow_le_iff_le_log one_lt_two hvalue, h, Nat.cast_ofNat,
        hsplit]
      exact mul_le_mul_of_nonneg_right hm hpower.le
    rw [lastPlace]
    omega
  · rw [lastPlace]
    omega

/-- A finite double is rounded to itself. -/
theorem nearestBits_of_finite (hfinite : IsFinite m e) (hpos : 0 < m) (hd : 0 < d)
    (h : (n : ℚ) / d = m * 2 ^ e) : nearestBits n d = finiteBits m e := by
  have hexact : n * 2 ^ (-e).toNat = m * (d * 2 ^ e.toNat) := by
    rw [zpow_eq_div two_ne_zero, ← mul_div_assoc, div_eq_div_iff (by positivity) (by positivity)]
      at h
    have hcross : n * 2 ^ (-e).toNat = m * 2 ^ e.toNat * d := by exact_mod_cast h
    rw [hcross, Nat.mul_assoc, Nat.mul_comm d]
  rw [nearestBits_eq, lastPlace_of_finite hfinite hpos hd h, hexact,
    roundDiv_mul_self m (by positivity)]
  exact Nat.min_eq_right hfinite.finiteBits_lt.le

/-- A decimal equal to a finite double is read as that double. -/
theorem ofDecimal_of_finite (negative : Bool) (hfinite : IsFinite m e) (hpos : 0 < m)
    (h : (c : ℚ) * 10 ^ k = m * 2 ^ e) :
    ofDecimal negative c k = ofMagnitude negative (finiteBits m e) := by
  have hquotient : ((m * 2 ^ e.toNat : Nat) : ℚ) / (2 ^ (-e).toNat : Nat) = m * 2 ^ e := by
    rw [zpow_eq_div two_ne_zero]
    push_cast
    rw [mul_div_assoc]
  have hd : 0 < 2 ^ (-e).toNat := by positivity
  have hn : m * 2 ^ e.toNat ≠ 0 := (Nat.mul_pos hpos (by positivity)).ne'
  rw [ofDecimal_eq_ofRatio negative hd (hquotient.trans h.symm), ofRatio, if_neg hn,
    nearestBits_of_finite hfinite hpos hd hquotient]

end Exactness

end LineBasic.Binary64
