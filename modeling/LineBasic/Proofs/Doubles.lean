import LineBasic.Number.Binary64
import Mathlib

/-!
Doubles and their bits. A double is built again from its sign and its magnitude
bits, and its negation has the same bits but for the sign.
-/

namespace LineBasic.Binary64

open Float.Model Float.Model.UnpackedFloat

/-- The bits of a double with a given sign and given magnitude bits. -/
def signedBits (negative : Bool) (magnitude : Nat) : UInt64 :=
  UInt64.ofNat ((if negative then signBit else 0) + magnitude)

section Magnitude

variable {negative : Bool} {magnitude : Nat}

theorem toNat_signedBits (h : magnitude ≤ infinityBits) :
    (signedBits negative magnitude).toNat = (if negative then signBit else 0) + magnitude := by
  rw [signedBits, UInt64.toNat_ofNat']
  apply Nat.mod_eq_of_lt
  unfold infinityBits at h
  cases negative <;> simp [signBit] <;> omega

theorem toNat_unpackExponent (b : BitVec 64) :
    (@unpackExponent .binary64 b).toNat = b.toNat / 2 ^ 52 % 2 ^ 11 := by
  simp [unpackExponent, Nat.shiftRight_eq_div_pow]

theorem toNat_unpackMantissa (b : BitVec 64) :
    (@unpackMantissa .binary64 b).toNat = b.toNat % 2 ^ 52 := by
  simp [unpackMantissa]

theorem toNat_unpackSign (b : BitVec 64) :
    (@unpackSign .binary64 b).toNat = b.toNat / 2 ^ 63 % 2 := by
  simp [unpackSign, Nat.shiftRight_eq_div_pow]

theorem toNat_toBitVec_signedBits (h : magnitude ≤ infinityBits) :
    (signedBits negative magnitude).toBitVec.toNat =
      (if negative then 2 ^ 63 else 0) + magnitude :=
  toNat_signedBits h

/-- Up to the bits of infinity no bits stand for a double that is not a number. -/
theorem valid_signedBits (h : magnitude ≤ infinityBits) :
    Format.binary64.Valid (signedBits negative magnitude).toBitVec := by
  constructor
  intro hexponent hmantissa
  apply absurd _ hmantissa
  apply BitVec.eq_of_toNat_eq
  have hfield := congrArg BitVec.toNat hexponent
  rw [toNat_unpackExponent, toNat_toBitVec_signedBits h] at hfield
  rw [toNat_unpackMantissa, toNat_toBitVec_signedBits h]
  change _ = 2047 at hfield
  change _ = 0
  unfold infinityBits at h
  cases negative <;> simp only [if_true, if_false, Bool.false_eq_true] at hfield ⊢ <;> omega

/-- Bits that are no more than those of infinity are the bits of the double
built from them. -/
theorem toBits_ofMagnitude (h : magnitude ≤ infinityBits) :
    (ofMagnitude negative magnitude).toBits = signedBits negative magnitude := by
  have hvalid : Format.binary64.Valid (signedBits negative magnitude).toBitVec :=
    valid_signedBits h
  exact congrArg UInt64.ofBitVec (pack_unpack_of_valid hvalid)

end Magnitude

theorem neg_unpack {b c : BitVec 64} (hsign : Sign.ofBitVec (@unpackSign .binary64 c) =
      -Sign.ofBitVec (@unpackSign .binary64 b))
    (hfield : @unpackExponent .binary64 c = @unpackExponent .binary64 b)
    (hfraction : @unpackMantissa .binary64 c = @unpackMantissa .binary64 b) :
    (UnpackedFloat.unpack .binary64 b).neg = UnpackedFloat.unpack .binary64 c := by
  simp only [UnpackedFloat.unpack, hsign, hfield, hfraction]
  split
  · split <;> rfl
  · split
    · split <;> rfl
    · rfl

/-- The sign bit is all that a negation changes. -/
theorem neg_ofMagnitude {magnitude : Nat} (h : magnitude ≤ infinityBits) :
    -ofMagnitude false magnitude = ofMagnitude true magnitude := by
  have hpositive : (signedBits false magnitude).toBitVec.toNat = magnitude := by
    simpa using @toNat_toBitVec_signedBits false _ h
  have hnegative : (signedBits true magnitude).toBitVec.toNat = 2 ^ 63 + magnitude := by
    simpa using @toNat_toBitVec_signedBits true _ h
  unfold infinityBits at h
  have hneg : (UnpackedFloat.unpack .binary64 (signedBits false magnitude).toBitVec).neg =
      UnpackedFloat.unpack .binary64 (signedBits true magnitude).toBitVec := by
    apply neg_unpack
    · have hzero : @unpackSign .binary64 (signedBits false magnitude).toBitVec = 0#1 := by
        apply BitVec.eq_of_toNat_eq
        rw [toNat_unpackSign, hpositive]
        change _ = 0
        omega
      have hone : @unpackSign .binary64 (signedBits true magnitude).toBitVec = 1#1 := by
        apply BitVec.eq_of_toNat_eq
        rw [toNat_unpackSign, hnegative]
        change _ = 1
        omega
      rw [hzero, hone]
      rfl
    · apply BitVec.eq_of_toNat_eq
      rw [toNat_unpackExponent, toNat_unpackExponent, hpositive, hnegative]
      omega
    · apply BitVec.eq_of_toNat_eq
      rw [toNat_unpackMantissa, toNat_unpackMantissa, hpositive, hnegative]
      omega
  have hbits : (ofMagnitude false magnitude).toBits = signedBits false magnitude :=
    toBits_ofMagnitude h
  have hmodel : (ofMagnitude false magnitude).toModel.unpack.neg =
      UnpackedFloat.unpack .binary64 (signedBits true magnitude).toBitVec := by
    rw [← hneg, ← hbits]
    rfl
  exact congrArg (fun u => Float.ofModel (Float.Model.pack u)) hmodel

theorem nearestBits_le (n d : Nat) : nearestBits n d ≤ infinityBits :=
  Nat.min_le_left _ _

theorem neg_ofRatio (n d : Nat) : -ofRatio false n d = ofRatio true n d := by
  have hle : (if n = 0 then 0 else nearestBits n d) ≤ infinityBits := by
    split
    · exact Nat.zero_le _
    · exact nearestBits_le n d
  exact neg_ofMagnitude hle

/-- A decimal is rounded alike on both sides of zero. -/
theorem neg_ofDecimal (coefficient : Nat) (exponent : Int) :
    -ofDecimal false coefficient exponent = ofDecimal true coefficient exponent := by
  have hzero : -ofMagnitude false 0 = ofMagnitude true 0 := neg_ofMagnitude (Nat.zero_le _)
  have hinfinity : -infinity false = infinity true := neg_ofMagnitude le_rfl
  unfold ofDecimal
  split
  · exact hzero
  split
  · exact hinfinity
  split
  · exact neg_ofRatio _ _
  split
  · exact hzero
  · exact neg_ofRatio _ _

/-- A double is put together again from its sign bit and its magnitude bits. -/
theorem eq_ofMagnitude (x : Float) :
    x = ofMagnitude (decide (signBit ≤ x.toBits.toNat)) (x.toBits.toNat % signBit) := by
  have hlt : x.toBits.toNat < 2 ^ 64 := x.toBits.toNat_lt
  have hbits : x.toBits =
      signedBits (decide (signBit ≤ x.toBits.toNat)) (x.toBits.toNat % signBit) := by
    apply UInt64.toNat_inj.mp
    rw [signedBits, UInt64.toNat_ofNat']
    by_cases hsign : signBit ≤ x.toBits.toNat
    · rw [decide_eq_true hsign, if_pos rfl]
      simp only [signBit] at hsign ⊢
      omega
    · rw [decide_eq_false hsign, if_neg Bool.false_ne_true]
      simp only [signBit] at hsign ⊢
      omega
  exact (Float.ofBits_toBits x).symm.trans (congrArg Float.ofBits hbits)

structure IsFinite (m : Nat) (e : Int) : Prop where
  mantissa_lt : m < 2 * hiddenBit
  exponent_ge : -1074 ≤ e
  exponent_le : e ≤ 971
  normal : hiddenBit ≤ m ∨ e = -1074

def finiteBits (m : Nat) (e : Int) : Nat := (e + 1074).toNat * hiddenBit + m

theorem IsFinite.finiteBits_lt {m : Nat} {e : Int} (h : IsFinite m e) :
    finiteBits m e < infinityBits := by
  have hm := h.mantissa_lt
  have he := h.exponent_le
  simp only [finiteBits, hiddenBit, infinityBits] at hm ⊢
  omega

section Decoding

variable {x : Float} {negative : Bool} {m : Nat} {e : Int}

/-- A finite double is what is read from its bits. -/
theorem finite_of_decode (h : decode x = .finite negative m e) :
    IsFinite m e ∧ x = ofMagnitude negative (finiteBits m e) := by
  have hx := eq_ofMagnitude x
  have hmagnitude : x.toBits.toNat % signBit < signBit := Nat.mod_lt _ (by decide)
  unfold decode at h
  simp only at h
  generalize x.toBits.toNat % signBit = magnitude at h hx hmagnitude
  have hsplit := Nat.div_add_mod magnitude hiddenBit
  have hfraction : magnitude % hiddenBit < hiddenBit := Nat.mod_lt _ (by decide)
  have hfield : magnitude / hiddenBit < 2048 :=
    (Nat.div_lt_iff_lt_mul (by decide)).mpr hmagnitude
  generalize magnitude / hiddenBit = field at h hsplit hfield
  generalize magnitude % hiddenBit = fraction at h hsplit hfraction
  simp only [hiddenBit] at hsplit hfraction
  split at h
  · split at h <;> cases h
  · next hlast =>
    split at h
    · next hzero =>
      simp only [Shape.finite.injEq] at h
      obtain ⟨rfl, rfl, rfl⟩ := h
      have hbits : finiteBits fraction (-1074) = magnitude := by
        simp only [finiteBits, hiddenBit]
        omega
      refine ⟨⟨by simp only [hiddenBit]; omega, by omega, by omega, .inr rfl⟩, ?_⟩
      rw [hbits]
      exact hx
    · next hpos =>
      simp only [Shape.finite.injEq] at h
      obtain ⟨rfl, rfl, rfl⟩ := h
      have hbits : finiteBits (hiddenBit + fraction) ((field : Int) - 1075) = magnitude := by
        simp only [finiteBits, hiddenBit]
        omega
      refine ⟨⟨by simp only [hiddenBit]; omega, by omega, by omega,
        .inl (Nat.le_add_right _ _)⟩, ?_⟩
      rw [hbits]
      exact hx

theorem infinity_of_decode (h : decode x = .infinite negative) : x = infinity negative := by
  have hx := eq_ofMagnitude x
  unfold decode at h
  simp only at h
  generalize x.toBits.toNat % signBit = magnitude at h hx
  have hsplit := Nat.div_add_mod magnitude hiddenBit
  split at h
  · next hfield =>
    split at h
    · next hfraction =>
      simp only [Shape.infinite.injEq] at h
      rw [hfield, hfraction] at hsplit
      subst h hsplit
      exact hx
    · cases h
  · split at h <;> cases h

end Decoding

end LineBasic.Binary64
