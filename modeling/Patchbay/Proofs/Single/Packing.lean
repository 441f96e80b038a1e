import Patchbay.Proofs.Single.Rounding

/-! # Packing

A number of a format keeps its sign, significand and exponent in its bits, so packing and unpacking
undo each other. -/

namespace Patchbay.Single

open Float.Model (Format UnpackedFloat)
open Float.Model.UnpackedFloat (Sign pack unpack packComponents packedInfinity packedZero
  unpackMantissa unpackExponent unpackSign)

variable {format : Format} {m : ℕ} {e : ℤ} {sign : Sign}

/-! ## The parts of a number -/

theorem ofBitVec_toBitVec (sign : Sign) : Sign.ofBitVec sign.toBitVec = sign := by
  cases sign <;> rfl

theorem toBitVec_ofBitVec (b : BitVec 1) : (Sign.ofBitVec b).toBitVec = b := by
  decide +revert

theorem unpackSign_eq (b : BitVec format.numBits) :
    unpackSign b = (b.extractLsb (format.mantissaBitsWithoutImplicit + format.exponentBits)
      (format.mantissaBitsWithoutImplicit + format.exponentBits)).cast (by omega) := rfl

@[simp] theorem unpackSign_packComponents (sign : Sign) (exponent : BitVec format.exponentBits)
    (mantissa : BitVec format.mantissaBitsWithoutImplicit) :
    unpackSign (packComponents format sign exponent mantissa) = sign.toBitVec := by
  ext i hi
  obtain rfl : i = 0 := by omega
  simp [unpackSign_eq, packComponents, BitVec.getLsbD_append, BitVec.getElem_append]

/-- A number is made of its parts. -/
theorem packComponents_unpack (b : BitVec format.numBits) :
    packComponents format (Sign.ofBitVec (unpackSign b)) (unpackExponent b) (unpackMantissa b) =
      b := by
  ext i hi
  simp only [packComponents, toBitVec_ofBitVec, unpackSign_eq, unpackExponent, unpackMantissa,
    BitVec.getElem_append, BitVec.getElem_cast, BitVec.getElem_extract, Nat.zero_add]
  rw [← BitVec.getLsbD_eq_getElem hi]
  split
  · rfl
  · split <;> congr 1 <;> omega

theorem toNat_append_mantissa (b : BitVec format.mantissaBitsWithoutImplicit) :
    (1#1 ++ b).toNat = 2 ^ format.mantissaBitsWithoutImplicit + b.toNat := by
  rw [BitVec.toNat_append, ← Nat.shiftLeft_add_eq_or_of_lt b.isLt]
  simp [Nat.shiftLeft_eq]

/-- The leading bit of a significand is not stored. -/
theorem ofNat_two_pow_add (b : BitVec format.mantissaBitsWithoutImplicit) :
    BitVec.ofNat format.mantissaBitsWithoutImplicit
      (2 ^ format.mantissaBitsWithoutImplicit + b.toNat) = b := by
  apply BitVec.eq_of_toNat_eq
  rw [BitVec.toNat_ofNat, Nat.add_mod_left, Nat.mod_eq_of_lt b.isLt]

theorem toNat_neg_one (n : ℕ) : (-1#n : BitVec n).toNat = 2 ^ n - 1 := by
  rw [BitVec.neg_one_eq_allOnes, BitVec.toNat_allOnes]

theorem minExponent_add (format : Format) :
    format.minExponent + format.exponentBias + format.mantissaBitsWithoutImplicit = 1 := by
  have hbias : 1 ≤ 2 ^ (format.exponentBits - 1) := Nat.one_le_two_pow
  unfold Format.minExponent Format.exponentBias
  rw [mantissaBits_eq]
  push_cast [hbias]
  ring

theorem scaled_of_pos (h : 0 < m) (sign : Sign) (e : ℤ) :
    scaled sign m e = .finite sign m e h := dif_neg h.ne'

theorem scaled_inj {sign' : Sign} {m' : ℕ} {e' : ℤ} (h : 0 < m)
    (heq : scaled sign' m' e' = scaled sign m e) : sign' = sign ∧ m' = m ∧ e' = e := by
  rw [scaled_of_pos h] at heq
  rcases Nat.eq_zero_or_pos m' with rfl | hpos
  · have hzero : scaled sign' 0 e' = .zero sign' := rfl
    rw [hzero] at heq
    cases heq
  · rw [scaled_of_pos hpos] at heq
    cases heq
    exact ⟨rfl, rfl, rfl⟩

/-- The highest exponent is that of infinities and NaN. -/
theorem unpack_of_highest {b : BitVec format.numBits} (h : unpackExponent b = -1#_) :
    unpack format b = if unpackMantissa b = 0#_ then
      .infinity (Sign.ofBitVec (unpackSign b)) else .notANumber := if_pos h

/-- What the parts of a number stand for, unless they are those of an infinity or NaN. -/
theorem unpack_eq {b : BitVec format.numBits} (h : unpackExponent b ≠ -1#_) :
    unpack format b =
      if unpackExponent b = 0#_ then
        scaled (Sign.ofBitVec (unpackSign b)) (unpackMantissa b).toNat format.minExponent
      else
        scaled (Sign.ofBitVec (unpackSign b))
          (2 ^ format.mantissaBitsWithoutImplicit + (unpackMantissa b).toNat)
          ((unpackExponent b).toNat -
            (format.exponentBias + format.mantissaBitsWithoutImplicit)) := by
  have hleast := minExponent_add format
  refine (if_neg h).trans ?_
  by_cases hzero : unpackExponent b = 0#_
  · rw [if_pos hzero, if_pos hzero]
    by_cases hnone : unpackMantissa b = 0#_
    · rw [dif_pos hnone, hnone, BitVec.toNat_zero]
      rfl
    · have hexponent : ((unpackExponent b).toNat : ℤ) -
          (format.exponentBias + format.mantissaBitsWithoutImplicit) + 1 = format.minExponent := by
        rw [hzero, BitVec.toNat_zero, Nat.cast_zero]
        omega
      rw [dif_neg hnone, ← hexponent]
      exact (scaled_of_pos (BitVec.toNat_pos_of_ne_zero hnone) _ _).symm
  · have hpos : 0 < (1#1 ++ unpackMantissa b).toNat := by
      rw [toNat_append_mantissa]
      exact Nat.add_pos_left (Nat.two_pow_pos _) _
    rw [if_neg hzero, if_neg hzero, ← toNat_append_mantissa]
    exact (scaled_of_pos hpos _ _).symm

/-! ## Numbers of a format -/

/-- A significand and an exponent with which a format writes a number, the exponent in its range. -/
structure Representable (format : Format) (m : ℕ) (e : ℤ) : Prop extends Canonical format m e where
  pos : 0 < m
  bounded : e + format.exponentBias + format.mantissaBitsWithoutImplicit + 1 <
    2 ^ format.exponentBits

/-- The parts of a number of a format. -/
theorem pack_eq (h : Representable format m e) (sign : Sign) :
    pack format (.finite sign m e h.pos) =
      packComponents format sign
        (if 2 ^ format.mantissaBitsWithoutImplicit ≤ m then
          BitVec.ofNat _ (e + format.exponentBias + format.mantissaBitsWithoutImplicit).toNat
        else 0#_)
        (BitVec.ofNat _ m) := by
  have hleast := minExponent_add format
  have hplace := h.least
  have hbounded : ¬ 2 ^ format.exponentBits ≤
      (e + format.exponentBias + format.mantissaBitsWithoutImplicit).toNat + 1 := by
    have hbounded := h.bounded
    zify
    omega
  refine (if_neg hbounded).trans ?_
  by_cases hm : 2 ^ format.mantissaBitsWithoutImplicit ≤ m
  · have hlog : m.log2 + 1 = format.mantissaBits := by
      have hlow := (Nat.le_log2 h.pos.ne').mpr hm
      have hhigh := (Nat.log2_lt h.pos.ne').mpr h.fits
      rw [mantissaBits_eq] at hhigh ⊢
      omega
    rw [if_pos hlog, if_pos hm]
  · have hlog : m.log2 + 1 ≠ format.mantissaBits := by
      have hhigh := (Nat.log2_lt h.pos.ne').mpr (Nat.lt_of_not_le hm)
      rw [mantissaBits_eq]
      omega
    rw [if_neg hlog, if_neg hm]

theorem unpack_pack (h : Representable format m e) (sign : Sign) :
    unpack format (pack format (.finite sign m e h.pos)) = .finite sign m e h.pos := by
  have hleast := minExponent_add format
  have hplace := h.least
  have hbounded := h.bounded
  obtain ⟨k, hk⟩ : ∃ k : ℕ, e + format.exponentBias + format.mantissaBitsWithoutImplicit = k :=
    Int.eq_ofNat_of_zero_le (by omega)
  have hlt : k + 1 < 2 ^ format.exponentBits := by
    rw [hk] at hbounded
    exact_mod_cast hbounded
  have hexponent : (BitVec.ofNat format.exponentBits k).toNat = k := by
    rw [BitVec.toNat_ofNat, Nat.mod_eq_of_lt (by omega)]
  have hone := toNat_neg_one format.exponentBits
  rw [pack_eq h sign, hk, Int.toNat_natCast, ← scaled_of_pos h.pos, unpack_eq] <;>
    simp only [Float.Model.UnpackedFloat.unpackMantissa_packComponents,
      Float.Model.UnpackedFloat.unpackExponent_packComponents, unpackSign_packComponents,
      ofBitVec_toBitVec]
  · split
    next hm =>
      have hzero : BitVec.ofNat format.exponentBits k ≠ 0#_ := by
        intro heq
        rw [heq, BitVec.toNat_zero] at hexponent
        omega
      rw [if_neg hzero, hexponent, BitVec.toNat_ofNat, Nat.mod_eq_sub_mod hm, Nat.mod_eq_of_lt]
      · congr 1 <;> omega
      · have hfits := h.fits
        rw [two_pow_mantissaBits] at hfits
        omega
    next hm =>
      rw [if_pos rfl, BitVec.toNat_ofNat, Nat.mod_eq_of_lt (Nat.lt_of_not_le hm),
        h.full.resolve_right hm]
  · intro heq
    have htoNat := congrArg BitVec.toNat heq
    rw [hone] at htoNat
    split at htoNat
    · omega
    · rw [BitVec.toNat_zero] at htoNat
      omega

/-- What is unpacked is a number of the format. -/
theorem representable_unpack (hbits : 1 < format.exponentBits) {b : BitVec format.numBits}
    {h : 0 < m} (hb : unpack format b = .finite sign m e h) : Representable format m e := by
  have hleast := minExponent_add format
  have htwo := two_pow_mantissaBits format
  have hmantissa := (unpackMantissa b).isLt
  have hspecial : unpackExponent b ≠ -1#_ := by
    intro heq
    rw [unpack_of_highest heq] at hb
    by_cases hpayload : unpackMantissa b = 0#_
    · rw [if_pos hpayload] at hb
      cases hb
    · rw [if_neg hpayload] at hb
      cases hb
  rw [unpack_eq hspecial, ← scaled_of_pos h] at hb
  split at hb
  next hzero =>
    obtain ⟨-, rfl, rfl⟩ := scaled_inj h hb
    have hfour : (2 : ℤ) ^ 2 ≤ 2 ^ format.exponentBits := pow_le_pow_right₀ one_le_two hbits
    exact ⟨⟨le_rfl, by omega, .inl rfl⟩, h, by omega⟩
  next hzero =>
    obtain ⟨-, rfl, rfl⟩ := scaled_inj h hb
    have hpos : 0 < (unpackExponent b).toNat := BitVec.toNat_pos_of_ne_zero hzero
    have hlt : (unpackExponent b).toNat + 1 < 2 ^ format.exponentBits := by
      have hne : (unpackExponent b).toNat ≠ 2 ^ format.exponentBits - 1 := fun hall =>
        hspecial (BitVec.eq_of_toNat_eq (by rw [hall, toNat_neg_one]))
      have := (unpackExponent b).isLt
      omega
    zify at hlt
    exact ⟨⟨by omega, by omega, .inr (by omega)⟩, h, by omega⟩

/-- Only a NaN could lose bits, and a valid one does not. -/
theorem pack_unpack (format : Format) (hbits : 1 < format.exponentBits) {b : BitVec format.numBits}
    (h : format.Valid b) : pack format (unpack format b) = b := by
  have hparts := packComponents_unpack b
  by_cases hspecial : unpackExponent b = -1#_
  · by_cases hpayload : unpackMantissa b = 0#_
    · rw [unpack_of_highest hspecial, if_pos hpayload]
      rw [hspecial, hpayload] at hparts
      exact hparts
    · rw [unpack_of_highest hspecial, if_neg hpayload]
      exact (h.eq_packedNaN hspecial hpayload).symm
  · have hvalue := unpack_eq hspecial
    have hleast := minExponent_add format
    by_cases hzero : unpackExponent b = 0#_
    · rw [if_pos hzero] at hvalue
      rw [hzero] at hparts
      by_cases hnone : unpackMantissa b = 0#_
      · rw [hvalue, hnone, BitVec.toNat_zero]
        rwa [hnone] at hparts
      · have hpos : 0 < (unpackMantissa b).toNat := BitVec.toNat_pos_of_ne_zero hnone
        rw [scaled_of_pos hpos] at hvalue
        rw [hvalue, pack_eq (representable_unpack hbits hvalue),
          if_neg (Nat.not_le.mpr (unpackMantissa b).isLt), BitVec.ofNat_toNat, BitVec.setWidth_eq]
        exact hparts
    · rw [if_neg hzero, scaled_of_pos (Nat.add_pos_left (Nat.two_pow_pos _) _)] at hvalue
      have hexponent : (((unpackExponent b).toNat : ℤ) -
          (format.exponentBias + format.mantissaBitsWithoutImplicit) + format.exponentBias +
          format.mantissaBitsWithoutImplicit).toNat = (unpackExponent b).toNat := by omega
      rw [hvalue, pack_eq (representable_unpack hbits hvalue), if_pos (Nat.le_add_right ..),
        ofNat_two_pow_add, hexponent, BitVec.ofNat_toNat, BitVec.setWidth_eq]
      exact hparts

end Patchbay.Single
