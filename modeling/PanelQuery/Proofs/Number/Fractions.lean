import Mathlib
import PanelQuery.Number.Scalar

/-! # The whole of a count

A count that is divided by itself is exactly one. The counts are rounded to floats first, and so is
the quotient, but a count below the size of a word becomes a positive float that is neither too
small nor too large, and the quotient of two equal ones is exact.

* **`shiftToTargetExponent_of_digits`, `roundWithAccuracy_of_digits`** — rounding a number that has
  more digits than a float;
* **`unpack_pack_of_digits`** — a float with all digits is stored as it is;
* **`IsNormal`** — positive floats with all digits, and where their first digit may be;
* **`IsNormal.div_self`** — such a float divided by itself;
* **`Scalar.ofNat_div_self`** — counts. -/

namespace PanelQuery

open Float.Model Float.Model.UnpackedFloat

/-! ## (1) Digits -/

/-- `(m / 2).log2 = m.log2 - 1`: one digit less. -/
theorem log2_half {m : Nat} (h : 0 < m.log2) : (m / 2).log2 = m.log2 - 1 := by
  have hdef := Nat.log2_def m
  by_cases hm : 2 ≤ m
  · rw [hdef, if_pos hm, Nat.add_sub_cancel]
  · rw [hdef, if_neg hm] at h
    exact absurd h (Nat.lt_irrefl 0)

/-- `(m <<< k).log2 = m.log2 + k`: more digits at the end. -/
theorem log2_shiftLeft {m : Nat} (h : m ≠ 0) (k : Nat) : (m <<< k).log2 = m.log2 + k := by
  induction k with
  | zero => rfl
  | succ k ih =>
    have hne : m <<< k ≠ 0 := fun hzero => h (Nat.shiftLeft_eq_zero_iff.1 hzero)
    rw [Nat.shiftLeft_succ, Nat.log2_two_mul hne, ih, Nat.add_assoc]

/-- A number with more than one digit is not zero: `m ≠ 0`. -/
theorem ne_zero_of_log2_pos {m : Nat} (h : 0 < m.log2) : m ≠ 0 := by
  rintro rfl
  rw [Nat.log2_zero] at h
  exact absurd h (Nat.lt_irrefl 0)

/-- `(m + 1).log2 = m.log2 ∨ (m + 1).log2 = m.log2 + 1`: the next number has as many digits, or one
more. -/
theorem log2_succ {m : Nat} (h : m ≠ 0) :
    (m + 1).log2 = m.log2 ∨ (m + 1).log2 = m.log2 + 1 := by
  obtain ⟨hlow, hhigh⟩ := (Nat.log2_eq_iff h).1 rfl
  by_cases hcarry : m + 1 = 2 ^ (m.log2 + 1)
  · exact .inr (by rw [hcarry, Nat.log2_two_pow])
  · refine .inl ((Nat.log2_eq_iff (Nat.succ_ne_zero m)).2 ⟨?_, ?_⟩)
    · exact Nat.le_succ_of_le hlow
    · exact Nat.lt_of_le_of_ne hhigh hcarry

/-! ## (2) Rounding -/

/-- `(k.repeat ExtendedMantissa.shiftRightOne em).mantissa.log2 = em.mantissa.log2 - k`: digits that
are dropped at the end, one by one. -/
theorem log2_repeat_shiftRightOne (em : ExtendedMantissa) {k : Nat} (h : k ≤ em.mantissa.log2) :
    (k.repeat ExtendedMantissa.shiftRightOne em).mantissa.log2 = em.mantissa.log2 - k := by
  induction k with
  | zero => rfl
  | succ k ih =>
    have ih := ih (Nat.le_of_succ_le h)
    show ((k.repeat ExtendedMantissa.shiftRightOne em).mantissa / 2).log2 = _
    rw [log2_half (by omega), ih]
    omega

/-- **Dropping the digits that a float has no room for** leaves 53 of them: there is `em` with
`shiftToTargetExponent .binary64 m e .exact = (em, e + (m.log2 - 52 : Nat))` and
`em.mantissa.log2 = 52`. -/
theorem shiftToTargetExponent_of_digits {m : Nat} {e : Int} (hm : 52 ≤ m.log2)
    (he : -1000 ≤ m.log2 + e) :
    ∃ em, shiftToTargetExponent .binary64 m e .exact = (em, e + (m.log2 - 52 : Nat)) ∧
      em.mantissa.log2 = 52 := by
  have htarget : Format.binary64.targetExponent (totalExponent m e) - e = (m.log2 - 52 : Nat) := by
    show max ((m.log2 : Int) + 1 + e - 53) (-1074) - e = _
    omega
  refine ⟨(m.log2 - 52).repeat ExtendedMantissa.shiftRightOne ⟨m, false, false⟩, ?_, ?_⟩
  · rw [shiftToTargetExponent, shiftToExponent, htarget, Int.toNat_natCast]
    rfl
  · have hdigits := log2_repeat_shiftRightOne ⟨m, false, false⟩ (Nat.sub_le m.log2 52)
    exact hdigits.trans (Nat.sub_sub_self hm)

/-- `em.roundedMantissa.log2 = 52 ∨ em.roundedMantissa.log2 = 53`: rounding does not change the
number of digits, but for a carry. -/
theorem log2_roundedMantissa {em : ExtendedMantissa} (h : em.mantissa.log2 = 52) :
    em.roundedMantissa.log2 = 52 ∨ em.roundedMantissa.log2 = 53 := by
  have hne : em.mantissa ≠ 0 := ne_zero_of_log2_pos (by rw [h]; decide)
  have hsucc : (em.mantissa + 1).log2 = 52 ∨ (em.mantissa + 1).log2 = 53 := by
    have hdigits := log2_succ hne
    rwa [h] at hdigits
  obtain ⟨m, roundBit, stickyBit⟩ := em
  cases roundBit with
  | false =>
    cases stickyBit with
    | false => exact .inl h
    | true => exact .inl h
  | true =>
    cases stickyBit with
    | false =>
      -- halfway, to the even one of both
      show (m + m % 2).log2 = 52 ∨ (m + m % 2).log2 = 53
      obtain heven | hodd := Nat.mod_two_eq_zero_or_one m
      · rw [heven]
        exact .inl h
      · rw [hodd]
        exact hsucc
    | true => exact hsucc

/-- **Rounding a number that has at least as many digits as a float** leaves a float with all
digits, whose first digit is where it was or one place further: there are `m'`, `e'` and `h` with
`roundWithAccuracy .binary64 .positive m e .exact = .finite .positive m' e' h`, `m'.log2 = 52`,
`m.log2 + e ≤ 52 + e'` and `52 + e' ≤ m.log2 + e + 1`. -/
theorem roundWithAccuracy_of_digits {m : Nat} {e : Int} (hm : 52 ≤ m.log2)
    (he : -1000 ≤ m.log2 + e) :
    ∃ m' e' h, roundWithAccuracy .binary64 .positive m e .exact = .finite .positive m' e' h ∧
      m'.log2 = 52 ∧ m.log2 + e ≤ 52 + e' ∧ 52 + e' ≤ m.log2 + e + 1 := by
  obtain ⟨em, hfirst, hem⟩ := shiftToTargetExponent_of_digits hm he
  have hrounded := log2_roundedMantissa hem
  -- a carry makes room for one digit less
  obtain ⟨em', hsecond, hem'⟩ := shiftToTargetExponent_of_digits (m := em.roundedMantissa)
    (e := e + (m.log2 - 52 : Nat)) (by omega) (by omega)
  have hne : em'.mantissa ≠ 0 := ne_zero_of_log2_pos (by rw [hem']; decide)
  refine ⟨em'.mantissa, e + (m.log2 - 52 : Nat) + (em.roundedMantissa.log2 - 52 : Nat),
    Nat.pos_of_ne_zero hne, ?_, hem', ?_, ?_⟩
  · rw [roundWithAccuracy, hfirst]
    dsimp only
    rw [hsecond]
    dsimp only
    rw [dif_neg hne]
  · omega
  · omega

/-! ## (3) Storing -/

/-- `Sign.ofBitVec (unpackSign (packComponents .binary64 sign exponent mantissa)) = sign`: the sign
of a float is read back. -/
theorem unpackSign_packComponents (sign : Sign) (exponent : BitVec 11) (mantissa : BitVec 52) :
    Sign.ofBitVec (unpackSign (packComponents .binary64 sign exponent mantissa)) = sign := by
  simp only [unpackSign, packComponents, BitVec.extractLsb]
  rw [BitVec.extractLsb'_append_eq_of_le (by omega),
    BitVec.extractLsb'_append_eq_of_le (by omega)]
  cases sign with
  | positive => rfl
  | negative => rfl

/-- **A float with all digits is stored as it is**, unless it is too small or too large:
`(Float.Model.pack (.finite .positive m e h)).unpack = .finite .positive m e h`. -/
theorem unpack_pack_of_digits {m : Nat} {e : Int} {h : 0 < m} (hm : m.log2 = 52)
    (hlow : -1000 ≤ e) (hhigh : e ≤ 900) :
    (Float.Model.pack (.finite .positive m e h)).unpack = .finite .positive m e h := by
  obtain ⟨hle, hlt⟩ := (Nat.log2_eq_iff (Nat.ne_of_gt h)).1 hm
  -- the first digit is left out, and put in front again
  have hmantissa : (1#1 ++ BitVec.ofNat 52 m).toNat = m := by
    rw [BitVec.toNat_append, ← Nat.shiftLeft_add_eq_or_of_lt (BitVec.ofNat 52 m).isLt,
      BitVec.toNat_ofNat, BitVec.toNat_ofNat, Nat.shiftLeft_eq]
    omega
  have hexponent : (BitVec.ofNat 11 (e + 1075).toNat).toNat = (e + 1075).toNat := by
    rw [BitVec.toNat_ofNat]
    omega
  have hfinite : BitVec.ofNat 11 (e + 1075).toNat ≠ -1#11 := by
    intro heq
    have hall : (e + 1075).toNat = 2047 := hexponent.symm.trans (congrArg BitVec.toNat heq)
    omega
  have hnormal : BitVec.ofNat 11 (e + 1075).toNat ≠ 0#11 := by
    intro heq
    have hnone : (e + 1075).toNat = 0 := hexponent.symm.trans (congrArg BitVec.toNat heq)
    omega
  have hpack : UnpackedFloat.pack .binary64 (.finite .positive m e h) =
      packComponents .binary64 .positive (BitVec.ofNat 11 (e + 1075).toNat)
        (BitVec.ofNat 52 m) := by
    have hbias : (e + Format.binary64.exponentBias + Format.binary64.mantissaBitsWithoutImplicit) =
        e + 1075 := by
      show e + 1023 + 52 = e + 1075
      omega
    have hfits : ¬2 ^ Format.binary64.exponentBits ≤ (e + 1075).toNat + 1 := by
      show ¬2 ^ 11 ≤ (e + 1075).toNat + 1
      omega
    have hdigits : m.log2 + 1 = Format.binary64.mantissaBits := by
      rw [hm]
      rfl
    rw [UnpackedFloat.pack, hbias]
    dsimp only
    rw [if_neg hfits, if_pos hdigits]
  show UnpackedFloat.unpack .binary64 (UnpackedFloat.pack .binary64 (.finite .positive m e h)) = _
  rw [hpack, UnpackedFloat.unpack]
  simp only [unpackMantissa_packComponents, unpackExponent_packComponents,
    unpackSign_packComponents, if_neg hfinite, if_neg hnormal, hmantissa, hexponent]
  have hback : ((e + 1075).toNat : Int) -
      (Format.binary64.exponentBias + Format.binary64.mantissaBitsWithoutImplicit) = e := by
    show ((e + 1075).toNat : Int) - (1023 + 52) = e
    omega
  rw [hback]

/-! ## (4) Floats with all digits -/

/-- `IsNormal low high f`: a positive float with all digits, the first of which stands between two
places. -/
def IsNormal (low high : Int) (f : Float.Model) : Prop :=
  ∃ m e h, f.unpack = .finite .positive m e h ∧ m.log2 = 52 ∧ low ≤ 52 + e ∧ 52 + e ≤ high

/-- The places may be told less exactly: `IsNormal low' high' f`. -/
theorem IsNormal.mono {low high low' high' : Int} {f : Float.Model} (h : IsNormal low high f)
    (hlow : low' ≤ low) (hhigh : high ≤ high') : IsNormal low' high' f := by
  obtain ⟨m, e, hpos, hf, hm, hle, hge⟩ := h
  exact ⟨m, e, hpos, hf, hm, Int.le_trans hlow hle, Int.le_trans hge hhigh⟩

/-- Rounding leaves a float with all digits: `IsNormal (m.log2 + e) (m.log2 + e + 1)
(Float.Model.pack (roundWithAccuracy .binary64 .positive m e .exact))`. -/
theorem isNormal_pack_round {m : Nat} {e : Int} (hm : 52 ≤ m.log2) (hlow : -900 ≤ m.log2 + e)
    (hhigh : m.log2 + e ≤ 900) :
    IsNormal (m.log2 + e) (m.log2 + e + 1)
      (Float.Model.pack (roundWithAccuracy .binary64 .positive m e .exact)) := by
  obtain ⟨m', e', h, hround, hm', hlow', hhigh'⟩ := roundWithAccuracy_of_digits hm
    (Int.le_trans (by decide) hlow)
  refine ⟨m', e', h, ?_, hm', hlow', hhigh'⟩
  rw [hround]
  exact unpack_pack_of_digits hm' (by omega) (by omega)

/-- **A float with all digits divided by itself is one**: `f / f = (1 : Float).toModel`. -/
theorem IsNormal.div_self {low high : Int} {f : Float.Model} (h : IsNormal low high f) :
    f / f = (1 : Float).toModel := by
  obtain ⟨m, e, hpos, hf, -, -, -⟩ := h
  have hcore : divCore .binary64 m e m e = (9007199254740992, -53, .exact) := by
    have htarget : min (e - e) (Format.binary64.targetExponent
        (totalExponent m e - totalExponent m e)) = -53 := by
      rw [Int.sub_self, Int.sub_self]
      rfl
    have hshift : m <<< 53 = m * 9007199254740992 := Nat.shiftLeft_eq m 53
    rw [divCore, htarget, Int.sub_self]
    show ((m <<< 53) / m, (-53 : Int), accuracyOfFraction ((m <<< 53) % m) m) = _
    rw [hshift, Nat.mul_div_cancel_left _ hpos, Nat.mul_mod_right]
    rfl
  show Float.Model.pack (UnpackedFloat.div .binary64 f.unpack f.unpack) = _
  rw [hf, UnpackedFloat.div, hcore]
  decide +kernel

/-- Times one, a float with all digits stays one:
`IsNormal low (high + 1) (f * .ofBits 0x3FF0000000000000)`. -/
theorem IsNormal.mul_one {low high : Int} {f : Float.Model} (h : IsNormal low high f)
    (hlow : -900 ≤ low) (hhigh : high ≤ 900) :
    IsNormal low (high + 1) (f * .ofBits 0x3FF0000000000000) := by
  obtain ⟨m, e, hpos, hf, hm, hlow', hhigh'⟩ := h
  have hone : (Float.Model.ofBits 0x3FF0000000000000).unpack =
      .finite .positive 4503599627370496 (-52) (by decide) := rfl
  have hdigits : (m * 4503599627370496).log2 = 104 := by
    have hshift := log2_shiftLeft (Nat.ne_of_gt hpos) 52
    rwa [Nat.shiftLeft_eq, hm] at hshift
  have hround := isNormal_pack_round (m := m * 4503599627370496) (e := e + -52)
    (by omega) (by omega) (by omega)
  show IsNormal low (high + 1) (Float.Model.pack (UnpackedFloat.mul .binary64 f.unpack _))
  rw [hf, hone]
  exact hround.mono (by omega) (by omega)

/-! ## (5) Counts -/

/-- A count as a word becomes a float with all digits: `IsNormal 0 64 (.ofUInt64 n)`. -/
theorem isNormal_ofUInt64 {n : UInt64} (hpos : 0 < n.toNat) :
    IsNormal 0 64 (.ofUInt64 n) := by
  have hdigits : n.toNat.log2 < 64 := (Nat.log2_lt (Nat.ne_of_gt hpos)).2 n.toNat_lt
  have htarget : (0 - Format.binary64.targetExponent (totalExponent n.toNat 0)).toNat =
      52 - n.toNat.log2 := by
    show (0 - max ((n.toNat.log2 : Int) + 1 + 0 - 53) (-1074)).toNat = _
    omega
  have hshift := log2_shiftLeft (Nat.ne_of_gt hpos) (52 - n.toNat.log2)
  have hround := isNormal_pack_round (m := n.toNat <<< (52 - n.toNat.log2))
    (e := 0 - (52 - n.toNat.log2 : Nat)) (by omega) (by omega) (by omega)
  have hofNat : UnpackedFloat.ofUInt64 .binary64 n = roundWithAccuracy .binary64 .positive
      (n.toNat <<< (52 - n.toNat.log2)) (0 - (52 - n.toNat.log2 : Nat)) .exact := by
    rw [UnpackedFloat.ofUInt64, UnpackedFloat.ofNat, UnpackedFloat.ofInt, UnpackedFloat.normalize,
      Int.compare_eq_gt.2 (Int.natCast_pos.2 hpos)]
    dsimp only
    rw [Int.toNat_natCast, Float.Model.UnpackedFloat.round, decreaseExponent, htarget]
  rw [Float.Model.ofUInt64, hofNat]
  exact hround.mono (by omega) (by omega)

/-- A count below the size of a word is a float with all digits:
`IsNormal 0 66 (Float.ofNat n).toModel`. -/
theorem isNormal_ofNat {n : Nat} (hpos : 0 < n) (hn : n < UInt64.size) :
    IsNormal 0 66 (Float.ofNat n).toModel := by
  have hdigits : n.log2 < 64 := (Nat.log2_lt (Nat.ne_of_gt hpos)).2 hn
  show IsNormal 0 66 (Float.ofScientific n false 0).toModel
  unfold Float.ofScientific
  split
  · -- a count that is a float is multiplied by one
    have hword : n.toUInt64.toNat = n := Nat.mod_eq_of_lt hn
    have hnormal : IsNormal 0 64 (.ofUInt64 n.toUInt64) := isNormal_ofUInt64 (hword.symm ▸ hpos)
    exact (hnormal.mul_one (by decide) (by decide)).mono (by decide) (by decide)
  · have hdigits' : (n <<< 53 * 1).log2 = n.log2 + 53 := by
      rw [Nat.mul_one, log2_shiftLeft (Nat.ne_of_gt hpos)]
    have hround := isNormal_pack_round (m := n <<< 53 * 1) (e := -53 + 0)
      (by omega) (by omega) (by omega)
    have hscientific : UnpackedFloat.ofScientific .binary64 n 0 =
        roundWithAccuracy .binary64 .positive (n <<< 53 * 1) (-53 + 0) .exact := by
      have hsmall : ¬(0 : Int) < -((2 ^ Format.binary64.exponentBits : Int) + n.log2) := by
        show ¬(0 : Int) < -(2048 + (n.log2 : Int))
        omega
      rw [UnpackedFloat.ofScientific, dif_neg (Nat.ne_of_gt hpos), if_neg (by decide),
        if_neg hsmall, if_pos (by decide)]
      rfl
    have hnormal : IsNormal 0 66 (.ofScientific n 0) := by
      rw [Float.Model.ofScientific, hscientific]
      exact hround.mono (by omega) (by omega)
    exact hnormal

/-- **The whole of a count is one**: `(Scalar.ofNat n / Scalar.ofNat n : Float) = 1`. -/
theorem Scalar.ofNat_div_self {n : Nat} (hpos : 0 < n) (hn : n < UInt64.size) :
    (Scalar.ofNat n / Scalar.ofNat n : Float) = 1 := by
  show Float.ofModel ((Float.ofNat n).toModel / (Float.ofNat n).toModel) = 1
  rw [(isNormal_ofNat hpos hn).div_self]

end PanelQuery
