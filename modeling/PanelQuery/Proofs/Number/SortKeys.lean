import PanelQuery.Proofs.Statistics

/-! # Sort keys of floats

`Float.toBits` is a sign above eleven bits of exponent and 52 of mantissa, and `<` compares what
these are unpacked to. Below the sign, the bits count the numbers of one sign from zero on. So
`floatSortKey` puts numbers in an order that `<` agrees with, `-0.0` right before `0.0`, and tells all
floats apart.

* **`Encodes s n u`** — a number `u` of sign `s` whose bits below the sign are `n`;
* **`encodes_unpack`** — every float is `NaN` or such a number;
* **`Encodes.compare_eq`** — numbers compare as their signed bits `s.apply n`;
* **`floatSortKey_injective`, `floatSortKey_lt_of_lt`, `le_of_floatSortKey_le`,
  `floatSortKey_le_of_isNaN`** — the order of keys against `=`, `<`, `≤` and `NaN`;
* **`floatSortKey_eq_toInt`** — keys as signed words, those below zero with their bits flipped;
* **`Scalar.sorted_pairwise_le`** — sorted numbers are in order. -/

namespace PanelQuery

open Float.Model Float.Model.UnpackedFloat

/-! ## (1) The bits of a float -/

/-- `unpackMantissa b` is the lowest 52 bits. -/
theorem toNat_unpackMantissa (b : BitVec 64) :
    (@unpackMantissa .binary64 b).toNat = b.toNat % 2 ^ 52 := by
  show (BitVec.extractLsb 51 0 b).toNat = _
  rw [BitVec.extractLsb_toNat, Nat.shiftRight_zero]

/-- `unpackExponent b` is the eleven bits above them. -/
theorem toNat_unpackExponent (b : BitVec 64) :
    (@unpackExponent .binary64 b).toNat = b.toNat / 2 ^ 52 % 2 ^ 11 := by
  show (BitVec.extractLsb 62 52 b).toNat = _
  rw [BitVec.extractLsb_toNat, Nat.shiftRight_eq_div_pow]

/-- `unpackSign b` is the bit that is left. -/
theorem toNat_unpackSign (b : BitVec 64) :
    (@unpackSign .binary64 b).toNat = b.toNat / 2 ^ 63 := by
  show (BitVec.extractLsb 63 63 b).toNat = _
  rw [BitVec.extractLsb_toNat, Nat.shiftRight_eq_div_pow]
  exact Nat.mod_eq_of_lt (Nat.div_lt_of_lt_mul b.isLt)

/-- The word that has a sign and no other bits. -/
def signWord : Sign → Nat
  | .positive => 0
  | .negative => 2 ^ 63

/-- `signWord (.ofBitVec (@unpackSign .binary64 b)) + b.toNat % 2 ^ 63 = b.toNat`: a word is its
sign and the bits below it. -/
theorem signWord_add (b : BitVec 64) :
    signWord (.ofBitVec (@unpackSign .binary64 b)) + b.toNat % 2 ^ 63 = b.toNat := by
  have hlt := b.isLt
  unfold Sign.ofBitVec
  split
  · rename_i hsign
    have hbit : b.toNat / 2 ^ 63 = 0 := (toNat_unpackSign b).symm.trans (congrArg _ hsign)
    show 0 + b.toNat % 2 ^ 63 = b.toNat
    omega
  · rename_i hsign
    have hbit : b.toNat / 2 ^ 63 ≠ 0 := fun h =>
      hsign (BitVec.eq_of_toNat_eq ((toNat_unpackSign b).trans h))
    show 2 ^ 63 + b.toNat % 2 ^ 63 = b.toNat
    omega

/-- **Numbers by their bits.** `Encodes s n u` says that `u` has sign `s` and the bits `n` below it.
Numbers with the least exponent have their mantissas as bits, each further exponent has `2 ^ 52`
mantissas, and after all of them comes infinity. -/
inductive Encodes (s : Sign) : Nat → UnpackedFloat → Prop
  /-- Zero has no bits. -/
  | zero : Encodes s 0 (.zero s)
  /-- Any other finite number has the least exponent, or all of 53 digits. -/
  | finite {m n : Nat} {e : Int} {h : 0 < m} (hm : m < 2 ^ 53) (hlow : -1074 ≤ e) (hhigh : e ≤ 971)
      (hdigits : 2 ^ 52 ≤ m ∨ e = -1074) (hn : n = (e + 1074) * 2 ^ 52 + m) :
      Encodes s n (.finite s m e h)
  /-- Infinity has the largest exponent and no mantissa. -/
  | infinity : Encodes s (2047 * 2 ^ 52) (.infinity s)

/-- No number has more bits than infinity: `n ≤ 2047 * 2 ^ 52`. -/
theorem Encodes.le {s : Sign} {n : Nat} {u : UnpackedFloat} (h : Encodes s n u) :
    n ≤ 2047 * 2 ^ 52 := by
  cases h with
  | zero => exact Nat.zero_le _
  | finite => omega
  | infinity => exact Nat.le_refl _

/-- The word of `NaN`, which is positive and comes after infinity. -/
def nanWord : Nat := 2047 * 2 ^ 52 + 2 ^ 51

/-- `1#1 ++ m` has one more digit in front. -/
theorem toNat_one_append (m : BitVec 52) : (1#1 ++ m).toNat = 2 ^ 52 + m.toNat := by
  rw [BitVec.toNat_append, ← Nat.shiftLeft_add_eq_or_of_lt m.isLt]
  rfl

/-- `unpack` by the three fields of a word. -/
theorem unpack_eq (b : BitVec 64) : UnpackedFloat.unpack .binary64 b =
    if @unpackExponent .binary64 b = -1#11 then
      if @unpackMantissa .binary64 b = 0#52 then .infinity (.ofBitVec (@unpackSign .binary64 b))
      else .notANumber
    else if @unpackExponent .binary64 b = 0#11 then
      if h : @unpackMantissa .binary64 b = 0#52 then .zero (.ofBitVec (@unpackSign .binary64 b))
      else .finite (.ofBitVec (@unpackSign .binary64 b)) (@unpackMantissa .binary64 b).toNat
        ((@unpackExponent .binary64 b).toNat - 1075 + 1)
        (Nat.pos_of_ne_zero fun hzero => h (BitVec.eq_of_toNat_eq hzero))
    else .finite (.ofBitVec (@unpackSign .binary64 b)) (1#1 ++ @unpackMantissa .binary64 b).toNat
      ((@unpackExponent .binary64 b).toNat - 1075)
      (Nat.lt_of_lt_of_eq (Nat.add_pos_left (Nat.two_pow_pos 52) _) (toNat_one_append _).symm) :=
  rfl

/-- **Every float is `NaN` or a number**, and has its bits: `f.unpack` is `.notANumber`, or
`Encodes s n f.unpack` holds of the sign `s` and the bits `n` of its word. -/
theorem encodes_unpack (f : Float.Model) :
    (f.unpack = .notANumber ∧ f.toBits.toNat = nanWord) ∨
      ∃ s n, Encodes s n f.unpack ∧ f.toBits.toNat = signWord s + n := by
  obtain ⟨b, hb⟩ : ∃ b, b = f.toBits.toBitVec := ⟨_, rfl⟩
  have hbits : f.toBits.toNat = b.toNat := hb ▸ rfl
  have hunpack : f.unpack = UnpackedFloat.unpack .binary64 b := hb ▸ rfl
  have hvalid := f.valid.eq_packedNaN
  rw [← hb] at hvalid
  have hmantissa := toNat_unpackMantissa b
  have hexponent := toNat_unpackExponent b
  have hword := signWord_add b
  have hlt := b.isLt
  rw [hbits, hunpack, unpack_eq]
  by_cases hall : @unpackExponent .binary64 b = -1#11
  · -- the largest exponent
    have hall' : b.toNat / 2 ^ 52 % 2 ^ 11 = 2047 := hexponent.symm.trans (congrArg _ hall)
    rw [if_pos hall]
    by_cases hnone : @unpackMantissa .binary64 b = 0#52
    · have hnone' : b.toNat % 2 ^ 52 = 0 := hmantissa.symm.trans (congrArg _ hnone)
      rw [if_pos hnone]
      exact .inr ⟨_, _, .infinity, by omega⟩
    · rw [if_neg hnone]
      exact .inl ⟨rfl, congrArg BitVec.toNat (hvalid hall hnone)⟩
  · have hall' : b.toNat / 2 ^ 52 % 2 ^ 11 ≠ 2047 := fun h =>
      hall (BitVec.eq_of_toNat_eq (hexponent.trans h))
    refine .inr ⟨_, b.toNat % 2 ^ 63, ?_, hword.symm⟩
    rw [if_neg hall]
    by_cases hleast : @unpackExponent .binary64 b = 0#11
    · -- the least exponent
      have hleast' : b.toNat / 2 ^ 52 % 2 ^ 11 = 0 := hexponent.symm.trans (congrArg _ hleast)
      rw [if_pos hleast]
      by_cases hnone : @unpackMantissa .binary64 b = 0#52
      · have hnone' : b.toNat % 2 ^ 52 = 0 := hmantissa.symm.trans (congrArg _ hnone)
        have hbelow : b.toNat % 2 ^ 63 = 0 := by omega
        rw [dif_pos hnone, hbelow]
        exact .zero
      · rw [dif_neg hnone]
        exact .finite (by omega) (by omega) (by omega) (.inr (by omega)) (by omega)
    · have hleast' : b.toNat / 2 ^ 52 % 2 ^ 11 ≠ 0 := fun h =>
        hleast (BitVec.eq_of_toNat_eq (hexponent.trans h))
      -- the first digit is not among the bits
      have hdigits := toNat_one_append (@unpackMantissa .binary64 b)
      rw [if_neg hleast]
      exact .finite (by omega) (by omega) (by omega) (.inl (by omega)) (by omega)

/-! ## (2) Comparing bits -/

section Compare

variable {s s' : Sign} {n n' : Nat} {u u' : UnpackedFloat}

/-- Finite numbers of one sign compare as their bits: exponents count before mantissas, since a number
with more than the least exponent has all digits. -/
theorem compare_then_compare {m m' : Nat} {e e' : Int} (hm : m < 2 ^ 53) (hm' : m' < 2 ^ 53)
    (hlow : -1074 ≤ e) (hlow' : -1074 ≤ e') (hdigits : 2 ^ 52 ≤ m ∨ e = -1074)
    (hdigits' : 2 ^ 52 ≤ m' ∨ e' = -1074) :
    (compare e e').then (compare m m') =
      compare ((e + 1074) * 2 ^ 52 + m) ((e' + 1074) * 2 ^ 52 + m') := by
  rcases Int.lt_trichotomy e e' with hlt | rfl | hgt
  · rw [Int.compare_eq_lt.2 hlt, Int.compare_eq_lt.2 (by omega)]
    rfl
  · rw [Int.compare_eq_eq.2 rfl, Ordering.eq_then]
    rcases Nat.lt_trichotomy m m' with hlt | rfl | hgt
    · rw [Nat.compare_eq_lt.2 hlt, Int.compare_eq_lt.2 (by omega)]
    · rw [Nat.compare_eq_eq.2 rfl, Int.compare_eq_eq.2 rfl]
    · rw [Nat.compare_eq_gt.2 hgt, Int.compare_eq_gt.2 (by omega)]
  · rw [Int.compare_eq_gt.2 hgt, Int.compare_eq_gt.2 (by omega)]
    rfl

/-- Of two numbers, the sign of the one with more bits decides:
`compare (s.apply n) (s'.apply n') = match s' with | .positive => .lt | .negative => .gt`. -/
theorem compare_apply_of_lt (s s' : Sign) (h : n < n') : compare (s.apply n) (s'.apply n') =
    match s' with
    | .positive => .lt
    | .negative => .gt := by
  cases s' with
  | positive => exact Int.compare_eq_lt.2 (by cases s <;> simp only [Sign.apply] <;> omega)
  | negative => exact Int.compare_eq_gt.2 (by cases s <;> simp only [Sign.apply] <;> omega)

/-- Numbers of one sign compare as their bits, or the other way round:
`compare (s.apply n) (s.apply n')` is
`match s with | .positive => compare (n : Int) n' | .negative => (compare (n : Int) n').swap`. -/
theorem compare_apply (s : Sign) (n n' : Nat) : compare (s.apply n) (s.apply n') =
    match s with
    | .positive => compare (n : Int) n'
    | .negative => (compare (n : Int) n').swap := by
  cases s with
  | positive => rfl
  | negative =>
    show compareOfLessAndEq (-(n : Int)) (-n') = (compare (n : Int) n').swap
    rw [Int.compare_swap]
    show compareOfLessAndEq (-(n : Int)) (-n') = compareOfLessAndEq (n' : Int) n
    simp only [compareOfLessAndEq, Int.neg_lt_neg_iff, neg_inj, eq_comm]

/-- **Numbers compare as their signed bits**: `u.compare u'` is that of `s.apply n` and
`s'.apply n'`. -/
theorem Encodes.compare_eq (h : Encodes s n u) (h' : Encodes s' n' u') :
    u.compare u' = some (compare (s.apply n) (s'.apply n')) := by
  cases h with
  | zero =>
    cases h' with
    | zero => cases s <;> cases s' <;> rfl
    | finite =>
      rw [compare_apply_of_lt s s' (by omega)]
      cases s' <;> rfl
    | infinity => cases s <;> cases s' <;> rfl
  | finite hm hlow hhigh hdigits hn =>
    cases h' with
    | zero =>
      rw [← Int.compare_swap, compare_apply_of_lt s' s (by omega)]
      cases s <;> rfl
    | finite hm' hlow' hhigh' hdigits' hn' =>
      have hcompare := compare_then_compare hm hm' hlow hlow' hdigits hdigits'
      rw [← hn, ← hn'] at hcompare
      cases s <;> cases s'
      · rw [compare_apply, ← hcompare]
        rfl
      · rw [Int.compare_eq_lt.2 (by simp only [Sign.apply]; omega)]
        rfl
      · rw [Int.compare_eq_gt.2 (by simp only [Sign.apply]; omega)]
        rfl
      · rw [compare_apply, ← hcompare]
        rfl
    | infinity =>
      rw [compare_apply_of_lt s s' (by omega)]
      cases s' <;> rfl
  | infinity =>
    cases h' with
    | zero => cases s <;> cases s' <;> rfl
    | finite =>
      rw [← Int.compare_swap, compare_apply_of_lt s' s (by omega)]
      cases s <;> rfl
    | infinity => cases s <;> cases s' <;> rfl

variable {x y : Float}

/-- `x < y` compares the signed bits of `x` and `y`. -/
theorem Encodes.lt_iff (hx : Encodes s n x.toModel.unpack) (hy : Encodes s' n' y.toModel.unpack) :
    x < y ↔ s.apply n < s'.apply n' := by
  have hdef : x < y ↔ (x.toModel.unpack.compare y.toModel.unpack == some .lt) = true :=
    ⟨fun h => of_decide_eq_true h, fun h => decide_eq_true h⟩
  rw [hdef, hx.compare_eq hy, beq_iff_eq, Option.some_inj, Int.compare_eq_lt]

/-- `x ≤ y` compares the signed bits of `x` and `y`. -/
theorem Encodes.le_iff (hx : Encodes s n x.toModel.unpack) (hy : Encodes s' n' y.toModel.unpack) :
    x ≤ y ↔ s.apply n ≤ s'.apply n' := by
  have hdef : x ≤ y ↔ (x.toModel.unpack.compare y.toModel.unpack).any (·.isLE) = true :=
    ⟨fun h => of_decide_eq_true h, fun h => decide_eq_true h⟩
  rw [hdef, hx.compare_eq hy, Option.any_some, Int.isLE_compare]

/-- `u.compare .notANumber = none`: what is no number compares with nothing. -/
theorem compare_notANumber (u : UnpackedFloat) : u.compare .notANumber = none := by
  cases u with
  | notANumber => rfl
  | infinity s => cases s <;> rfl
  | zero s => rfl
  | finite s m e h => cases s <;> rfl

end Compare

/-! ## (3) The order of keys -/

section Keys

variable {x y : Float}

/-- `floatSortKey x` is the word of `x`; from the first negative word on, keys go down from `-1`. -/
theorem floatSortKey_def (x : Float) : floatSortKey x =
    if x.toBits.toNat < 2 ^ 63 then (x.toBits.toNat : Int) else 2 ^ 63 - x.toBits.toNat - 1 :=
  rfl

/-- **Keys tell floats apart**: `Function.Injective floatSortKey`. -/
theorem floatSortKey_injective : Function.Injective floatSortKey := by
  rintro ⟨⟨word, hvalid⟩⟩ ⟨⟨word', hvalid'⟩⟩ hkeys
  have hlt := word.toNat_lt
  have hlt' := word'.toNat_lt
  have hwords : word.toNat = word'.toNat := by
    rw [floatSortKey_def, floatSortKey_def] at hkeys
    change (if word.toNat < 2 ^ 63 then (word.toNat : Int) else 2 ^ 63 - word.toNat - 1) =
      if word'.toNat < 2 ^ 63 then (word'.toNat : Int) else 2 ^ 63 - word'.toNat - 1 at hkeys
    split at hkeys <;> split at hkeys <;> omega
  obtain rfl := UInt64.toNat_inj.1 hwords
  rfl

/-- The key of the word of sign `s` with the bits `n` below it. -/
def signedKey : Sign → Nat → Int
  | .positive, n => n
  | .negative, n => -n - 1

/-- `floatSortKey x`, by the sign of `x`. -/
theorem floatSortKey_eq_signedKey {s : Sign} {n : Nat} (hn : n < 2 ^ 63)
    (hbits : x.toBits.toNat = signWord s + n) : floatSortKey x = signedKey s n := by
  rw [floatSortKey_def, hbits]
  cases s with
  | positive =>
    rw [signWord, Nat.zero_add, if_pos hn]
    rfl
  | negative =>
    rw [signWord, if_neg (by omega), signedKey]
    omega

/-- A number has the key of its bits:
`∃ s n, Encodes s n x.toModel.unpack ∧ floatSortKey x = signedKey s n`. -/
theorem exists_encodes (hx : x.isNaN = false) :
    ∃ s n, Encodes s n x.toModel.unpack ∧ floatSortKey x = signedKey s n := by
  rcases encodes_unpack x.toModel with ⟨hunpack, -⟩ | ⟨s, n, hn, hbits⟩
  · have hnan : x.isNaN = UnpackedFloat.notANumber.isNaN := congrArg _ hunpack
    cases hx.symm.trans hnan
  · exact ⟨s, n, hn, floatSortKey_eq_signedKey (Nat.lt_of_le_of_lt hn.le (by decide)) hbits⟩

/-- `NaN` is unpacked as what is no number. -/
theorem unpack_of_isNaN (hx : x.isNaN = true) : x.toModel.unpack = .notANumber := by
  have hnan : UnpackedFloat.isNaN x.toModel.unpack = true := hx
  cases hunpack : x.toModel.unpack with
  | notANumber => rfl
  | _ => cases hunpack ▸ hnan

/-- `NaN` has the key of its word. -/
theorem floatSortKey_of_isNaN (hx : x.isNaN = true) : floatSortKey x = nanWord := by
  rcases encodes_unpack x.toModel with ⟨-, hbits⟩ | ⟨s, n, hn, -⟩
  · exact floatSortKey_eq_signedKey (s := .positive) (by decide)
      (hbits.trans (Nat.zero_add _).symm)
  · cases unpack_of_isNaN hx ▸ hn

/-- `x < y` holds of numbers only. -/
theorem isNaN_eq_false_of_lt (h : x < y) : x.isNaN = false ∧ y.isNaN = false := by
  have hlt : x.toModel.unpack.compare y.toModel.unpack = some .lt :=
    eq_of_beq (of_decide_eq_true h)
  constructor
  · cases hx : x.isNaN with
    | false => rfl
    | true =>
      rw [unpack_of_isNaN hx] at hlt
      cases hlt
  · cases hy : y.isNaN with
    | false => rfl
    | true =>
      rw [unpack_of_isNaN hy, compare_notANumber] at hlt
      cases hlt

/-- **A smaller number has the smaller key**: `floatSortKey x < floatSortKey y`. -/
theorem floatSortKey_lt_of_lt (h : x < y) : floatSortKey x < floatSortKey y := by
  obtain ⟨hx, hy⟩ := isNaN_eq_false_of_lt h
  obtain ⟨s, n, hn, hkey⟩ := exists_encodes hx
  obtain ⟨s', n', hn', hkey'⟩ := exists_encodes hy
  have hlt := (hn.lt_iff hn').1 h
  rw [hkey, hkey']
  cases s <;> cases s' <;> simp only [Sign.apply, signedKey] at hlt ⊢ <;> omega

/-- **Numbers are in the order of their keys**: `x ≤ y`. -/
theorem le_of_floatSortKey_le (hx : x.isNaN = false) (hy : y.isNaN = false)
    (h : floatSortKey x ≤ floatSortKey y) : x ≤ y := by
  obtain ⟨s, n, hn, hkey⟩ := exists_encodes hx
  obtain ⟨s', n', hn', hkey'⟩ := exists_encodes hy
  rw [hkey, hkey'] at h
  rw [hn.le_iff hn']
  cases s <;> cases s' <;> simp only [Sign.apply, signedKey] at h ⊢ <;> omega

/-- **`NaN` comes last.** -/
theorem floatSortKey_le_of_isNaN (hy : y.isNaN = true) (x : Float) :
    floatSortKey x ≤ floatSortKey y := by
  rw [floatSortKey_of_isNaN hy]
  cases hx : x.isNaN with
  | true => exact (floatSortKey_of_isNaN hx).le
  | false =>
    obtain ⟨s, n, hn, hkey⟩ := exists_encodes hx
    have hle := hn.le
    rw [hkey, nanWord]
    cases s <;> simp only [signedKey] <;> omega

/-- **Sorted numbers are in order**: `(Scalar.sorted xs).Pairwise (· ≤ ·)`. -/
theorem Scalar.sorted_pairwise_le {xs : List Float} (hxs : ∀ x ∈ xs, x.isNaN = false) :
    (Scalar.sorted xs).Pairwise (· ≤ ·) := by
  have hkeys : (Scalar.sorted xs).Pairwise fun x y =>
      decide (floatSortKey x ≤ floatSortKey y) = true := by
    refine List.pairwise_mergeSort (fun x y z hxy hyz => ?_) (fun x y => ?_) xs
    · exact decide_eq_true ((of_decide_eq_true hxy).trans (of_decide_eq_true hyz))
    · rw [Bool.or_eq_true, decide_eq_true_eq, decide_eq_true_eq]
      exact le_total _ _
  refine hkeys.imp_of_mem fun hx hy hle => ?_
  exact le_of_floatSortKey_le (hxs _ ((sorted_perm xs).mem_iff.1 hx))
    (hxs _ ((sorted_perm xs).mem_iff.1 hy)) (of_decide_eq_true hle)

end Keys

/-! ## (4) Keys as signed words -/

/-- `n ^^^ (2 ^ 63 - 1)` flips 63 bits. -/
theorem xor_two_pow_sub_one {n : Nat} (hn : n < 2 ^ 63) : n ^^^ (2 ^ 63 - 1) = 2 ^ 63 - 1 - n := by
  have hflip := congrArg BitVec.toNat (BitVec.xor_allOnes (x := BitVec.ofNat 63 n))
  rwa [BitVec.toNat_xor, BitVec.toNat_not, BitVec.toNat_allOnes, BitVec.toNat_ofNat,
    Nat.mod_eq_of_lt hn] at hflip

/-- `(b ^^^ BitVec.allOnes 64 >>> 1).toNat = 2 ^ 63 + (2 ^ 64 - 1 - b.toNat)`: the bits below the
sign are flipped, and the sign stays. -/
theorem toNat_xor_ushiftRight {b : BitVec 64} (hb : 2 ^ 63 ≤ b.toNat) :
    (b ^^^ BitVec.allOnes 64 >>> 1).toNat = 2 ^ 63 + (2 ^ 64 - 1 - b.toNat) := by
  have hlt := b.isLt
  have hsign : (b.toNat ^^^ (2 ^ 63 - 1)) / 2 ^ 63 = 1 := by
    have hone : b.toNat / 2 ^ 63 = 1 := by omega
    rw [Nat.xor_div_two_pow, hone]
    rfl
  have hbelow : (b.toNat ^^^ (2 ^ 63 - 1)) % 2 ^ 63 = 2 ^ 64 - 1 - b.toNat := by
    have hmod : b.toNat % 2 ^ 63 = b.toNat - 2 ^ 63 := by omega
    rw [Nat.xor_mod_two_pow, hmod, Nat.mod_eq_of_lt (by decide), xor_two_pow_sub_one (by omega)]
    omega
  show b.toNat ^^^ (2 ^ 63 - 1) = _
  omega

/-- **Keys are signed words**:
`floatSortKey x = (x.toBits.toBitVec ^^^ x.toBits.toBitVec.sshiftRight 63 >>> 1).toInt`. The sign is
spread over a word, without the first bit of which it flips the bits below the sign. -/
theorem floatSortKey_eq_toInt (x : Float) : floatSortKey x =
    (x.toBits.toBitVec ^^^ x.toBits.toBitVec.sshiftRight 63 >>> 1).toInt := by
  obtain ⟨b, hb⟩ : ∃ b, b = x.toBits.toBitVec := ⟨_, rfl⟩
  have hbits : x.toBits.toNat = b.toNat := hb ▸ rfl
  have hlt := b.isLt
  rw [floatSortKey_def, hbits, ← hb]
  split
  · rename_i hpositive
    have hmsb : b.msb = false := BitVec.msb_eq_false_iff_two_mul_lt.2 (by omega)
    have hshift : b.sshiftRight 63 = 0#64 := by
      rw [BitVec.sshiftRight_eq_of_msb_false hmsb]
      refine BitVec.eq_of_toNat_eq ?_
      rw [BitVec.toNat_ushiftRight, Nat.shiftRight_eq_div_pow]
      exact Nat.div_eq_of_lt hpositive
    rw [hshift, BitVec.zero_ushiftRight, BitVec.xor_zero, BitVec.toInt_eq_toNat_of_msb hmsb]
  · rename_i hnegative
    have hmsb : b.msb = true := BitVec.msb_eq_true_iff_two_mul_ge.2 (by omega)
    have hshift : b.sshiftRight 63 = BitVec.allOnes 64 := by
      have hzero : ~~~b >>> 63 = 0#64 := by
        refine BitVec.eq_of_toNat_eq ?_
        rw [BitVec.toNat_ushiftRight, Nat.shiftRight_eq_div_pow, BitVec.toNat_not]
        exact Nat.div_eq_of_lt (by omega)
      rw [BitVec.sshiftRight_eq_of_msb_true hmsb, hzero]
      rfl
    rw [hshift, BitVec.toInt_eq_toNat_cond, toNat_xor_ushiftRight (by omega), if_neg (by omega)]
    omega

end PanelQuery
