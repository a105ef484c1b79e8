import Mathlib.Data.List.Count
import Mathlib.Data.Rat.Floor
import PanelQuery.Aggregation.Quantile
import PanelQuery.Proofs.Number.Digits
import PanelQuery.Proofs.Statistics

/-! # Buckets of exact numbers

The upper ends of buckets are quantiles, which lie on straight lines between neighbouring numbers.
Still, the bucket of a number depends on how many numbers are less than it, and on nothing else: a
quantile reaches a number as soon as its rank does.

* **`below`** — how many numbers are less than a given one;
* **`Statistics.le_quantileSorted_iff`** — the quantiles that reach a number;
* **`bucketOfRank`, `bucketOfRank_le_iff`** — the bucket of a number with so many others below it;
* **`bucketOf_cutPoints`** — the bucket of a number among some numbers;
* **`bucketLabel_inj`** — different buckets have different labels. -/

namespace PanelQuery

/-! ## (1) Smaller numbers -/

/-- `below values v`: how many numbers are less than a given one. -/
def below (values : List Rat) (v : Rat) : Nat := values.countP fun u => decide (u < v)

section Below

variable {values : List Rat} {v w : Rat}

/-- `below values v = below values' v`: reordered numbers are as many. -/
theorem below_eq_of_perm {values' : List Rat} (h : values.Perm values') (v : Rat) :
    below values v = below values' v :=
  h.countP_eq _

/-- A number is not less than itself: `below values v < values.length`. -/
theorem below_lt_length (hv : v ∈ values) : below values v < values.length :=
  List.countP_lt_length_iff.2 ⟨v, hv, decide_eq_false (lt_irrefl v)⟩

/-- What is less than a number is less than a greater one: `below values v ≤ below values w`. -/
theorem below_mono (h : v ≤ w) : below values v ≤ below values w :=
  List.countP_mono_left fun _ _ hu => decide_eq_true ((of_decide_eq_true hu).trans_le h)

/-- `below values v = values.length - 1`: below a greatest number that is there once are all
others. -/
theorem below_of_greatest (hv : values.count v = 1) (hgreatest : ∀ u ∈ values, u ≤ v) :
    below values v = values.length - 1 := by
  have hsplit := List.length_eq_countP_add_countP (fun u => decide (u < v)) (l := values)
  have hothers : values.countP (fun u => decide ¬decide (u < v) = true) = values.count v := by
    rw [List.count_eq_countP]
    refine List.countP_congr fun u hu => ?_
    rw [decide_eq_true_eq, decide_eq_true_eq, beq_iff_eq, not_lt]
    exact ⟨fun h => le_antisymm (hgreatest u hu) h, fun h => h.ge⟩
  rw [hothers, hv] at hsplit
  unfold below
  omega

/-- **Of sorted numbers, the first ones are less than a number**, as many as there are:
`ys[i] < v ↔ i < below ys v`. -/
theorem getElem_lt_iff {ys : List Rat} (hys : ys.Pairwise (· ≤ ·)) {i : Nat} (hi : i < ys.length) :
    ys[i] < v ↔ i < below ys v := by
  induction ys generalizing i with
  | nil => exact absurd hi (Nat.not_lt_zero i)
  | cons y ys ih =>
    obtain ⟨hy, hrest⟩ := List.pairwise_cons.1 hys
    by_cases hlt : y < v
    · have hcount : below (y :: ys) v = below ys v + 1 :=
        List.countP_cons_of_pos (decide_eq_true hlt)
      rw [hcount]
      cases i with
      | zero => exact iff_of_true hlt (Nat.succ_pos _)
      | succ i => rw [List.getElem_cons_succ, ih hrest, Nat.succ_lt_succ_iff]
    · -- the first one is not less, and so none is
      have hnone : ∀ u ∈ y :: ys, ¬u < v := by
        intro u hu
        rcases List.mem_cons.1 hu with rfl | hu
        · exact hlt
        · exact fun h => hlt ((hy u hu).trans_lt h)
      have hcount : below (y :: ys) v = 0 :=
        List.countP_eq_zero.2 fun u hu => by simpa using hnone u hu
      rw [hcount]
      exact iff_of_false (hnone _ (List.getElem_mem hi)) (Nat.not_lt_zero i)

/-- Of sorted numbers, those at places up to the first place of one are not greater: `ys[i] ≤ v`. -/
theorem getElem_le_of_le_below {ys : List Rat} (hys : ys.Pairwise (· ≤ ·)) (hv : v ∈ ys) {i : Nat}
    (hi : i < ys.length) (h : i ≤ below ys v) : ys[i] ≤ v := by
  obtain ⟨j, hj, rfl⟩ := List.getElem_of_mem hv
  have hij : i ≤ j :=
    h.trans (not_lt.1 fun hlt => lt_irrefl _ ((getElem_lt_iff hys hj).2 hlt))
  rcases hij.eq_or_lt with rfl | hlt
  · exact le_refl _
  · exact List.pairwise_iff_getElem.1 hys i j hi hj hlt

end Below

/-! ## (2) Quantiles -/

namespace Statistics

/-- `Scalar.clamp 0 1 q = q`: a number between zero and one is held as it is. -/
theorem clamp_eq_self {q : Rat} (h0 : 0 ≤ q) (h1 : q ≤ 1) : Scalar.clamp 0 1 q = q := by
  rw [clamp_eq, min_eq_right h1, max_eq_right h0]

/-- On the line between two numbers that reach a third one, all numbers do:
`v ≤ a + (b - a) * f`. -/
theorem le_line {a b v f : Rat} (ha : v ≤ a) (hb : v ≤ b) (h0 : 0 ≤ f) (h1 : f ≤ 1) :
    v ≤ a + (b - a) * f := by
  have hfrom := mul_nonneg (sub_nonneg.2 ha) (sub_nonneg.2 h1)
  have hto := mul_nonneg (sub_nonneg.2 hb) h0
  linarith

/-- From a smaller number on, the line to one that is not greater stays below before its end:
`a + (b - a) * f < v`. -/
theorem line_lt {a b v f : Rat} (ha : a < v) (hb : b ≤ v) (h0 : 0 ≤ f) (h1 : f < 1) :
    a + (b - a) * f < v := by
  have hfrom := mul_pos (sub_pos.2 ha) (sub_pos.2 h1)
  have hto := mul_nonneg (sub_nonneg.2 hb) h0
  linarith

/-- The places next to a rank, of which the first one is less than one place before it:
`((r : Rat) ≤ rank → r ≤ rank.floor.toNat ∧ r ≤ rank.ceil.toNat)`,
`(rank < r → rank.floor.toNat < r ∧ rank.ceil.toNat ≤ r)`, `0 ≤ rank - (rank.floor.toNat : Nat)` and
`rank - (rank.floor.toNat : Nat) < 1`. -/
theorem neighbours_of_rank {rank : Rat} (h : 0 ≤ rank) (r : Nat) :
    ((r : Rat) ≤ rank → r ≤ rank.floor.toNat ∧ r ≤ rank.ceil.toNat) ∧
      (rank < r → rank.floor.toNat < r ∧ rank.ceil.toNat ≤ r) ∧
      0 ≤ rank - (rank.floor.toNat : Nat) ∧ rank - (rank.floor.toNat : Nat) < 1 := by
  have hfloor : 0 ≤ rank.floor := Rat.le_floor_iff.2 h
  have hcast : ((rank.floor.toNat : Nat) : Rat) = rank.floor :=
    congrArg (Int.cast (R := Rat)) (Int.toNat_of_nonneg hfloor)
  refine ⟨fun hr => ?_, fun hr => ?_, ?_, ?_⟩
  · have hlo : (r : Int) ≤ rank.floor := Rat.le_floor_iff.2 hr
    have hhi : (r : Int) ≤ rank.ceil := by exact_mod_cast hr.trans Rat.le_ceil
    omega
  · have hlo : rank.floor < r := Rat.floor_lt_iff.2 hr
    have hhi : rank.ceil ≤ r := Rat.ceil_le_iff.2 hr.le
    omega
  · rw [hcast]
    exact sub_nonneg.2 (Rat.floor_le rank)
  · have hnext := Rat.lt_floor_add_one rank
    rw [Int.cast_add, Int.cast_one] at hnext
    rw [hcast]
    exact sub_lt_iff_lt_add'.2 hnext

/-- **A quantile reaches a number** just when its rank is that of the number or a later one:
`∃ c, quantileSorted ys q = some c ∧ (v ≤ c ↔ (below ys v : Rat) ≤ q * (ys.length - 1 : Nat))`. -/
theorem le_quantileSorted_iff {ys : List Rat} (hys : ys.Pairwise (· ≤ ·)) {v : Rat} (hv : v ∈ ys)
    {q : Rat} (h0 : 0 ≤ q) (h1 : q ≤ 1) : ∃ c, quantileSorted ys q = some c ∧
      (v ≤ c ↔ (below ys v : Rat) ≤ q * (ys.length - 1 : Nat)) := by
  obtain ⟨rank, hrank⟩ : ∃ rank, q * (ys.length - 1 : Nat) = rank := ⟨_, rfl⟩
  have hnonneg : 0 ≤ rank := hrank ▸ mul_nonneg h0 (Nat.cast_nonneg _)
  obtain ⟨hlo, hhi, heq⟩ := quantileSorted_eq (List.ne_nil_of_mem hv)
    (by rw [clamp_eq_self h0 h1, hrank])
  obtain ⟨hreached, hmissed, hpast, hshort⟩ := neighbours_of_rank hnonneg (below ys v)
  refine ⟨_, heq, ?_⟩
  rw [hrank]
  constructor
  · -- before a rank that falls short there is a smaller number, and behind it none that is greater
    intro hle
    by_contra hshortfall
    obtain ⟨hbefore, hbehind⟩ := hmissed (not_le.1 hshortfall)
    exact not_lt.2 hle (line_lt ((getElem_lt_iff hys hlo).2 hbefore)
      (getElem_le_of_le_below hys hv hhi hbehind) hpast hshort)
  · intro hrank
    obtain ⟨hbefore, hbehind⟩ := hreached hrank
    have hlow : v ≤ ys[rank.floor.toNat] :=
      not_lt.1 fun h => absurd ((getElem_lt_iff hys hlo).1 h) (not_lt.2 hbefore)
    have hhigh : v ≤ ys[rank.ceil.toNat] :=
      not_lt.1 fun h => absurd ((getElem_lt_iff hys hhi).1 h) (not_lt.2 hbehind)
    exact le_line hlow hhigh hpast hshort.le

end Statistics

/-! ## (3) Buckets -/

/-- The bucket among `n`, from one, of a number with `rank` others below it, out of `count`. -/
def bucketOfRank (n count rank : Nat) : Nat :=
  if count = 1 then 1 else max 1 ⌈(rank * n : Rat) / (count - 1 : Nat)⌉₊

section Buckets

variable {n count rank rank' k : Nat}

/-- Buckets are counted from one: `1 ≤ bucketOfRank n count rank`. -/
theorem bucketOfRank_pos (n count rank : Nat) : 1 ≤ bucketOfRank n count rank := by
  unfold bucketOfRank
  split
  · exact le_refl 1
  · exact le_max_left 1 _

/-- Buckets do not fall with the rank: `bucketOfRank n count rank ≤ bucketOfRank n count rank'`. -/
theorem bucketOfRank_mono (n count : Nat) (h : rank ≤ rank') :
    bucketOfRank n count rank ≤ bucketOfRank n count rank' := by
  unfold bucketOfRank
  split
  · exact le_refl 1
  · have hrank : (rank : Rat) ≤ rank' := Nat.cast_le.2 h
    gcongr

/-- **The buckets up to one** are those of ranks up to its end:
`bucketOfRank n count rank ≤ k ↔ (rank : Rat) ≤ k / n * (count - 1 : Nat)`. -/
theorem bucketOfRank_le_iff (hn : 0 < n) (h : rank < count) (hk : 0 < k) :
    bucketOfRank n count rank ≤ k ↔ (rank : Rat) ≤ k / n * (count - 1 : Nat) := by
  have hn : (0 : Rat) < n := Nat.cast_pos.2 hn
  unfold bucketOfRank
  split
  · rename_i hone
    obtain rfl : rank = 0 := by omega
    refine iff_of_true hk ?_
    rw [hone]
    simp
  · rename_i hmany
    have hcount : (0 : Rat) < (count - 1 : Nat) := Nat.cast_pos.2 (by omega)
    rw [max_le_iff, and_iff_right (Nat.succ_le_of_lt hk), Nat.ceil_le, div_le_iff₀ hcount,
      div_mul_eq_mul_div, le_div_iff₀ hn]

/-- There are `n` buckets. -/
theorem bucketOfRank_le (hn : 0 < n) (h : rank < count) : bucketOfRank n count rank ≤ n := by
  have hlast : (rank : Rat) ≤ (count - 1 : Nat) := Nat.cast_le.2 (Nat.le_sub_one_of_lt h)
  rwa [bucketOfRank_le_iff hn h hn, div_self (Nat.cast_ne_zero.2 hn.ne'), one_mul]

/-- `bucketOfRank n count (count - 1) = n`: the last of several numbers is in the last bucket. -/
theorem bucketOfRank_last (hn : 0 < n) (h : 1 < count) :
    bucketOfRank n count (count - 1) = n := by
  have hcount : ((count - 1 : Nat) : Rat) ≠ 0 := Nat.cast_ne_zero.2 (Nat.sub_ne_zero_of_lt h)
  rw [bucketOfRank, if_neg h.ne', mul_div_cancel_left₀ _ hcount, Nat.ceil_natCast]
  exact max_eq_right hn

end Buckets

section CutPoints

variable {values : List Rat} {n : Nat} {v w : Rat}

/-- **The upper ends of buckets** are as many, and each reaches the numbers up to its rank: for some
`cut : Nat → Rat`, `cutPoints n values = (List.range n).map cut` and for all `k < n`, for all
`v ∈ values`,
`v ≤ cut k ↔ (below values v : Rat) ≤ (k + 1 : Nat) / n * (values.length - 1 : Nat)`. -/
theorem cutPoints_eq_map (hvalues : values ≠ []) (n : Nat) :
    ∃ cut : Nat → Rat, cutPoints n values = (List.range n).map cut ∧
      ∀ k < n, ∀ v ∈ values,
        v ≤ cut k ↔ (below values v : Rat) ≤ (k + 1 : Nat) / n * (values.length - 1 : Nat) := by
  have hperm := Scalar.sorted_perm values
  have hquantile : ∀ k, ∃ c, Statistics.quantileSorted (Scalar.sorted values)
      (Scalar.ofNat (k + 1) / Scalar.ofNat n) = some c := fun k =>
    Option.isSome_iff_exists.1
      (Statistics.isSome_quantileSorted (Scalar.sorted_ne_nil hvalues) _)
  choose cut hcut using hquantile
  refine ⟨cut, List.filterMap_eq_map_iff_forall_eq_some.2 fun k _ => hcut k, fun k hk v hv => ?_⟩
  have hn : (0 : Rat) < n := Nat.cast_pos.2 (Nat.zero_lt_of_lt hk)
  have hnonneg : (0 : Rat) ≤ (k + 1 : Nat) / n := div_nonneg (Nat.cast_nonneg _) hn.le
  have hle : ((k + 1 : Nat) : Rat) / n ≤ 1 := (div_le_one hn).2 (Nat.cast_le.2 hk)
  obtain ⟨c, hc, hreaches⟩ := Statistics.le_quantileSorted_iff (Scalar.sorted_pairwise values)
    (hperm.mem_iff.2 hv) hnonneg hle
  obtain rfl : cut k = c := Option.some.inj ((hcut k).symm.trans hc)
  rw [hreaches, below_eq_of_perm hperm, hperm.length_eq]

/-- **The bucket of a number** is that of its rank:
`bucketOf v (cutPoints n values) = bucketOfRank n values.length (below values v)`. -/
theorem bucketOf_cutPoints (hn : 0 < n) (hv : v ∈ values) :
    bucketOf v (cutPoints n values) = bucketOfRank n values.length (below values v) := by
  obtain ⟨cut, hcuts, hcut⟩ := cutPoints_eq_map (List.ne_nil_of_mem hv) n
  have hrank := below_lt_length hv
  have hreaches : ∀ k < n, v ≤ cut k ↔ bucketOfRank n values.length (below values v) ≤ k + 1 :=
    fun k hk => (hcut k hk v hv).trans (bucketOfRank_le_iff hn hrank (Nat.succ_pos k)).symm
  have hle := bucketOfRank_le hn hrank
  obtain ⟨k, hk⟩ := Nat.exists_eq_add_of_le' (bucketOfRank_pos n values.length (below values v))
  rw [hk] at hreaches hle ⊢
  -- the first upper end that the number does not exceed is that of its bucket
  have hfirst : (cutPoints n values).findIdx? (fun c => decide (v ≤ c)) = some k := by
    have hlength : k < ((List.range n).map cut).length := by
      rwa [List.length_map, List.length_range]
    rw [hcuts, List.findIdx?_eq_some_iff_getElem]
    refine ⟨hlength, ?_, fun j hj => ?_⟩
    · rw [List.getElem_map, List.getElem_range, decide_eq_true_eq]
      exact (hreaches k hle).2 (le_refl _)
    · rw [List.getElem_map, List.getElem_range, decide_eq_true_eq, hreaches j (hj.trans hle)]
      omega
  rw [bucketOf, hfirst]

end CutPoints

/-! ## (4) Labels -/

section Labels

variable {k k' : Nat}

/-- `ordinal k` begins with the digits of `k`, and has letters behind them. -/
theorem takeWhile_ordinal (k : Nat) : (ordinal k).toList.takeWhile isDigit = Nat.toDigits 10 k := by
  unfold ordinal
  rw [String.toList_append, Nat.toString_eq_ofList_toDigits, String.toList_ofList]
  refine NoDigit.takeWhile_append ?_ fun c => isDigit_of_mem_toDigits
  split
  · exact noDigit_cons (by decide) _
  · split <;> exact noDigit_cons (by decide) _

/-- `bucketLabel k n` begins with the digits of `k`. -/
theorem takeWhile_bucketLabel (k n : Nat) :
    (bucketLabel k n).toList.takeWhile isDigit = Nat.toDigits 10 k := by
  have hspace : ∀ name : String, NoDigit (" " ++ name).toList := fun name => by
    rw [String.toList_append]
    exact noDigit_cons (by decide) _
  unfold bucketLabel
  rw [String.append_assoc, String.toList_append, takeWhile_isDigit_append _ (hspace _),
    takeWhile_ordinal]

/-- **Different buckets have different labels**: `bucketLabel k n = bucketLabel k' n` just when
`k = k'`. -/
theorem bucketLabel_inj (n : Nat) : bucketLabel k n = bucketLabel k' n ↔ k = k' := by
  refine ⟨fun heq => ?_, fun heq => heq ▸ rfl⟩
  have hdigits : Nat.toDigits 10 k = Nat.toDigits 10 k' := by
    rw [← takeWhile_bucketLabel k n, heq, takeWhile_bucketLabel]
  rw [← digitsValue_toDigits k, hdigits, digitsValue_toDigits]

end Labels

end PanelQuery
