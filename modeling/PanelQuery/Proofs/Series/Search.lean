import PanelQuery.Proofs.Series.Lookup

/-! # Look-ups by halving

Points in order need not be looked through one by one. The place at which they pass a time is found
by halving what is left of them, and every look-up and every write is told by such places.

* **`Points.place`** — the place at which a test ends, by halving;
* **`Points.place_eq_length_takeWhile`** — where no point passes the test after one that fails, this
  is the number of points that pass it;
* **`Points.Searchable`** — look-ups and writes by places come to the same as those one by one;
* **`Points.Increasing.searchable`** — and so it is for points in order. -/

namespace PanelQuery.Points

variable {α : Type} {ps : Points α} {p q : Point α} {t low high : Instant}

/-! ## (1) Places -/

/-- `placeBetween ps test first last`: the place at which a test ends, between two places. -/
def placeBetween (ps : Points α) (test : Point α → Bool) (first last : Nat) : Nat :=
  if first < last then
    let middle := first + (last - first) / 2
    if ps[middle]?.any test then placeBetween ps test (middle + 1) last
    else placeBetween ps test first middle
  else first
termination_by last - first

/-- `place ps test`: the place at which a test ends. -/
def place (ps : Points α) (test : Point α → Bool) : Nat := ps.placeBetween test 0 ps.length

/-- `searchValue? ps t`: the value at a time, at the place of the first point that is not before
it. -/
def searchValue? (ps : Points α) (t : Instant) : Option α :=
  (ps[ps.place fun p => decide (p.time < t)]?.filter fun p => p.time == t).map Point.value

/-- `searchLast? ps t`: the last point up to a time, before the place of the first point after
it. -/
def searchLast? (ps : Points α) (t : Instant) : Option (Point α) :=
  match ps.place fun p => decide (p.time ≤ t) with
  | 0 => none
  | k + 1 => ps[k]?

/-- `searchBetween ps low high`: the points from one time to another, from the place of the first
one to that of the last. -/
def searchBetween (ps : Points α) (low high : Instant) : Points α :=
  let first := ps.place fun p => decide (p.time < low)
  let last := ps.place fun p => decide (p.time ≤ high)
  if last ≤ first then [] else (ps.take last).drop first

/-- `searchInsert p ps`: the points with one more write, at the place of the first point that is not
before it. -/
def searchInsert (p : Point α) (ps : Points α) : Points α :=
  let k := ps.place fun q => decide (q.time < p.time)
  if ps[k]?.any fun q => q.time == p.time then ps.set k p else ps.insertIdx k p

/-! ## (2) What is found by halving -/

/-- **Halving finds the place** before which all points pass a test, and after which none does:
`ps.placeBetween test first last = k`. -/
theorem placeBetween_eq {test : Point α → Bool} {first last k : Nat}
    (hbelow : ∀ i, ps[i]?.any test = decide (i < k)) (hfirst : first ≤ k) (hlast : k ≤ last) :
    ps.placeBetween test first last = k := by
  fun_induction placeBetween ps test first last with
  | case1 first last hlt middle hpass ih =>
    rw [hbelow, decide_eq_true_eq] at hpass
    exact ih hpass hlast
  | case2 first last hlt middle hfail ih =>
    rw [hbelow, decide_eq_true_eq] at hfail
    exact ih hfirst (Nat.not_lt.1 hfail)
  | case3 first last hge => omega

/-- `ps[i]?.any test = decide (i < (ps.takeWhile test).length)`: where no point passes a test after
one that fails, those that pass are the first ones. -/
theorem any_getElem?_eq {test : Point α → Bool}
    (h : ps.Pairwise fun p q => test q = true → test p = true) (i : Nat) :
    ps[i]?.any test = decide (i < (ps.takeWhile test).length) := by
  induction ps generalizing i with
  | nil => rfl
  | cons p rest ih =>
    obtain ⟨hp, hrest⟩ := List.pairwise_cons.1 h
    by_cases htest : test p = true
    · rw [List.takeWhile_cons_of_pos htest, List.length_cons]
      cases i with
      | zero => exact htest.trans (decide_eq_true (Nat.succ_pos _)).symm
      | succ i =>
        rw [List.getElem?_cons_succ, ih hrest]
        simp only [Nat.add_lt_add_iff_right]
    · -- no later point passes the test either
      rw [List.takeWhile_cons_of_neg htest, List.length_nil, decide_eq_false (Nat.not_lt_zero i)]
      have hnone : ∀ q ∈ p :: rest, ¬test q = true :=
        List.forall_mem_cons.2 ⟨htest, fun q hq hpass => htest (hp q hq hpass)⟩
      rw [Option.any_eq_false]
      intro q hq
      exact Bool.eq_false_iff.2 (hnone q (List.mem_of_getElem? hq))

/-- **Where no point passes a test after one that fails, the test ends after those that pass**:
`ps.place test = (ps.takeWhile test).length`. -/
theorem place_eq_length_takeWhile {test : Point α → Bool}
    (h : ps.Pairwise fun p q => test q = true → test p = true) :
    ps.place test = (ps.takeWhile test).length :=
  placeBetween_eq (any_getElem?_eq h) (Nat.zero_le _) (List.takeWhile_sublist test).length_le

namespace Increasing

/-- `(ps.place fun p => decide (p.time ≤ t)) = (ps.upTo t).length`: the place of the first point
after a time. -/
theorem place_le (h : ps.Increasing) (t : Instant) :
    (ps.place fun p => decide (p.time ≤ t)) = (ps.upTo t).length := by
  refine place_eq_length_takeWhile (h.imp fun hlt hq => decide_eq_true ?_)
  exact Int.le_trans (Int.le_of_lt hlt) (of_decide_eq_true hq)

/-- The place of the first point that is not before a time:
`(ps.place fun p => decide (p.time < t)) = (ps.takeWhile fun p => decide (p.time < t)).length`. -/
theorem place_lt (h : ps.Increasing) (t : Instant) :
    (ps.place fun p => decide (p.time < t)) =
      (ps.takeWhile fun p => decide (p.time < t)).length := by
  refine place_eq_length_takeWhile (h.imp fun hlt hq => decide_eq_true ?_)
  exact Int.lt_trans hlt (of_decide_eq_true hq)

end Increasing

/-! ## (3) Values and last points -/

/-- The first point that is not before a time has the time, if any has: `(ps[(ps.takeWhile fun p =>
decide (p.time < t)).length]?.filter fun p => p.time == t).map Point.value = ps.valueAt? t`. -/
theorem Increasing.valueAt?_eq_filter (h : ps.Increasing) (t : Instant) :
    (ps[(ps.takeWhile fun p => decide (p.time < t)).length]?.filter fun p => p.time == t).map
      Point.value = ps.valueAt? t := by
  induction ps with
  | nil => rfl
  | cons p rest ih =>
    obtain ⟨hp, hrest⟩ := increasing_cons.1 h
    by_cases hlt : p.time < t
    · rw [List.takeWhile_cons_of_pos (by exact decide_eq_true hlt), List.length_cons,
        List.getElem?_cons_succ, ih hrest, valueAt?_cons_of_ne (Int.ne_of_lt hlt)]
    · rw [List.takeWhile_cons_of_neg (by exact fun h => hlt (of_decide_eq_true h)),
        List.length_nil, List.getElem?_cons_zero]
      by_cases heq : p.time = t
      · rw [Option.filter_some_pos (by exact beq_iff_eq.2 heq), Option.map_some,
          valueAt?_cons_of_eq heq]
      · -- all points are after the time
        have hlater : ∀ q ∈ p :: rest, q.time ≠ t := by
          refine List.forall_mem_cons.2 ⟨heq, fun q hq hqt => hlt ?_⟩
          exact hqt ▸ hp q hq
        rw [Option.filter_some_neg (by exact beq_eq_false_iff_ne.2 heq), Option.map_none,
          valueAt?_eq_none hlater]

/-- `ps.asOf? t = match (ps.upTo t).length with | 0 => none | k + 1 => ps[k]?`: the last point up to
a time is before the place at which these points end. -/
theorem asOf?_eq_getElem? (ps : Points α) (t : Instant) :
    ps.asOf? t = match (ps.upTo t).length with
      | 0 => none
      | k + 1 => ps[k]? := by
  have hprefix : ps.upTo t <+: ps := List.takeWhile_prefix _
  rw [asOf?, List.getLast?_eq_getElem?]
  cases hlength : (ps.upTo t).length with
  | zero => rw [List.length_eq_zero_iff.1 hlength, List.getElem?_nil]
  | succ k =>
    have hk : k < (ps.upTo t).length := hlength ▸ Nat.lt_succ_self k
    rw [Nat.add_sub_cancel, List.getElem?_eq_getElem hk, hprefix.getElem hk]
    exact (List.getElem?_eq_getElem _).symm

/-! ## (4) Points between two times -/

/-- `ps.between low high = []`: there are no points between two times the second of which is before
all points. -/
theorem between_eq_nil (h : ∀ p ∈ ps, high < p.time) : ps.between low high = [] := by
  refine List.filter_eq_nil_iff.2 fun p hp hpass => ?_
  rw [Bool.and_eq_true, decide_eq_true_eq, decide_eq_true_eq] at hpass
  exact Int.not_le.2 (h p hp) hpass.2

/-- The points up to the second of two times, without those before the first: `ps.between low high`
is `(ps.take (ps.upTo high).length).drop (ps.takeWhile fun p => decide (p.time < low)).length`. -/
theorem Increasing.between_eq_drop (h : ps.Increasing) (low high : Instant) :
    ps.between low high = (ps.take (ps.upTo high).length).drop
      (ps.takeWhile fun p => decide (p.time < low)).length := by
  induction ps with
  | nil => rfl
  | cons p rest ih =>
    obtain ⟨hp, hrest⟩ := increasing_cons.1 h
    by_cases hhigh : p.time ≤ high
    · have hupTo : upTo (p :: rest) high = p :: upTo rest high :=
        List.takeWhile_cons_of_pos (decide_eq_true hhigh)
      rw [hupTo, List.length_cons, List.take_succ_cons]
      by_cases hlow : p.time < low
      · -- the point is dropped on either side
        rw [List.takeWhile_cons_of_pos (by exact decide_eq_true hlow), List.length_cons,
          List.drop_succ_cons]
        have hout : ¬(decide (low ≤ p.time) && decide (p.time ≤ high)) = true := by
          rw [Bool.and_eq_true, decide_eq_true_eq]
          exact fun hin => Int.not_le.2 hlow hin.1
        have hbetween : between (p :: rest) low high = between rest low high :=
          List.filter_cons_of_neg hout
        rw [hbetween, ih hrest]
      · -- no later point is before the first time either
        have hnone : (rest.takeWhile fun p => decide (p.time < low)) = [] := by
          cases rest with
          | nil => rfl
          | cons q rest =>
            refine List.takeWhile_cons_of_neg fun hq => hlow ?_
            exact Int.lt_trans (hp q List.mem_cons_self) (of_decide_eq_true hq)
        have hin : (decide (low ≤ p.time) && decide (p.time ≤ high)) = true := by
          rw [Bool.and_eq_true, decide_eq_true_eq, decide_eq_true_eq]
          exact ⟨Int.not_lt.1 hlow, hhigh⟩
        have hbetween : between (p :: rest) low high = p :: between rest low high :=
          List.filter_cons_of_pos hin
        rw [List.takeWhile_cons_of_neg (by exact fun h => hlow (of_decide_eq_true h)), hbetween,
          ih hrest, hnone, List.length_nil, List.drop_zero, List.drop_zero]
    · have hupTo : upTo (p :: rest) high = [] :=
        List.takeWhile_cons_of_neg fun h => hhigh (of_decide_eq_true h)
      rw [hupTo, List.length_nil, List.take_zero, List.drop_nil]
      refine between_eq_nil (List.forall_mem_cons.2 ⟨Int.not_le.1 hhigh, fun q hq => ?_⟩)
      exact Int.lt_trans (Int.not_le.1 hhigh) (hp q hq)

/-! ## (5) Writes -/

/-- One more write is at the place of the first point that is not before it. -/
theorem Increasing.insert_eq_insertIdx (h : ps.Increasing) (p : Point α) :
    ps.insert p =
      if ps[(ps.takeWhile fun q => decide (q.time < p.time)).length]?.any fun q => q.time == p.time
      then ps.set (ps.takeWhile fun q => decide (q.time < p.time)).length p
      else ps.insertIdx (ps.takeWhile fun q => decide (q.time < p.time)).length p := by
  induction ps with
  | nil => rfl
  | cons q rest ih =>
    obtain ⟨hq, hrest⟩ := increasing_cons.1 h
    by_cases hlt : q.time < p.time
    · rw [List.takeWhile_cons_of_pos (by exact decide_eq_true hlt), List.length_cons,
        List.getElem?_cons_succ, List.set_cons_succ, List.insertIdx_succ_cons, Points.insert,
        if_neg (Int.not_lt.2 (Int.le_of_lt hlt)), if_neg (Int.ne_of_gt hlt), ih hrest]
      split
      · rfl
      · rfl
    · rw [List.takeWhile_cons_of_neg (by exact fun h => hlt (of_decide_eq_true h)),
        List.length_nil, List.getElem?_cons_zero, List.set_cons_zero, List.insertIdx_zero,
        Option.any_some, Points.insert]
      by_cases heq : p.time = q.time
      · rw [if_neg (Int.not_lt.2 (Int.le_of_eq heq.symm)), if_pos heq,
          if_pos (beq_iff_eq.2 heq.symm)]
      · have hgt : p.time < q.time := Int.lt_iff_le_and_ne.2 ⟨Int.not_lt.1 hlt, heq⟩
        rw [if_pos hgt, if_neg (fun h => heq (beq_iff_eq.1 h).symm)]

/-! ## (6) Points in order -/

/-- Look-ups and writes by places come to the same as those one by one. -/
structure Searchable (ps : Points α) : Prop where
  searchValue?_eq : ∀ t, ps.searchValue? t = ps.valueAt? t
  searchLast?_eq : ∀ t, ps.searchLast? t = ps.asOf? t
  searchBetween_eq : ∀ low high, ps.searchBetween low high = ps.between low high
  searchInsert_eq : ∀ p, ps.searchInsert p = ps.insert p

/-- **Points in order may be searched by halving**: `ps.Searchable`. -/
theorem Increasing.searchable (h : ps.Increasing) : ps.Searchable := by
  constructor
  case searchValue?_eq =>
    intro t
    rw [searchValue?, h.place_lt, h.valueAt?_eq_filter]
  case searchLast?_eq =>
    intro t
    rw [searchLast?, h.place_le, asOf?_eq_getElem?]
  case searchBetween_eq =>
    intro low high
    rw [searchBetween, h.place_lt, h.place_le, h.between_eq_drop]
    split
    · rename_i hle
      rw [List.drop_eq_nil_of_le]
      exact Nat.le_trans (List.length_take_le _ _) hle
    · rfl
  case searchInsert_eq =>
    intro p
    rw [searchInsert, h.place_lt, h.insert_eq_insertIdx]

end PanelQuery.Points
