import PanelQuery.Time.Instant

/-! # Distinct sorted instants

The dates that several series have, in order and each once.

* **`mergeSort_pairwise_le`** — what is sorted by time is in order of time;
* **`filter_mergeSort_of_pairwise`** — what is in order as it stands stays so;
* **`mem_distinctSorted`** — no date is lost and none is made up;
* **`distinctSorted_pairwise`** — they are strictly increasing. -/

namespace PanelQuery

/-- **What is sorted by time is in order of time**:
`(bs.mergeSort fun b c => decide (time b ≤ time c)).Pairwise fun b c => time b ≤ time c`. -/
theorem mergeSort_pairwise_le {β : Type} (time : β → Instant) (bs : List β) :
    (bs.mergeSort fun b c => decide (time b ≤ time c)).Pairwise fun b c => time b ≤ time c := by
  have hsorted : (bs.mergeSort fun b c => decide (time b ≤ time c)).Pairwise
      (fun b c => decide (time b ≤ time c) = true) := by
    refine List.pairwise_mergeSort (fun b c d hbc hcd => ?_) (fun b c => ?_) bs
    · exact decide_eq_true (Int.le_trans (of_decide_eq_true hbc) (of_decide_eq_true hcd))
    · rw [Bool.or_eq_true, decide_eq_true_eq, decide_eq_true_eq]
      exact Int.le_total _ _
  exact hsorted.imp fun h => of_decide_eq_true h

/-- **Sorting keeps the order** of those elements of a list that are in order as they stand:
`(bs.mergeSort le).filter test = bs.filter test`. -/
theorem filter_mergeSort_of_pairwise {β : Type} {le : β → β → Bool}
    (htrans : ∀ a b c, le a b = true → le b c = true → le a c = true)
    (htotal : ∀ a b, (le a b || le b a) = true) {test : β → Bool} {bs : List β}
    (h : (bs.filter test).Pairwise fun a b => le a b = true) :
    (bs.mergeSort le).filter test = bs.filter test := by
  have hsub := (List.sublist_mergeSort htrans htotal h List.filter_sublist).filter test
  rw [List.filter_filter, List.filter_congr fun b _ => Bool.and_self _] at hsub
  have hlength := ((bs.mergeSort_perm le).filter test).length_eq
  exact (hsub.eq_of_length hlength.symm).symm

/-- `t ∈ dropRepeats ts ↔ t ∈ ts`: repetitions are dropped, but no instant is lost. -/
theorem mem_dropRepeats {t : Instant} {ts : List Instant} : t ∈ dropRepeats ts ↔ t ∈ ts := by
  fun_induction dropRepeats ts with
  | case1 s rest ih => rw [ih, List.mem_cons (l := s :: rest), List.mem_cons, or_self_left]
  | case2 s s' rest hne ih => rw [List.mem_cons, ih, List.mem_cons (l := s' :: rest)]
  | case3 ts hts => rfl

/-- Of sorted instants, those that follow each other differ once repetitions are dropped:
`(dropRepeats ts).Pairwise (· < ·)`. -/
theorem dropRepeats_pairwise {ts : List Instant} (h : ts.Pairwise (· ≤ ·)) :
    (dropRepeats ts).Pairwise (· < ·) := by
  fun_induction dropRepeats ts with
  | case1 s rest ih => exact ih (List.pairwise_cons.1 h).2
  | case2 s s' rest hne ih =>
    obtain ⟨hs, hrest⟩ := List.pairwise_cons.1 h
    refine List.pairwise_cons.2 ⟨fun t ht => ?_, ih hrest⟩
    -- the next instant is later, and none after it is earlier
    have hlt : s < s' := Int.lt_iff_le_and_ne.2 ⟨hs s' List.mem_cons_self, hne⟩
    rcases List.mem_cons.1 (mem_dropRepeats.1 ht) with rfl | ht
    · exact hlt
    · exact Int.lt_of_lt_of_le hlt ((List.pairwise_cons.1 hrest).1 t ht)
  | case3 ts hts =>
    cases ts with
    | nil => exact List.Pairwise.nil
    | cons s rest =>
      cases rest with
      | nil => exact List.pairwise_singleton _ _
      | cons s' rest => exact absurd rfl (hts s s' rest)

/-- **The distinct instants are the instants**: `t ∈ distinctSorted ts ↔ t ∈ ts`. -/
@[simp] theorem mem_distinctSorted {t : Instant} {ts : List Instant} :
    t ∈ distinctSorted ts ↔ t ∈ ts := by
  rw [distinctSorted, mem_dropRepeats, List.mem_mergeSort]

/-- **Distinct instants are strictly increasing**: `(distinctSorted ts).Pairwise (· < ·)`. -/
theorem distinctSorted_pairwise (ts : List Instant) : (distinctSorted ts).Pairwise (· < ·) :=
  dropRepeats_pairwise (mergeSort_pairwise_le id ts)

end PanelQuery
