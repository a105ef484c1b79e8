import PanelQuery.Proofs.Time.Sorted
import PanelQuery.Series

/-! # Points in order of time

Points are in strictly increasing order of time wherever a function of the library makes them, and
stay so wherever one changes them. Every such function writes points, or selects from some that are
in order.

* **`Points.Increasing`** — strictly increasing times;
* **`Points.increasing_ofWrites`** — what a list of writes leaves;
* **`Points.Increasing.insert`** — one more write;
* **`Series.Increasing`** — series, in the same sense. -/

namespace PanelQuery

variable {α : Type}

/-! ## (1) Points -/

namespace Points

/-- Points in strictly increasing order of time. -/
def Increasing (ps : Points α) : Prop := ps.Pairwise fun p q => p.time < q.time

instance (ps : Points α) : Decidable ps.Increasing :=
  inferInstanceAs (Decidable (ps.Pairwise _))

/-- No points are in order: `Increasing ([] : Points α)`. -/
theorem increasing_nil : Increasing ([] : Points α) := List.Pairwise.nil

/-- `Increasing (p :: ps) ↔ (∀ q ∈ ps, p.time < q.time) ∧ ps.Increasing`: points of which the first
comes before all others. -/
theorem increasing_cons {p : Point α} {ps : Points α} :
    Increasing (p :: ps) ↔ (∀ q ∈ ps, p.time < q.time) ∧ ps.Increasing :=
  List.pairwise_cons

/-- Some of the points, in the same order: `qs.Increasing`. -/
theorem Increasing.sublist {ps qs : Points α} (h : ps.Increasing) (hqs : qs.Sublist ps) :
    qs.Increasing :=
  List.Pairwise.sublist hqs h

/-- The points that pass a test: `Increasing (ps.filter test)`. -/
theorem Increasing.filter {ps : Points α} (h : ps.Increasing) (test : Point α → Bool) :
    Increasing (ps.filter test) :=
  h.sublist List.filter_sublist

/-- Of the points of one time, one of the list is kept: `p ∈ ps`. -/
theorem mem_of_mem_keepLast {ps : Points α} {p : Point α} (h : p ∈ ps.keepLast) : p ∈ ps := by
  fun_induction keepLast ps with
  | case1 p' q rest heq ih => exact List.mem_cons_of_mem _ (ih h)
  | case2 p' q rest hne ih =>
    rcases List.mem_cons.1 h with rfl | h
    · exact List.mem_cons_self
    · exact List.mem_cons_of_mem _ (ih h)
  | case3 ps hps => exact h

/-- Sorted points, of which those of one time are dropped but for the last:
`ps.keepLast.Increasing`. -/
theorem increasing_keepLast {ps : Points α} (h : ps.Pairwise fun p q => p.time ≤ q.time) :
    ps.keepLast.Increasing := by
  fun_induction keepLast ps with
  | case1 p q rest heq ih => exact ih (List.pairwise_cons.1 h).2
  | case2 p q rest hne ih =>
    obtain ⟨hp, hrest⟩ := List.pairwise_cons.1 h
    rw [increasing_cons]
    refine ⟨fun r hr => ?_, ih hrest⟩
    -- the next point is later, and no point after it is earlier
    have hq : p.time < q.time := Int.lt_iff_le_and_ne.2 ⟨hp q List.mem_cons_self, hne⟩
    rcases List.mem_cons.1 (mem_of_mem_keepLast hr) with rfl | hr
    · exact hq
    · exact Int.lt_of_lt_of_le hq ((List.pairwise_cons.1 hrest).1 r hr)
  | case3 ps hps =>
    cases ps with
    | nil => exact increasing_nil
    | cons p rest =>
      cases rest with
      | nil => exact List.pairwise_singleton _ _
      | cons q rest => exact absurd rfl (hps p q rest)

/-- **What a list of writes leaves is in order**, whatever the order of the writes:
`(ofWrites ps).Increasing`. -/
theorem increasing_ofWrites (ps : Points α) : (ofWrites ps).Increasing :=
  increasing_keepLast (mergeSort_pairwise_le Point.time ps)

/-- `q = p ∨ q ∈ ps`: after one more write there is the point and what has been there. -/
theorem mem_insert {p q : Point α} {ps : Points α} (h : q ∈ ps.insert p) : q = p ∨ q ∈ ps := by
  induction ps with
  | nil => exact .inl (List.mem_singleton.1 h)
  | cons r rest ih =>
    rw [insert] at h
    split at h
    · exact List.mem_cons.1 h
    split at h
    · exact (List.mem_cons.1 h).imp_right (List.mem_cons_of_mem _)
    · rcases List.mem_cons.1 h with rfl | h
      · exact .inr List.mem_cons_self
      · exact (ih h).imp_right (List.mem_cons_of_mem _)

/-- **One more write keeps the order**: `(ps.insert p).Increasing`. -/
theorem Increasing.insert {ps : Points α} (h : ps.Increasing) (p : Point α) :
    (ps.insert p).Increasing := by
  induction ps with
  | nil => exact List.pairwise_singleton _ _
  | cons q rest ih =>
    obtain ⟨hq, hrest⟩ := increasing_cons.1 h
    rw [Points.insert]
    split
    · -- before all others
      rename_i hlt
      refine increasing_cons.2 ⟨fun r hr => ?_, h⟩
      rcases List.mem_cons.1 hr with rfl | hr
      · exact hlt
      · exact Int.lt_trans hlt (hq r hr)
    split
    · -- in the place of the point of its time
      rename_i heq
      refine increasing_cons.2 ⟨fun r hr => ?_, hrest⟩
      rw [heq]
      exact hq r hr
    · -- further on
      rename_i hlt hne
      refine increasing_cons.2 ⟨fun r hr => ?_, ih hrest⟩
      rcases mem_insert hr with rfl | hr
      · exact Int.lt_iff_le_and_ne.2 ⟨Int.not_lt.1 hlt, fun heq => hne heq.symm⟩
      · exact hq r hr

end Points

/-! ## (2) Series -/

namespace Series

/-- A series whose points are in strictly increasing order of time. -/
def Increasing (s : Series α) : Prop := s.points.Increasing

instance (s : Series α) : Decidable s.Increasing := inferInstanceAs (Decidable s.points.Increasing)

/-- A series of writes is in order: `(ofWrites header writes).Increasing`. -/
theorem increasing_ofWrites (header : Header) (writes : Points α) :
    (ofWrites header writes).Increasing :=
  Points.increasing_ofWrites writes

/-- A weight of writes is in order: `(weight writes).Increasing`. -/
theorem increasing_weight (writes : Points α) : (weight writes).Increasing :=
  Points.increasing_ofWrites writes

/-- A series with other points is in order, whatever it was: `(s.withPoints writes).Increasing`. -/
theorem increasing_withPoints (s : Series α) (writes : Points α) :
    (s.withPoints writes).Increasing :=
  Points.increasing_ofWrites writes

variable {s : Series α}

/-- The points that pass a test: `(s.keep test).Increasing`. -/
theorem Increasing.keep (h : s.Increasing) (test : Point α → Bool) : (s.keep test).Increasing :=
  Points.Increasing.filter h test

/-- One more write: `(s.insert p).Increasing`. -/
theorem Increasing.insert (h : s.Increasing) (p : Point α) : (s.insert p).Increasing :=
  Points.Increasing.insert h p

/-- More writes, one after the other: `(bs.foldl f s).Increasing`. -/
theorem Increasing.foldl {β : Type} {f : Series α → β → Series α}
    (hf : ∀ s b, Increasing s → (f s b).Increasing) (h : s.Increasing) (bs : List β) :
    (bs.foldl f s).Increasing := by
  induction bs generalizing s with
  | nil => exact h
  | cons b bs ih => exact ih (hf s b h)

end Series

end PanelQuery
