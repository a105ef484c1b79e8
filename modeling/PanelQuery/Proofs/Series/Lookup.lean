import PanelQuery.Proofs.Series.Cutting

/-! # Points as a finite map

Of points in order there is at most one of each time, and a look-up finds it.

* **`Points.Increasing.valueAt?_eq_some_iff`** — what is found at a time;
* **`Points.Increasing.carried?_eq_some_iff`** — what is carried forward to a time;
* **`Points.carried?_congr`** — times between which nothing changes. -/

namespace PanelQuery.Points

variable {α : Type} {ps : Points α}

/-! ## (1) Values at a time -/

/-- `p = q`: points in order differ in time. -/
theorem Increasing.eq_of_time_eq (h : ps.Increasing) {p q : Point α} (hp : p ∈ ps) (hq : q ∈ ps)
    (ht : p.time = q.time) : p = q := by
  induction ps with
  | nil => cases hp
  | cons r rest ih =>
    obtain ⟨hr, hrest⟩ := increasing_cons.1 h
    rcases List.mem_cons.1 hp with heq | hp'
    · rcases List.mem_cons.1 hq with heq' | hq'
      · rw [heq, heq']
      · rw [heq] at ht
        exact absurd ht (Int.ne_of_lt (hr q hq'))
    · rcases List.mem_cons.1 hq with heq' | hq'
      · rw [heq'] at ht
        exact absurd ht.symm (Int.ne_of_lt (hr p hp'))
      · exact ih hrest hp' hq'

/-- `valueAt? (p :: ps) t = some p.value`: the value at a time, where the first point has the
time. -/
theorem valueAt?_cons_of_eq {p : Point α} {t : Instant} (h : p.time = t) :
    valueAt? (p :: ps) t = some p.value := by
  rw [valueAt?, List.find?_cons_of_pos (by exact beq_iff_eq.2 h), Option.map_some]

/-- `valueAt? (p :: ps) t = ps.valueAt? t`: the value at a time, where the first point has
another. -/
theorem valueAt?_cons_of_ne {p : Point α} {t : Instant} (h : p.time ≠ t) :
    valueAt? (p :: ps) t = ps.valueAt? t := by
  rw [valueAt?, List.find?_cons_of_neg (by exact fun heq => h (beq_iff_eq.1 heq)), valueAt?]

/-- `ps.valueAt? t = none`: there is no value at a time that no point has. -/
theorem valueAt?_eq_none {t : Instant} (h : ∀ p ∈ ps, p.time ≠ t) : ps.valueAt? t = none := by
  rw [valueAt?, List.find?_eq_none.2 fun p hp heq => h p hp (beq_iff_eq.1 heq), Option.map_none]

/-- `p.time = t`: a point that is found by its time has the time. -/
theorem time_of_find? {t : Instant} {p : Point α} (h : ps.find? (fun p => p.time == t) = some p) :
    p.time = t := by
  simpa using List.find?_some h

/-- **A value is found at a time just when there is a point of that time and value**:
`ps.valueAt? t = some v ↔ (⟨t, v⟩ : Point α) ∈ ps`. -/
theorem Increasing.valueAt?_eq_some_iff (h : ps.Increasing) {t : Instant} {v : α} :
    ps.valueAt? t = some v ↔ (⟨t, v⟩ : Point α) ∈ ps := by
  rw [valueAt?, Option.map_eq_some_iff]
  constructor
  · rintro ⟨p, hfind, rfl⟩
    rw [← time_of_find? hfind]
    exact List.mem_of_find?_eq_some hfind
  · intro hmem
    -- some point of the time is found, and there is no other one
    have hsome : (ps.find? fun p => p.time == t).isSome :=
      List.find?_isSome.2 ⟨_, hmem, beq_self_eq_true t⟩
    obtain ⟨p, hfind⟩ := Option.isSome_iff_exists.1 hsome
    have heq := h.eq_of_time_eq (List.mem_of_find?_eq_some hfind) hmem (time_of_find? hfind)
    exact ⟨p, hfind, congrArg Point.value heq⟩

/-! ## (2) Values carried forward -/

/-- `ps.carried? t = none`: nothing is carried forward to a time before all points. -/
theorem carried?_eq_none {t : Instant} (h : ∀ p ∈ ps, ¬p.time ≤ t) : ps.carried? t = none := by
  cases ps with
  | nil => rfl
  | cons p ps =>
    have hnot : ¬(carried? (p :: ps) t).isSome :=
      fun hsome => h p List.mem_cons_self (isSome_carried?_cons.1 hsome)
    rwa [Option.not_isSome_iff_eq_none] at hnot

/-- `carried? (p :: ps) t = some ((ps.carried? t).getD p.value)`: what is carried forward to a time
up to which the first point comes. -/
theorem carried?_cons_of_le {p : Point α} {t : Instant} (h : p.time ≤ t) :
    carried? (p :: ps) t = some ((ps.carried? t).getD p.value) := by
  unfold carried? asOf? upTo
  rw [List.takeWhile_cons_of_pos (by exact decide_eq_true h), List.getLast?_cons]
  cases (ps.takeWhile fun p => decide (p.time ≤ t)).getLast? with
  | none => rfl
  | some q => rfl

/-- `ps.carried? t = some p.value`: the value of the last point up to a time is carried forward to
the time. -/
theorem Increasing.carried?_of_last (h : ps.Increasing) {p : Point α} (hp : p ∈ ps) {t : Instant}
    (ht : p.time ≤ t) (hlast : ∀ q ∈ ps, q.time ≤ t → q.time ≤ p.time) :
    ps.carried? t = some p.value := by
  induction ps with
  | nil => cases hp
  | cons q rest ih =>
    obtain ⟨hq, hrest⟩ := increasing_cons.1 h
    have hlast' : ∀ r ∈ rest, r.time ≤ t → r.time ≤ p.time :=
      fun r hr => hlast r (List.mem_cons_of_mem q hr)
    rcases List.mem_cons.1 hp with rfl | hp'
    · -- it is the first point, and no other one comes up to the time
      have hnone : carried? rest t = none := carried?_eq_none fun r hr hrt =>
        Int.not_le.2 (hq r hr) (hlast' r hr hrt)
      rw [carried?_cons_of_le ht, hnone, Option.getD_none]
    · have hqt : q.time ≤ t := Int.le_trans (Int.le_of_lt (hq p hp')) ht
      rw [carried?_cons_of_le hqt, ih hrest hp' hlast', Option.getD_some]

/-- Of points in order, some of which come up to a time, there is a last one:
`∃ p ∈ ps, p.time ≤ t ∧ ∀ q ∈ ps, q.time ≤ t → q.time ≤ p.time`. -/
theorem exists_last {t : Instant} (h : ∃ p ∈ ps, p.time ≤ t) :
    ∃ p ∈ ps, p.time ≤ t ∧ ∀ q ∈ ps, q.time ≤ t → q.time ≤ p.time := by
  induction ps with
  | nil =>
    obtain ⟨p, hp, -⟩ := h
    cases hp
  | cons q rest ih =>
    by_cases hrest : ∃ p ∈ rest, p.time ≤ t
    · obtain ⟨p, hp, hpt, hlast⟩ := ih hrest
      -- the later one of the first point and the last of the others
      by_cases hqp : q.time ≤ t → q.time ≤ p.time
      · exact ⟨p, List.mem_cons_of_mem q hp, hpt, List.forall_mem_cons.2 ⟨hqp, hlast⟩⟩
      · obtain ⟨hqt, hlt⟩ := Classical.not_imp.1 hqp
        refine ⟨q, List.mem_cons_self, hqt, List.forall_mem_cons.2 ⟨fun _ => Int.le_refl _, ?_⟩⟩
        exact fun r hr hrt => Int.le_trans (hlast r hr hrt) (Int.le_of_lt (Int.not_le.1 hlt))
    · obtain ⟨p, hp, hpt⟩ := h
      rcases List.mem_cons.1 hp with rfl | hp
      · refine ⟨p, List.mem_cons_self, hpt, List.forall_mem_cons.2 ⟨fun _ => Int.le_refl _, ?_⟩⟩
        exact fun r hr hrt => absurd ⟨r, hr, hrt⟩ hrest
      · exact absurd ⟨p, hp, hpt⟩ hrest

/-- **A value is carried forward to a time just when it is that of the last point up to the time**:
`ps.carried? t = some v` just when
`∃ p ∈ ps, p.value = v ∧ p.time ≤ t ∧ ∀ q ∈ ps, q.time ≤ t → q.time ≤ p.time`. -/
theorem Increasing.carried?_eq_some_iff (h : ps.Increasing) {t : Instant} {v : α} :
    ps.carried? t = some v ↔
      ∃ p ∈ ps, p.value = v ∧ p.time ≤ t ∧ ∀ q ∈ ps, q.time ≤ t → q.time ≤ p.time := by
  constructor
  · intro hv
    have hbegun : ∃ p ∈ ps, p.time ≤ t := by
      by_contra hnot
      have hnone := carried?_eq_none fun p hp hpt => hnot ⟨p, hp, hpt⟩
      rw [hv] at hnone
      cases hnone
    obtain ⟨p, hp, hpt, hlast⟩ := exists_last hbegun
    rw [h.carried?_of_last hp hpt hlast] at hv
    exact ⟨p, hp, Option.some.inj hv, hpt, hlast⟩
  · rintro ⟨p, hp, rfl, hpt, hlast⟩
    exact h.carried?_of_last hp hpt hlast

/-- **The same is carried forward to times that have the same points before them**:
`ps.carried? s = ps.carried? t`. -/
theorem carried?_congr {s t : Instant} (h : ∀ p ∈ ps, p.time ≤ s ↔ p.time ≤ t) :
    ps.carried? s = ps.carried? t := by
  have hsame : ps.upTo s = ps.upTo t := by
    induction ps with
    | nil => rfl
    | cons p ps ih =>
      obtain ⟨hp, hps⟩ := List.forall_mem_cons.1 h
      have ih := ih hps
      unfold upTo at ih ⊢
      rw [List.takeWhile_cons, List.takeWhile_cons, ih, decide_eq_decide.2 hp]
  rw [carried?, asOf?, hsame, carried?, asOf?]

end PanelQuery.Points
