import PanelQuery.Formula.Application
import PanelQuery.Proofs.Alignment
import PanelQuery.Proofs.Formula.Lookback

/-! # What a run reads

The report of a program knows every series that the program loads, and the series of a run share the
dates of its driver where several of them are read.

* **`Report.mem_fields_iff`, `Report.lowestField?_eq_some`, `Report.le_greatest`** — the fields that
  a program reads, the least and the greatest of them;
* **`alignedInputs_cutAt`** — the series of a run on a cut entity;
* **`alignedInputs_field`, `alignedInputs_times`** — the fields that are read, and their dates;
* **`outputs_of_there`, `outputs_of_missing`** — outputs, by whether these fields are there. -/

namespace PanelQuery.Formula

/-! ## (1) Reports -/

section Reports

variable {p : Program}

/-- **The fields of a report** are those that the program loads:
`n ∈ (Report.of p).fields ↔ p.Reads (.field n)`. -/
theorem Report.mem_fields_iff {n : Nat} : n ∈ (Report.of p).fields ↔ p.Reads (.field n) := by
  refine List.mem_eraseDups.trans (List.mem_mergeSort.trans (List.mem_filterMap.trans ?_))
  refine exists_congr fun op => and_congr_right fun _ => ?_
  split
  · rename_i k href
    rw [href]
    exact ⟨fun h => by rw [Option.some.inj h], fun h => by cases h; rfl⟩
  · rename_i hno
    exact ⟨fun h => (nomatch h), fun h => absurd h (hno n)⟩

/-- A field that a program loads is in its report: `n ∈ (Report.of p).fields`. -/
theorem Report.mem_fields {n : Nat} (h : p.Reads (.field n)) : n ∈ (Report.of p).fields :=
  mem_fields_iff.2 h

/-- A program is broadcast just when it loads `val`. -/
theorem Report.usesBroadcast_iff : (Report.of p).usesBroadcast = true ↔ p.Reads .broadcast :=
  List.contains_iff_mem.trans List.mem_filterMap

/-- `(Report.of p).usesOutput = true ↔ p.Reads .output`: a program uses the output just when it
loads from it. -/
theorem Report.usesOutput_iff : (Report.of p).usesOutput = true ↔ p.Reads .output :=
  List.contains_iff_mem.trans List.mem_filterMap

/-- Without repetitions, some of the elements are left, in the same order:
`ns.eraseDups.Sublist ns`. -/
theorem eraseDups_sublist_self (ns : List Nat) : ns.eraseDups.Sublist ns := by
  cases ns with
  | nil => exact List.Sublist.refl _
  | cons n ns =>
    rw [List.eraseDups_cons]
    refine List.Sublist.cons_cons n ?_
    exact (eraseDups_sublist_self _).trans List.filter_sublist
termination_by ns.length
decreasing_by exact Nat.lt_succ_of_le (List.length_filter_le _ _)

/-- The fields of a report are in order: `(Report.of p).fields.Pairwise (· ≤ ·)`. -/
theorem Report.fields_pairwise : (Report.of p).fields.Pairwise (· ≤ ·) := by
  refine List.Pairwise.sublist (eraseDups_sublist_self _) ?_
  refine (List.pairwise_mergeSort (fun a b c hab hbc => ?_) (fun a b => ?_) _).imp
    fun hab => of_decide_eq_true hab
  · exact decide_eq_true (Nat.le_trans (of_decide_eq_true hab) (of_decide_eq_true hbc))
  · rw [Bool.or_eq_true, decide_eq_true_eq, decide_eq_true_eq]
    exact Nat.le_total _ _

/-- **The first field of a report is the least one**: `(Report.of p).lowestField? = some lowest`. -/
theorem Report.lowestField?_eq_some {lowest : Nat} (h : lowest ∈ (Report.of p).fields)
    (hleast : ∀ n ∈ (Report.of p).fields, lowest ≤ n) :
    (Report.of p).lowestField? = some lowest := by
  have hsorted := fields_pairwise (p := p)
  unfold lowestField?
  cases hfields : (Report.of p).fields with
  | nil =>
    rw [hfields] at h
    cases h
  | cons first rest =>
    rw [hfields] at h hleast hsorted
    have hle : lowest ≤ first := hleast first List.mem_cons_self
    rcases List.mem_cons.1 h with rfl | h
    · rfl
    · rw [Nat.le_antisymm hle ((List.pairwise_cons.1 hsorted).1 lowest h)]
      rfl

/-- **The last field of a report is the greatest one**: `n ≤ greatest`. -/
theorem Report.le_greatest {n greatest : Nat} (h : n ∈ (Report.of p).fields)
    (hlast : (Report.of p).fields.getLast? = some greatest) : n ≤ greatest := by
  have hsorted := fields_pairwise (p := p)
  obtain ⟨before, hfields⟩ := List.getLast?_eq_some_iff.1 hlast
  rw [hfields] at h hsorted
  rcases List.mem_append.1 h with h | h
  · exact (List.pairwise_append.1 hsorted).2.2 n h greatest (List.mem_singleton.2 rfl)
  · exact Nat.le_of_eq (List.mem_singleton.1 h)

end Reports

/-! ## (2) Fields in their places -/

section Places

variable {β γ : Type}

/-- `putAll bs places`: a list with elements put into some places, one after the other. -/
def putAll (bs : List β) (places : List (Nat × β)) : List β :=
  places.foldl (fun bs x => bs.set x.1 x.2) bs

/-- `(putAll bs places).map f = putAll (bs.map f) (places.map (Prod.map id f))`: elements may be
changed before they are put into their places. -/
theorem putAll_map (f : β → γ) (bs : List β) (places : List (Nat × β)) :
    (putAll bs places).map f = putAll (bs.map f) (places.map (Prod.map id f)) := by
  unfold putAll
  induction places generalizing bs with
  | nil => rfl
  | cons x places ih => rw [List.foldl_cons, ih, List.map_cons, List.foldl_cons, List.map_set]; rfl

/-- `(putAll bs places)[n]? = bs[n]?`: places into which nothing is put stay as they are. -/
theorem getElem?_putAll_of_not_mem {n : Nat} {places : List (Nat × β)}
    (h : n ∉ places.map Prod.fst) (bs : List β) : (putAll bs places)[n]? = bs[n]? := by
  unfold putAll
  induction places generalizing bs with
  | nil => rfl
  | cons x places ih =>
    rw [List.map_cons, List.mem_cons, not_or] at h
    rw [List.foldl_cons, ih h.2, List.getElem?_set_ne (Ne.symm h.1)]

/-- **A place holds what was last put into it**:
`∃ b, (n, b) ∈ places ∧ (putAll bs places)[n]? = some b`. -/
theorem getElem?_putAll {n : Nat} {places : List (Nat × β)} (h : n ∈ places.map Prod.fst)
    {bs : List β} (hn : n < bs.length) :
    ∃ b, (n, b) ∈ places ∧ (putAll bs places)[n]? = some b := by
  unfold putAll
  induction places generalizing bs with
  | nil => cases h
  | cons x places ih =>
    rw [List.foldl_cons]
    by_cases hlater : n ∈ places.map Prod.fst
    · obtain ⟨b, hb, hget⟩ := ih hlater (by rwa [List.length_set] : n < (bs.set x.1 x.2).length)
      exact ⟨b, List.mem_cons_of_mem _ hb, hget⟩
    · obtain rfl : n = x.1 := by
        rw [List.map_cons] at h
        exact (List.mem_cons.1 h).resolve_right hlater
      refine ⟨x.2, List.mem_cons_self, ?_⟩
      rw [← putAll, getElem?_putAll_of_not_mem hlater, List.getElem?_set_self hn]

end Places

/-! ## (3) Aligned inputs -/

section AlignedInputs

variable {r : Report} {driver : Series Float} {fields : List (Series Float)}

/-- `fieldsRead r fields`: the fields that a report names. -/
def fieldsRead (r : Report) (fields : List (Series Float)) : List (Series Float) :=
  r.fields.filterMap fun n => fields[n]?

/-- `datesRead r driver fields`: the dates on which several fields are read. -/
def datesRead (r : Report) (driver : Series Float) (fields : List (Series Float)) : List Instant :=
  Series.commonDates driver (driver :: fieldsRead r fields)

/-- `alignedInputs r driver fields = (driver, fields)`: without alignment, driver and fields are as
they are. -/
theorem alignedInputs_of_not_needsAlignment (h : r.needsAlignment = false) :
    alignedInputs r driver fields = (driver, fields) := by
  rw [alignedInputs, h]
  rfl

/-- With alignment, the driver and the fields that are read are on the common dates. -/
theorem alignedInputs_of_needsAlignment (h : r.needsAlignment = true) :
    alignedInputs r driver fields = (driver.carriedTo (datesRead r driver fields),
      putAll fields (r.fields.zip
        ((fieldsRead r fields).map (Series.carriedTo (datesRead r driver fields))))) := by
  rw [alignedInputs, h]
  rfl

/-- The fields that are read of cut ones:
`fieldsRead r (fields.map (Series.cutAt d)) = (fieldsRead r fields).map (Series.cutAt d)`. -/
theorem fieldsRead_cutAt (d : Instant) :
    fieldsRead r (fields.map (Series.cutAt d)) = (fieldsRead r fields).map (Series.cutAt d) := by
  unfold fieldsRead
  rw [List.map_filterMap]
  refine congrArg (List.filterMap · r.fields) (funext fun n => ?_)
  rw [List.getElem?_map]

/-- Fields that are read are fields: `s ∈ fields`. -/
theorem mem_of_mem_fieldsRead {s : Series Float} (h : s ∈ fieldsRead r fields) : s ∈ fields := by
  obtain ⟨n, -, hn⟩ := List.mem_filterMap.1 h
  exact List.mem_of_getElem? hn

/-- `(fieldsRead r fields).length = r.fields.length`: where all fields that a report names are
there, none is left out. -/
theorem length_fieldsRead (h : ∀ n ∈ r.fields, n < fields.length) :
    (fieldsRead r fields).length = r.fields.length := by
  unfold fieldsRead
  revert h
  induction r.fields with
  | nil => exact fun _ => rfl
  | cons n ns ih =>
    intro h
    obtain ⟨hn, hns⟩ := List.forall_mem_cons.1 h
    rw [List.filterMap_cons_some (List.getElem?_eq_getElem hn), List.length_cons, ih hns,
      List.length_cons]

/-- What goes into a place is the field of this place, changed:
`∃ s, fields[n]? = some s ∧ b = g s`. -/
theorem mem_zip_fieldsRead {β : Type} (g : Series Float → β)
    (h : ∀ n ∈ r.fields, n < fields.length) {n : Nat} {b : β}
    (hmem : (n, b) ∈ r.fields.zip ((fieldsRead r fields).map g)) :
    ∃ s, fields[n]? = some s ∧ b = g s := by
  unfold fieldsRead at hmem
  revert h hmem
  induction r.fields with
  | nil => exact fun _ hmem => by cases hmem
  | cons k ks ih =>
    intro h hmem
    obtain ⟨hk, hks⟩ := List.forall_mem_cons.1 h
    rw [List.filterMap_cons_some (List.getElem?_eq_getElem hk), List.map_cons,
      List.zip_cons_cons] at hmem
    rcases List.mem_cons.1 hmem with heq | hmem
    · obtain ⟨rfl, rfl⟩ := Prod.mk.inj heq
      exact ⟨_, List.getElem?_eq_getElem hk, rfl⟩
    · exact ih hks hmem

/-- **A field that is read with others** is moved to the common dates, in its place:
`(alignedInputs r driver fields).2[n]? = some (s.carriedTo (datesRead r driver fields))`. -/
theorem alignedInputs_field (halign : r.needsAlignment = true)
    (h : ∀ n ∈ r.fields, n < fields.length) {n : Nat} (hn : n ∈ r.fields) {s : Series Float}
    (hs : fields[n]? = some s) : (alignedInputs r driver fields).2[n]? =
      some (s.carriedTo (datesRead r driver fields)) := by
  rw [alignedInputs_of_needsAlignment halign]
  have hplaces : n ∈ (r.fields.zip ((fieldsRead r fields).map
      (Series.carriedTo (datesRead r driver fields)))).map Prod.fst := by
    rw [List.map_fst_zip (by rw [List.length_map, length_fieldsRead h])]
    exact hn
  obtain ⟨b, hb, hget⟩ := getElem?_putAll hplaces (h n hn)
  obtain ⟨s', hs', rfl⟩ := mem_zip_fieldsRead _ h hb
  obtain rfl : s = s' := Option.some.inj (hs.symm.trans hs')
  exact hget

/-- **The inputs of a cut entity are the cut inputs.** -/
theorem alignedInputs_cutAt (hdriver : driver.Increasing) (hfields : ∀ s ∈ fields, s.Increasing)
    (d : Instant) :
    alignedInputs r (driver.cutAt d) (fields.map (Series.cutAt d)) =
      ((alignedInputs r driver fields).1.cutAt d,
        (alignedInputs r driver fields).2.map (Series.cutAt d)) := by
  cases h : r.needsAlignment with
  | false => rw [alignedInputs_of_not_needsAlignment h, alignedInputs_of_not_needsAlignment h]
  | true =>
    have hread : ∀ s ∈ driver :: fieldsRead r fields, s.Increasing :=
      List.forall_mem_cons.2 ⟨hdriver, fun s hs => hfields s (mem_of_mem_fieldsRead hs)⟩
    -- cutting the dates is cutting the series
    have hdates : datesRead r (driver.cutAt d) (fields.map (Series.cutAt d)) =
        (datesRead r driver fields).filter fun t => decide (t ≤ d) := by
      rw [datesRead, fieldsRead_cutAt, ← List.map_cons]
      exact Series.commonDates_cutAt hdriver hread d
    have hpairwise : (datesRead r driver fields).Pairwise (· < ·) :=
      Series.commonDates_pairwise hdriver _
    rw [alignedInputs_of_needsAlignment h, alignedInputs_of_needsAlignment h, hdates,
      Series.carriedTo_cutAt hpairwise hdriver, putAll_map, fieldsRead_cutAt, List.map_map,
      ← List.zip_map_right, List.map_map]
    refine Prod.ext rfl (congrArg
      (fun ss => putAll (fields.map (Series.cutAt d)) (r.fields.zip ss)) ?_)
    refine List.map_congr_left fun s hs => ?_
    exact Series.carriedTo_cutAt hpairwise (hfields s (mem_of_mem_fieldsRead hs)) d

/-- The driver of a run is in order: `(alignedInputs r driver fields).1.Increasing`. -/
theorem increasing_alignedInputs (hdriver : driver.Increasing) :
    (alignedInputs r driver fields).1.Increasing := by
  cases h : r.needsAlignment with
  | false =>
    rw [alignedInputs_of_not_needsAlignment h]
    exact hdriver
  | true =>
    rw [alignedInputs_of_needsAlignment h]
    exact Series.increasing_withPoints _ _

/-- **Every field that is read has the dates of the driver**, if it has its place among the fields,
and is the driver where nothing is aligned: there is `s` with
`(alignedInputs r driver fields).2[n]? = some s` and
`s.points.times = (alignedInputs r driver fields).1.points.times`. -/
theorem alignedInputs_times (hdriver : driver.Increasing)
    (hrange : ∀ n ∈ r.fields, n < fields.length)
    (hone : r.needsAlignment = false → ∀ n ∈ r.fields, fields[n]? = some driver) {n : Nat}
    (hn : n ∈ r.fields) : ∃ s, (alignedInputs r driver fields).2[n]? = some s ∧
      s.points.times = (alignedInputs r driver fields).1.points.times := by
  cases h : r.needsAlignment with
  | false =>
    rw [alignedInputs_of_not_needsAlignment h]
    exact ⟨driver, hone h n hn, rfl⟩
  | true =>
    -- each of these fields is moved in its place
    obtain ⟨s, hs⟩ : ∃ s, fields[n]? = some s := ⟨_, List.getElem?_eq_getElem (hrange n hn)⟩
    have hread : s ∈ fieldsRead r fields := List.mem_filterMap.2 ⟨n, hn, hs⟩
    refine ⟨_, alignedInputs_field h hrange hn hs, ?_⟩
    rw [alignedInputs_of_needsAlignment h]
    refine (Series.times_carriedTo hdriver (List.mem_cons_of_mem _ hread)).trans ?_
    exact (Series.times_carriedTo hdriver List.mem_cons_self).symm

end AlignedInputs

/-! ## (4) Outputs -/

section Outputs

variable {p : Program} {e : Entity Float} {o : Overflow}

/-- `outputs p (.of p) e o = outputs.make p (.of p) e o e.fields`: the outputs where all fields that
are read are there. -/
theorem outputs_of_there (h : ∀ n ∈ (Report.of p).fields, n < e.fields.length) :
    outputs p (.of p) e o = outputs.make p (.of p) e o e.fields := by
  unfold outputs
  cases hlast : (Report.of p).fields.getLast? with
  | none => rfl
  | some greatest => exact if_neg (Nat.not_le.2 (h greatest (List.mem_of_getLast? hlast)))

/-- There are none where one of the fields is missing, and the greatest one that is read is missed:
for some `greatest ∈ (Report.of p).fields`,
`e.fields.length ≤ greatest ∧ outputs p (.of p) e o = .error (.missingField (greatest + 1))`. -/
theorem outputs_of_missing {n : Nat} (hn : n ∈ (Report.of p).fields) (h : e.fields.length ≤ n) :
    ∃ greatest ∈ (Report.of p).fields, e.fields.length ≤ greatest ∧
      outputs p (.of p) e o = .error (.missingField (greatest + 1)) := by
  obtain ⟨greatest, hlast⟩ := Option.ne_none_iff_exists'.1
    (mt List.getLast?_eq_none_iff.1 (List.ne_nil_of_mem hn))
  have hmissing := Nat.le_trans h (Report.le_greatest hn hlast)
  refine ⟨greatest, List.mem_of_getLast? hlast, hmissing, ?_⟩
  unfold outputs
  rw [hlast]
  exact if_pos hmissing

/-- The one output of a program that is not broadcast, over the first field that it reads. -/
theorem make_of_not_usesBroadcast (h : ¬(Report.of p).usesBroadcast = true)
    {fields : List (Series Float)} {first : Series Float}
    (hfirst : fields[(Report.of p).lowestField?.getD 0]? = some first) :
    outputs.make p (.of p) e o fields = (runOver p (.of p) e fields first false o).map fun ps =>
      [.ofWrites (outputHeader p.source first (fieldsRead (.of p) fields)) ps] := by
  unfold outputs.make
  rw [if_neg h, hfirst]
  rfl

end Outputs

end PanelQuery.Formula
