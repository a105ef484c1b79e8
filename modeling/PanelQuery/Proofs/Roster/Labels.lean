import Mathlib.Data.List.Nodup
import Mathlib.Data.List.Perm.Subperm
import PanelQuery.Roster

/-! # Labels that are given once

A field that joins an entity keeps its label when that is free. Else its source becomes part of the
label, and when that is taken too, the least free number does. Some number is always free, since no
more numbers can be taken than labels.

* **`Roster.Renaming`** — the label that a field gets, among those that are taken;
* **`Roster.renaming_freshLabel`** — the search for it ends, and finds it;
* **`Roster.Relabelled`** — fields that join one after the other;
* **`Roster.Relabelled.nodup`, `Roster.Relabelled.named`** — their labels. -/

namespace PanelQuery.Roster

/-! ## (1) The search -/

/-- `numbered label n`: a label with a number. -/
def numbered (label : String) (n : Nat) : String := label ++ "_" ++ toString n

/-- `sourced label source`: a label with a source. -/
def sourced (label source : String) : String := label ++ " (" ++ source ++ ")"

/-- The label that a field gets among those that are taken: its own, or with its source, or with the
least number that is free. -/
inductive Renaming (used : List String) (label : String) (source : Option String) : String → Prop
  | kept (free : label ∉ used) : Renaming used label source label
  | withSource (s : String) (from_source : source = some s) (taken : label ∈ used)
      (free : sourced label s ∉ used) : Renaming used label source (sourced label s)
  | withNumber (n : Nat) (pos : 1 ≤ n) (taken : label ∈ used)
      (sourceTaken : ∀ s, source = some s → sourced label s ∈ used)
      (free : numbered label n ∉ used)
      (least : ∀ m, 1 ≤ m → m < n → numbered label m ∈ used) :
      Renaming used label source (numbered label n)

variable {used : List String} {label : String} {source : Option String} {label' : String}

/-- A label that a field gets is free: `label' ∉ used`. -/
theorem Renaming.free (h : Renaming used label source label') : label' ∉ used := by
  cases h with
  | kept free => exact free
  | withSource s hs taken free => exact free
  | withNumber n pos taken sourceTaken free least => exact free

/-- `label' = label`: a label that is free is kept. -/
theorem Renaming.eq_of_not_mem (h : Renaming used label source label') (hfree : label ∉ used) :
    label' = label := by
  cases h with
  | kept free => rfl
  | withSource s hs taken free => exact absurd taken hfree
  | withNumber n pos taken sourceTaken free least => exact absurd taken hfree

/-- Different numbers make different labels: `(numbered label).Injective`. -/
theorem numbered_injective (label : String) : (numbered label).Injective := by
  intro m n h
  have hdigits : Nat.toDigits 10 m = Nat.toDigits 10 n := by
    have hstring := (String.append_right_inj (label ++ "_")).1 h
    rw [Nat.toString_eq_ofList_toDigits, Nat.toString_eq_ofList_toDigits] at hstring
    exact String.ofList_injective hstring
  simpa using congrArg (Nat.ofDigitChars 10 · 0) hdigits

/-- The search stops at the first label that is free, or when it has looked at all that it may:
there is `m` with `n ≤ m`, `countedLabel label used fuel n = numbered label m`,
`(∀ j, n ≤ j → j < m → numbered label j ∈ used)` and `(numbered label m ∉ used ∨ m = n + fuel)`. -/
theorem exists_countedLabel (label : String) (used : List String) (fuel n : Nat) :
    ∃ m, n ≤ m ∧ countedLabel label used fuel n = numbered label m ∧
      (∀ j, n ≤ j → j < m → numbered label j ∈ used) ∧
      (numbered label m ∉ used ∨ m = n + fuel) := by
  induction fuel generalizing n with
  | zero => exact ⟨n, Nat.le_refl n, rfl, fun j hj hlt => absurd hlt (Nat.not_lt.2 hj), .inr rfl⟩
  | succ fuel ih =>
    rw [countedLabel]
    split
    · rename_i htaken
      have htaken : numbered label n ∈ used := List.contains_iff_mem.1 htaken
      obtain ⟨m, hm, heq, hbelow, hstop⟩ := ih (n + 1)
      refine ⟨m, Nat.le_of_succ_le hm, heq, fun j hj hlt => ?_, hstop.imp_right fun h => ?_⟩
      · rcases Nat.eq_or_lt_of_le hj with rfl | hj
        · exact htaken
        · exact hbelow j hj hlt
      · rw [h, Nat.add_right_comm, Nat.add_assoc]
    · rename_i hfree
      refine ⟨n, Nat.le_refl n, rfl, fun j hj hlt => absurd hlt (Nat.not_lt.2 hj), .inl ?_⟩
      exact fun hmem => hfree (List.contains_iff_mem.2 hmem)

/-- **No more numbers can be taken than there are labels**: `count ≤ used.length`. -/
theorem le_length_of_numbered_mem {count : Nat}
    (h : ∀ j, 1 ≤ j → j < 1 + count → numbered label j ∈ used) : count ≤ used.length := by
  have hnodup : ((List.range' 1 count).map (numbered label)).Nodup :=
    List.Nodup.map (numbered_injective label) List.nodup_range'
  have hsubset : (List.range' 1 count).map (numbered label) ⊆ used := by
    intro name hname
    obtain ⟨j, hj, rfl⟩ := List.mem_map.1 hname
    obtain ⟨hle, hlt⟩ := List.mem_range'_1.1 hj
    exact h j hle hlt
  simpa using (List.Nodup.subperm hnodup hsubset).length_le

/-- **The search finds the least number that is free**: there is `n` with `1 ≤ n`,
`countedLabel label used (used.length + 1) 1 = numbered label n`, `numbered label n ∉ used` and
`∀ m, 1 ≤ m → m < n → numbered label m ∈ used`. -/
theorem exists_countedLabel_free (label : String) (used : List String) :
    ∃ n, 1 ≤ n ∧ countedLabel label used (used.length + 1) 1 = numbered label n ∧
      numbered label n ∉ used ∧ ∀ m, 1 ≤ m → m < n → numbered label m ∈ used := by
  obtain ⟨n, hn, heq, hbelow, hstop⟩ := exists_countedLabel label used (used.length + 1) 1
  refine ⟨n, hn, heq, hstop.resolve_right fun hall => ?_, hbelow⟩
  -- all labels that it has looked at would be taken, one more than there are
  subst hall
  exact absurd (le_length_of_numbered_mem hbelow) (Nat.not_succ_le_self _)

/-- **The label that a field gets** is the one that it should get:
`Renaming used label source (freshLabel label source used)`. -/
theorem renaming_freshLabel (label : String) (source : Option String) (used : List String) :
    Renaming used label source (freshLabel label source used) := by
  have hcount : ∀ (taken : label ∈ used)
      (_ : ∀ s, source = some s → sourced label s ∈ used),
      Renaming used label source (countedLabel label used (used.length + 1) 1) := by
    intro taken sourceTaken
    obtain ⟨n, hn, heq, hfree, hleast⟩ := exists_countedLabel_free label used
    rw [heq]
    exact .withNumber n hn taken sourceTaken hfree hleast
  unfold freshLabel
  by_cases htaken : label ∈ used
  · cases source with
    | none => simpa [htaken] using hcount htaken nofun
    | some s =>
      have hcandidate : label ++ " (" ++ s ++ ")" = sourced label s := rfl
      by_cases hsource : sourced label s ∈ used
      · have hcount := hcount htaken fun s' hs' => Option.some.inj hs' ▸ hsource
        simpa [htaken, hcandidate, hsource] using hcount
      · have hsourced := Renaming.withSource s rfl htaken hsource
        simpa [htaken, hcandidate, hsource] using hsourced
  · cases source with
    | none => simpa [htaken] using Renaming.kept htaken
    | some s => simpa [htaken] using Renaming.kept htaken

/-! ## (2) Fields one after the other -/

variable {α : Type}

/-- `relabel s label`: the same series with another label. -/
def relabel (s : Series α) (label : String) : Series α :=
  { s with header := { s.header with label } }

/-- Fields that join an entity, with their sources, and the fields that they become: nothing changes
but the label. -/
inductive Relabelled : List String → List (Series α × Option String) → List (Series α) → Prop
  | nil (used : List String) : Relabelled used [] []
  | cons {used : List String} {s : Series α} {source : Option String} {label : String}
      {added : List (Series α × Option String)} {fields : List (Series α)}
      (first : Renaming used s.label source label)
      (rest : Relabelled (used ++ [label]) added fields) :
      Relabelled used ((s, source) :: added) (relabel s label :: fields)

namespace Relabelled

variable {added added' : List (Series α × Option String)} {fields fields' : List (Series α)}

/-- Fields that join after others: `Relabelled used (added ++ added') (fields ++ fields')`. -/
theorem append (h : Relabelled used added fields)
    (h' : Relabelled (used ++ fields.map Series.label) added' fields') :
    Relabelled used (added ++ added') (fields ++ fields') := by
  induction h with
  | nil used => simpa using h'
  | cons first rest ih =>
    refine .cons first (ih ?_)
    rw [List.map_cons, List.append_cons] at h'
    exact h'

/-- Fields of different labels that are all free keep them:
`Relabelled used (fields.map fun s => (s, source)) fields`. -/
theorem of_nodup (source : Option String) (h : (used ++ fields.map Series.label).Nodup) :
    Relabelled used (fields.map fun s => (s, source)) fields := by
  induction fields generalizing used with
  | nil => exact .nil used
  | cons s fields ih =>
    have hfree : s.label ∉ used := fun hmem =>
      (List.nodup_append.1 h).2.2 s.label hmem s.label List.mem_cons_self rfl
    rw [List.map_cons, List.append_cons] at h
    exact .cons (.kept hfree) (ih h)

/-- **Fields of different labels that are all free stay as they are**:
`fields = added.map Prod.fst`. -/
theorem eq_of_nodup (h : Relabelled used added fields)
    (hnodup : (used ++ added.map fun a => a.1.label).Nodup) : fields = added.map Prod.fst := by
  induction h with
  | nil used => rfl
  | cons first rest ih =>
    rw [List.map_cons, List.append_cons] at hnodup
    have hfree := (List.nodup_append.1 (List.nodup_append.1 hnodup).1).2.2
    obtain rfl := first.eq_of_not_mem fun hmem => hfree _ hmem _ List.mem_cons_self rfl
    rw [ih hnodup, List.map_cons]
    rfl

/-- **Nothing changes but the label**, and no field is lost:
`List.Forall₂ (fun s f => f = relabel s f.label) (added.map Prod.fst) fields`. -/
theorem forall₂ (h : Relabelled used added fields) :
    List.Forall₂ (fun s f => f = relabel s f.label) (added.map Prod.fst) fields := by
  induction h with
  | nil used => exact .nil
  | cons first rest ih => exact .cons rfl ih

/-- **The labels are different**, from each other and from those that were taken:
`(used ++ fields.map Series.label).Nodup`. -/
theorem nodup (h : Relabelled used added fields) (hused : used.Nodup) :
    (used ++ fields.map Series.label).Nodup := by
  induction h with
  | nil used => simpa using hused
  | cons first rest ih =>
    rw [List.map_cons, List.append_cons]
    refine ih (List.nodup_append.2 ⟨hused, List.pairwise_singleton _ _, fun l hl l' hl' heq => ?_⟩)
    exact first.free (List.mem_singleton.1 hl' ▸ heq ▸ hl)

/-- **Each field is named** among the labels that are taken before it:
`Renaming (used ++ (fields.take i).map Series.label) s.label source f.label`. -/
theorem named (h : Relabelled used added fields) {i : Nat} {s : Series α}
    {source : Option String} {f : Series α} (hs : added[i]? = some (s, source))
    (hf : fields[i]? = some f) :
    Renaming (used ++ (fields.take i).map Series.label) s.label source f.label := by
  induction h generalizing i with
  | nil used => cases hf
  | cons first rest ih =>
    cases i with
    | zero =>
      cases hs
      cases hf
      rw [List.take_zero, List.map_nil, List.append_nil]
      exact first
    | succ i =>
      rw [List.take_succ_cons, List.map_cons, List.append_cons]
      exact ih hs hf

end Relabelled

end PanelQuery.Roster
