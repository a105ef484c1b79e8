import PanelQuery.Json.Record

/-! # Records read back

An object with certain members is a record of their values, whatever these are, and an array of
written values is read as the list of these values.

* **`record?_object`** — the members of an object, by their names;
* **`list?_array_map`** — the items of an array, some of which may be refused. -/

namespace PanelQuery.Json

/-! ## (1) Members -/

/-- `member? m.1 members = some (some m.2)`: a member whose name no other member has is found. -/
theorem member?_of_mem {members : List (String × Json)} (hnames : (members.map Prod.fst).Nodup)
    {m : String × Json} (hm : m ∈ members) : member? m.1 members = some (some m.2) := by
  have hfilter : (members.filter fun k => k.1 == m.1) = [m] := by
    induction members with
    | nil => cases hm
    | cons k members ih =>
      rw [List.map_cons, List.nodup_cons] at hnames
      obtain ⟨hk, hnames⟩ := hnames
      rcases List.mem_cons.1 hm with rfl | hm
      · -- the others have other names
        have hothers : (members.filter fun k => k.1 == m.1) = [] := by
          refine List.filter_eq_nil_iff.2 fun k hk' hname => hk ?_
          rw [← beq_iff_eq.1 hname]
          exact List.mem_map_of_mem hk'
        rw [List.filter_cons_of_pos (by simp), hothers]
      · have hother : ¬(k.1 == m.1) = true := fun hname =>
          hk (beq_iff_eq.1 hname ▸ List.mem_map_of_mem hm)
        rw [List.filter_cons, if_neg hother, ih hnames hm]
  rw [member?, hfilter]

/-- `xs.mapM f = some (xs.map g)`: a function that never fails on a list gives all of its values. -/
theorem mapM_eq_some {α β : Type} {f : α → Option β} {g : α → β} {xs : List α}
    (h : ∀ x ∈ xs, f x = some (g x)) : xs.mapM f = some (xs.map g) := by
  induction xs with
  | nil => rfl
  | cons x xs ih =>
    rw [List.mapM_cons, h x List.mem_cons_self, ih fun y hy => h y (List.mem_cons_of_mem x hy)]
    rfl

/-- **The members of an object**, by their names:
`record? names (object members) = some (members.map fun m => some m.2)`. -/
theorem record?_object {members : List (String × Json)} {names : List String}
    (hmembers : members.map Prod.fst = names) (hnames : names.Nodup) :
    record? names (object members) = some (members.map fun m => some m.2) := by
  subst hmembers
  rw [record?, List.mapM_map]
  exact mapM_eq_some fun m hm => member?_of_mem hnames hm

/-! ## (2) Items -/

variable {β : Type} {write : β → Json} {read : Json → Option β} {xs : List β}

/-- **The items of an array** are read back, unless one is refused:
`list? read (array (xs.map write)) = if xs.all accepts then some xs else none`. -/
theorem list?_array_map {accepts : β → Bool}
    (h : ∀ x ∈ xs, read (write x) = if accepts x then some x else none) :
    list? read (array (xs.map write)) = if xs.all accepts then some xs else none := by
  rw [list?, List.mapM_map]
  induction xs with
  | nil => rfl
  | cons x xs ih =>
    have hx := h x List.mem_cons_self
    have hxs := ih fun y hy => h y (List.mem_cons_of_mem x hy)
    rw [List.mapM_cons, Function.comp_apply, hx, hxs, List.all_cons]
    cases accepts x <;> cases xs.all accepts <;> rfl

/-- `list? read (array (xs.map write)) = some xs`: items of which none is refused. -/
theorem list?_array_map_of_forall (h : ∀ x ∈ xs, read (write x) = some x) :
    list? read (array (xs.map write)) = some xs := by
  rw [list?, List.mapM_map]
  exact (mapM_eq_some (g := id) h).trans (by rw [List.map_id])

end PanelQuery.Json
