import Mathlib.Data.List.Nodup
import PanelQuery.Proofs.SetAlgebra.Weights

/-! # Set algebra is algebra of memberships

A key is a member of a panel at a time when the panel has an entity with the key that counts. The
operations on panels are those on memberships, key by key and time by time, as far as the weights
of an entity of both sides reach back.

* **`Panel.HasMemberAt`, `SetOperation.Holds`** — memberships, and what an operation makes of them;
* **`Panel.find?_setOperation`** — an operation goes key by key;
* **`Panel.hasMemberAt_setOperation`** — entities of both sides that have two weights;
* **`Panel.hasMemberAt_setOperation_of_one_weight`** — those that have one. -/

namespace PanelQuery

variable {α : Type}

/-! ## (1) Members -/

/-- `Panel.Has p key`: a panel has an entity with a key. -/
def Panel.Has (p : Panel α) (key : String) : Prop := ∃ e ∈ p.entities, e.key = key

/-- `Panel.HasMemberAt p key t`: a key is a member of a panel at a time. -/
def Panel.HasMemberAt [Scalar α] (p : Panel α) (key : String) (t : Instant) : Prop :=
  ∃ e ∈ p.entities, e.key = key ∧ e.CountsAt t

/-- `SetOperation.Holds op left right key t`: whether a key should be a member of the result of an
operation at a time, by its memberships in the two panels. -/
def SetOperation.Holds [Scalar α] (op : SetOperation) (left right : Panel α) (key : String)
    (t : Instant) : Prop :=
  match op with
  | union => left.HasMemberAt key t ∨ right.HasMemberAt key t
  | intersect => left.HasMemberAt key t ∧ right.HasMemberAt key t
  | exclude => left.HasMemberAt key t ∧ ¬right.HasMemberAt key t
  | difference =>
      (left.HasMemberAt key t ∧ ¬right.Has key) ∨ (right.HasMemberAt key t ∧ ¬left.Has key)

instance (p : Panel α) (key : String) : Decidable (p.Has key) :=
  inferInstanceAs (Decidable (∃ e ∈ p.entities, e.key = key))

instance [Scalar α] (p : Panel α) (key : String) (t : Instant) : Decidable (p.HasMemberAt key t) :=
  inferInstanceAs (Decidable (∃ e ∈ p.entities, e.key = key ∧ e.CountsAt t))

instance [Scalar α] (op : SetOperation) (left right : Panel α) (key : String) (t : Instant) :
    Decidable (op.Holds left right key t) :=
  match op with
  | .union => inferInstanceAs (Decidable (_ ∨ _))
  | .intersect => inferInstanceAs (Decidable (_ ∧ _))
  | .exclude => inferInstanceAs (Decidable (_ ∧ ¬_))
  | .difference => inferInstanceAs (Decidable (_ ∧ ¬_ ∨ _ ∧ ¬_))

/-! ## (2) Operations go key by key -/

section Keys

/-- `p.find? key = some e ↔ e ∈ p.entities ∧ e.key = key`: an entity is found by its key just when
it is there, where no two entities have one key. -/
theorem Panel.find?_eq_some_iff {p : Panel α} (h : (p.entities.map Entity.key).Nodup)
    {key : String} {e : Entity α} : p.find? key = some e ↔ e ∈ p.entities ∧ e.key = key := by
  constructor
  · intro hfind
    exact ⟨List.mem_of_find?_eq_some hfind, key_of_find? hfind⟩
  · rintro ⟨hmem, rfl⟩
    obtain ⟨e', hfind⟩ := Option.isSome_iff_exists.1 (Panel.WellFormed.find?_isSome hmem)
    rw [hfind, List.inj_on_of_nodup_map h (List.mem_of_find?_eq_some hfind) hmem
      (key_of_find? hfind)]

/-- `p.HasMemberAt key t ↔ ∃ e, p.find? key = some e ∧ e.isMemberAt t = true`: a key is a member
when the entity that is found by it counts. -/
theorem Panel.hasMemberAt_iff [Scalar α] {p : Panel α} (h : (p.entities.map Entity.key).Nodup)
    {key : String} {t : Instant} :
    p.HasMemberAt key t ↔ ∃ e, p.find? key = some e ∧ e.isMemberAt t = true := by
  refine exists_congr fun e => ?_
  rw [find?_eq_some_iff h, Entity.isMemberAt_iff, and_assoc]

/-- `p.Has key ↔ (p.find? key).isSome`: a panel has a key when an entity is found by it. -/
theorem Panel.has_iff {p : Panel α} {key : String} : p.Has key ↔ (p.find? key).isSome := by
  constructor
  · rintro ⟨e, hmem, rfl⟩
    exact Panel.WellFormed.find?_isSome hmem
  · intro hsome
    obtain ⟨e, hfind⟩ := Option.isSome_iff_exists.1 hsome
    exact ⟨e, List.mem_of_find?_eq_some hfind, key_of_find? hfind⟩

/-- Entities that are changed and keep their keys are found by the same keys:
`(es.map f).find? (fun e => e.identity.key == key)` is
`(es.find? fun e => e.identity.key == key).map f`. -/
theorem find?_map_of_key {f : Entity α → Entity α} (hf : ∀ e, (f e).key = e.key)
    (es : List (Entity α)) (key : String) :
    (es.map f).find? (fun e => e.identity.key == key) =
      (es.find? fun e => e.identity.key == key).map f := by
  rw [List.find?_map]
  refine congrArg (fun test => (es.find? test).map f) (funext fun e => ?_)
  exact congrArg (· == key) (hf e)

/-- Entities that are changed or left out, and keep their keys, are found by the same keys:
`(es.filterMap f).find? (fun e => e.identity.key == key)` is
`(es.find? fun e => e.identity.key == key).bind f`. -/
theorem find?_filterMap_of_key {f : Entity α → Option (Entity α)}
    (hf : ∀ e e', f e = some e' → e'.key = e.key) {es : List (Entity α)}
    (h : (es.map Entity.key).Nodup) (key : String) :
    (es.filterMap f).find? (fun e => e.identity.key == key) =
      (es.find? fun e => e.identity.key == key).bind f := by
  induction es with
  | nil => rfl
  | cons e es ih =>
    rw [List.map_cons, List.nodup_cons] at h
    obtain ⟨hnew, hes⟩ := h
    by_cases hkey : e.key = key
    · rw [List.find?_cons_of_pos (by exact beq_iff_eq.2 hkey), Option.bind_some]
      cases hfe : f e with
      | some e' =>
        have hkey' : e'.key = key := (hf e e' hfe).trans hkey
        rw [List.filterMap_cons_some hfe, List.find?_cons_of_pos (by exact beq_iff_eq.2 hkey')]
      | none =>
        -- no other entity has the key
        rw [List.filterMap_cons_none hfe, ih hes]
        have hnone : (es.find? fun e => e.identity.key == key) = none := by
          refine List.find?_eq_none.2 fun x hx hxkey => hnew ?_
          rw [hkey, ← beq_iff_eq.1 hxkey]
          exact List.mem_map_of_mem (f := Entity.key) hx
        rw [hnone, Option.bind_none]
    · rw [List.find?_cons_of_neg (by exact fun hbeq => hkey (beq_iff_eq.1 hbeq)), ← ih hes]
      cases hfe : f e with
      | some e' =>
        have hkey' : e'.key ≠ key := fun heq => hkey ((hf e e' hfe).symm.trans heq)
        rw [List.filterMap_cons_some hfe,
          List.find?_cons_of_neg (by exact fun hbeq => hkey' (beq_iff_eq.1 hbeq))]
      | none => rw [List.filterMap_cons_none hfe]

/-- Of the entities that another panel does not have, one is found by a key when the other panel has
none of it: `(p.without q).find? (fun e => e.identity.key == key)` is
`if (q.find? key).isSome then none else p.find? key`. -/
theorem Panel.find?_without (p q : Panel α) (key : String) :
    (p.without q).find? (fun e => e.identity.key == key) =
      if (q.find? key).isSome then none else p.find? key := by
  have hsame : (fun e : Entity α => (q.find? e.identity.key).isNone && e.identity.key == key) =
      fun e => (q.find? key).isNone && e.identity.key == key := by
    funext e
    by_cases hkey : e.identity.key = key
    · rw [hkey]
    · rw [beq_false_of_ne hkey, Bool.and_false, Bool.and_false]
  rw [without, List.find?_filter]
  simp only [Bool.decide_and, Bool.decide_eq_true, hsame]
  cases q.find? key with
  | none => rfl
  | some e => exact List.find?_eq_none.2 fun _ _ => Bool.false_ne_true

end Keys

variable [Scalar α]

/-- `SetOperation.merge? op l r`: what an operation makes of the entities with one key. -/
def SetOperation.merge? (op : SetOperation) (l r : Option (Entity α)) : Option (Entity α) :=
  match op, l, r with
  | union, some l, some r => some (l.combine (· || ·) r)
  | union, some l, none => some l
  | union, none, r => r
  | intersect, some l, some r => (some (l.combine (· && ·) r)).filter Entity.isEverMember
  | exclude, some l, some r => some (l.setWeight (excludedWeight l r))
  | exclude, some l, none => some l
  | difference, some l, none => some l
  | difference, none, some r => some r
  | _, _, _ => none

/-- **An operation goes key by key**:
`(setOperation op left right).find? key = op.merge? (left.find? key) (right.find? key)`. -/
theorem Panel.find?_setOperation {left right : Panel α}
    (hl : (left.entities.map Entity.key).Nodup) (op : SetOperation) (key : String) :
    (setOperation op left right).find? key = op.merge? (left.find? key) (right.find? key) := by
  cases op with
  | union =>
    rw [find?, setOperation, SetOperation.entities, List.find?_append, find?_map_of_key,
      find?_without]
    · show ((left.find? key).map _).or _ = _
      cases hfl : left.find? key with
      | none => rfl
      | some l =>
        rw [Option.map_some, Option.some_or, show l.identity.key = key from key_of_find? hfl]
        cases right.find? key <;> rfl
    · intro l
      split
      · exact l.key_combine _ _
      · rfl
  | intersect =>
    rw [find?, setOperation, SetOperation.entities, List.filter_filterMap,
      find?_filterMap_of_key _ hl]
    · show (left.find? key).bind _ = _
      cases hfl : left.find? key with
      | none => rfl
      | some l =>
        rw [Option.bind_some, show l.identity.key = key from key_of_find? hfl]
        cases right.find? key <;> rfl
    · intro l e he
      obtain ⟨hmap, -⟩ := Option.filter_eq_some_iff.1 he
      obtain ⟨r, -, rfl⟩ := Option.map_eq_some_iff.1 hmap
      exact l.key_combine _ r
  | difference =>
    rw [find?, setOperation, SetOperation.entities, List.find?_append, find?_without,
      find?_without]
    cases left.find? key <;> cases right.find? key <;> rfl
  | exclude =>
    rw [find?, setOperation, SetOperation.entities, find?_map_of_key]
    · show (left.find? key).map _ = _
      cases hfl : left.find? key with
      | none => rfl
      | some l =>
        rw [Option.map_some, show l.identity.key = key from key_of_find? hfl]
        cases right.find? key <;> rfl
    · intro l
      split
      · rfl
      · rfl

/-! ## (3) Memberships in the result of an operation -/

/-- The rule of an operation on the memberships of an entity of both sides. -/
def SetOperation.rule : SetOperation → Bool → Bool → Bool
  | union => (· || ·)
  | intersect => (· && ·)
  | exclude => fun inLeft inRight => inLeft && !inRight
  | difference => fun _ _ => false

/-- `e.isEverMember = true`: an entity that counts at some time is a member at some time. -/
theorem Entity.isEverMember_of_isMemberAt {e : Entity α} {t : Instant}
    (h : e.isMemberAt t = true) : e.isEverMember = true := by
  unfold isMemberAt countsAt at h
  unfold isEverMember
  cases hw : e.weight? with
  | none => rfl
  | some w =>
    rw [hw] at h
    cases hx : w.points.carried? t with
    | none => simp [hx] at h
    | some x =>
      obtain ⟨p, hp, rfl⟩ := Option.map_eq_some_iff.1 hx
      have hmem : p ∈ w.points := (List.takeWhile_subset _) (List.mem_of_getLast? hp)
      exact List.any_eq_true.2 ⟨p, hmem, by simpa [hx] using h⟩

/-- **What an operation makes of an entity of both sides** counts by its rule, from the time on at
which one of the weights begins:
`(∃ e, op.merge? (some l) (some r) = some e ∧ e.isMemberAt t = true)` just when
`HasBegun l.weight? r.weight? t ∧ op.rule (l.isMemberAt t) (r.isMemberAt t) = true`. -/
theorem SetOperation.counts_merge?_iff [ZeroOne α] (op : SetOperation) {l r : Entity α}
    (h : ¬(l.weight? = none ∧ r.weight? = none)) (t : Instant) :
    (∃ e, op.merge? (some l) (some r) = some e ∧ e.isMemberAt t = true) ↔
      HasBegun l.weight? r.weight? t ∧ op.rule (l.isMemberAt t) (r.isMemberAt t) = true := by
  cases op with
  | union =>
    rw [merge?, rule, ← Entity.isMemberAt_combine_iff _ h]
    simp only [Option.some.injEq, exists_eq_left']
  | intersect =>
    rw [merge?, rule, ← Entity.isMemberAt_combine_iff _ h]
    constructor
    · rintro ⟨e, he, hcounts⟩
      rw [Option.some.inj (Option.filter_eq_some_iff.1 he).1]
      exact hcounts
    · -- what counts at the time is not left out
      intro hcounts
      exact ⟨_, Option.filter_some_pos (Entity.isEverMember_of_isMemberAt hcounts), hcounts⟩
  | difference =>
    refine iff_of_false ?_ fun hrule => Bool.false_ne_true hrule.2
    rintro ⟨e, he, -⟩
    cases he
  | exclude =>
    rw [merge?, rule, ← Entity.isMemberAt_setWeight_excludedWeight h]
    simp only [Option.some.injEq, exists_eq_left']

/-- `op.Holds left right key t ↔ op.rule (l.isMemberAt t) (r.isMemberAt t) = true`: an operation
makes of the memberships of an entity of both sides what its rule does. -/
theorem SetOperation.holds_iff_rule {left right : Panel α}
    (hl : (left.entities.map Entity.key).Nodup) (hr : (right.entities.map Entity.key).Nodup)
    {key : String} {l r : Entity α} (hfl : left.find? key = some l)
    (hfr : right.find? key = some r) (op : SetOperation) (t : Instant) :
    op.Holds left right key t ↔ op.rule (l.isMemberAt t) (r.isMemberAt t) = true := by
  unfold Holds
  rw [Panel.hasMemberAt_iff hl, Panel.hasMemberAt_iff hr, Panel.has_iff, Panel.has_iff, hfl, hfr]
  cases op <;> simp [rule]

/-- **The members of the result** are those that the operation makes of the memberships, except that
an entity of both sides is none before one of its weights begins:
`(setOperation op left right).HasMemberAt key t` just when `op.Holds left right key t` and
`∀ l r, left.find? key = some l → right.find? key = some r → HasBegun l.weight? r.weight? t`. -/
theorem Panel.hasMemberAt_setOperation_iff [ZeroOne α] {left right : Panel α}
    (hl : (left.entities.map Entity.key).Nodup) (hr : (right.entities.map Entity.key).Nodup)
    {key : String} (h : ∀ l r, left.find? key = some l → right.find? key = some r →
      ¬(l.weight? = none ∧ r.weight? = none)) (op : SetOperation) (t : Instant) :
    (setOperation op left right).HasMemberAt key t ↔
      op.Holds left right key t ∧ ∀ l r, left.find? key = some l → right.find? key = some r →
        HasBegun l.weight? r.weight? t := by
  rw [hasMemberAt_iff (nodup_keys_setOperation hl hr op), find?_setOperation hl]
  cases hfl : left.find? key with
  | none =>
    unfold SetOperation.Holds
    rw [hasMemberAt_iff hl, hasMemberAt_iff hr, has_iff, has_iff, hfl]
    cases right.find? key <;> cases op <;> simp [SetOperation.merge?]
  | some l =>
    cases hfr : right.find? key with
    | none =>
      unfold SetOperation.Holds
      rw [hasMemberAt_iff hl, hasMemberAt_iff hr, has_iff, has_iff, hfl, hfr]
      cases op <;> simp [SetOperation.merge?]
    | some r =>
      rw [op.counts_merge?_iff (h l r hfl hfr), op.holds_iff_rule hl hr hfl hfr, and_comm]
      refine and_congr_right fun _ => ⟨fun hbegun l' r' hl' hr' => ?_, fun h => h l r rfl rfl⟩
      rw [← Option.some.inj hl', ← Option.some.inj hr']
      exact hbegun

/-- Where both weights of an entity of both sides count by a rule, one of them has begun:
`HasBegun l.weight? r.weight? t`. -/
theorem SetOperation.hasBegun_of_rule (op : SetOperation) {l r : Entity α} {v w : Series α}
    (hl : l.weight? = some v) (hr : r.weight? = some w) {t : Instant}
    (h : op.rule (l.isMemberAt t) (r.isMemberAt t) = true) : HasBegun l.weight? r.weight? t := by
  by_cases hleft : l.isMemberAt t = true
  · rw [Entity.isMemberAt, hl] at hleft
    exact ⟨v, .inl hl, Entity.hasBegun_of_countsAt hleft⟩
  · by_cases hright : r.isMemberAt t = true
    · rw [Entity.isMemberAt, hr] at hright
      exact ⟨w, .inr hr, Entity.hasBegun_of_countsAt hright⟩
    · -- no operation makes members of what is none on either side
      rw [Bool.of_not_eq_true hleft, Bool.of_not_eq_true hright] at h
      cases op <;> cases h

/-! ## (4) Panels -/

namespace Panel

omit [Scalar α] in
/-- Entities of both sides are found by their key:
`(∀ l r, left.find? key = some l → right.find? key = some r → P l r)` just when
`∀ l ∈ left.entities, ∀ r ∈ right.entities, l.key = key → r.key = key → P l r`. -/
theorem forall_find?_iff {left right : Panel α} (hl : (left.entities.map Entity.key).Nodup)
    (hr : (right.entities.map Entity.key).Nodup) {key : String}
    {P : Entity α → Entity α → Prop} :
    (∀ l r, left.find? key = some l → right.find? key = some r → P l r) ↔
      ∀ l ∈ left.entities, ∀ r ∈ right.entities, l.key = key → r.key = key → P l r := by
  constructor
  · intro h l hlmem r hrmem hlkey hrkey
    exact h l r ((find?_eq_some_iff hl).2 ⟨hlmem, hlkey⟩) ((find?_eq_some_iff hr).2 ⟨hrmem, hrkey⟩)
  · intro h l r hfl hfr
    obtain ⟨hlmem, hlkey⟩ := (find?_eq_some_iff hl).1 hfl
    obtain ⟨hrmem, hrkey⟩ := (find?_eq_some_iff hr).1 hfr
    exact h l hlmem r hrmem hlkey hrkey

/-- `single key weight`: a panel of one entity with its weight, if any. -/
def single (key : String) (weight : Option (Points α)) : Panel α :=
  { entities := [{
      identity := ⟨key, key, false⟩
      series := weight.toList.map fun points => ⟨.labelled "Weight", points, true⟩ }] }

end Panel

section Floats

variable {left right : Panel Float}

/-- **Set algebra is algebra of memberships**, where each entity of both sides has a weight on both
sides: `((setOperation op left right).entities.map Entity.key).Nodup` and
`∀ key t, (setOperation op left right).HasMemberAt key t ↔ op.Holds left right key t`. -/
theorem Panel.hasMemberAt_setOperation (hl : (left.entities.map Entity.key).Nodup)
    (hr : (right.entities.map Entity.key).Nodup)
    (hweights : ∀ l ∈ left.entities, ∀ r ∈ right.entities, l.key = r.key →
      l.weight? ≠ none ∧ r.weight? ≠ none) (op : SetOperation) :
    ((setOperation op left right).entities.map Entity.key).Nodup ∧
      ∀ key t, (setOperation op left right).HasMemberAt key t ↔ op.Holds left right key t := by
  refine ⟨nodup_keys_setOperation hl hr op, fun key t => ?_⟩
  have hboth : ∀ l r, left.find? key = some l → right.find? key = some r →
      l.weight? ≠ none ∧ r.weight? ≠ none :=
    (forall_find?_iff hl hr).2 fun l hlmem r hrmem hlkey hrkey =>
      hweights l hlmem r hrmem (hlkey.trans hrkey.symm)
  rw [hasMemberAt_setOperation_iff hl hr fun l r hfl hfr hnone => (hboth l r hfl hfr).1 hnone.1]
  -- a member of the result has a weight that has begun
  refine and_iff_left_of_imp fun hholds l r hfl hfr => ?_
  obtain ⟨hv, hw⟩ := hboth l r hfl hfr
  obtain ⟨v, hv⟩ := Option.ne_none_iff_exists'.1 hv
  obtain ⟨w, hw⟩ := Option.ne_none_iff_exists'.1 hw
  exact op.hasBegun_of_rule hv hw ((op.holds_iff_rule hl hr hfl hfr t).1 hholds)

/-- Between the dates of two weights, and after one of them has ended. -/
theorem Panel.hasMemberAt_setOperation_single :
    (setOperation .union (single "x" (some [⟨0, 1⟩, ⟨20, 0⟩])) (single "x" (some [⟨10, 1⟩]))
      : Panel Float).HasMemberAt "x" 15 ∧
    ¬(setOperation .exclude (single "x" (some [⟨0, 1⟩, ⟨20, 0⟩])) (single "x" (some [⟨10, 1⟩]))
      : Panel Float).HasMemberAt "x" 15 ∧
    ¬(setOperation .intersect (single "x" (some [⟨0, 1⟩, ⟨20, 0⟩])) (single "x" (some [⟨10, 1⟩]))
      : Panel Float).HasMemberAt "x" 25 := by
  have h := @Panel.hasMemberAt_setOperation (single "x" (some [⟨0, 1⟩, ⟨20, 0⟩]))
    (single "x" (some [⟨10, 1⟩])) (by decide) (by decide) (by decide)
  exact ⟨((h .union).2 "x" 15).2 (by decide), fun hx => absurd (((h .exclude).2 "x" 15).1 hx)
    (by decide), fun hx => absurd (((h .intersect).2 "x" 25).1 hx) (by decide)⟩

/-- **An entity that one side always has** is a member of the result by the operation on the
memberships, but not before the weight of the other side begins:
`(setOperation op left right).HasMemberAt key t` just when `op.Holds left right key t` and for all
`l ∈ left.entities`,
`∀ r ∈ right.entities, l.key = key → r.key = key → HasBegun l.weight? r.weight? t`. -/
theorem Panel.hasMemberAt_setOperation_of_one_weight (hl : (left.entities.map Entity.key).Nodup)
    (hr : (right.entities.map Entity.key).Nodup)
    (hweights : ∀ l ∈ left.entities, ∀ r ∈ right.entities, l.key = r.key →
      (l.weight? = none ↔ r.weight? ≠ none)) (op : SetOperation) (key : String) (t : Instant) :
    (setOperation op left right).HasMemberAt key t ↔
      op.Holds left right key t ∧ ∀ l ∈ left.entities, ∀ r ∈ right.entities,
        l.key = key → r.key = key → HasBegun l.weight? r.weight? t := by
  have hone : ∀ l r, left.find? key = some l → right.find? key = some r →
      (l.weight? = none ↔ r.weight? ≠ none) :=
    (forall_find?_iff hl hr).2 fun l hlmem r hrmem hlkey hrkey =>
      hweights l hlmem r hrmem (hlkey.trans hrkey.symm)
  rw [hasMemberAt_setOperation_iff hl hr fun l r hfl hfr hnone =>
    (hone l r hfl hfr).1 hnone.1 hnone.2, forall_find?_iff hl hr]

/-- From its first date on, a weight and an entity without weight make a union. -/
theorem Panel.hasMemberAt_setOperation_of_one_weight_single :
    (setOperation .union (single "x" none) (single "x" (some [⟨10, 0⟩])) : Panel Float).HasMemberAt
      "x" 10 :=
  (Panel.hasMemberAt_setOperation_of_one_weight (by decide) (by decide) (by decide) .union "x"
    10).2 ⟨by decide, by decide⟩

/-- **Before its first date, they make none**, although the entity without weight counts at all
times. -/
theorem Panel.not_hasMemberAt_union_single :
    ¬((setOperation .union (single "x" none)
        (single "x" (some [⟨Instant.ofSeconds 86400 0, 1⟩])) : Panel Float).HasMemberAt "x" 0 ↔
      SetOperation.union.Holds (single "x" none : Panel Float)
        (single "x" (some [⟨Instant.ofSeconds 86400 0, 1⟩])) "x" 0) := by
  intro h
  have hmember := h.2 (by decide)
  rw [hasMemberAt_setOperation_iff (by decide) (by decide),
    forall_find?_iff (by decide) (by decide)] at hmember
  · exact absurd hmember.2 (by decide)
  · rw [forall_find?_iff (by decide) (by decide)]
    decide

end Floats

end PanelQuery
