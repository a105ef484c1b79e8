import PanelQuery.Panel

/-! # Set algebra of panels

Panels as sets of entities by key, of which each is a member at the times when it counts.

* **`SetOperation`** — union, intersection, difference, exclusion;
* **`combinedWeight?`** — the weight of an entity that both panels have;
* **`Panel.setOperation`** — the panel of an operation. -/

namespace PanelQuery

/-- An operation on two panels. -/
inductive SetOperation where
  /-- The entities of either side, at the times when they are members of one. -/
  | union
  /-- The entities of both sides, at the times when they are members of both. -/
  | intersect
  /-- The entities that one side alone has. -/
  | difference
  /-- The entities of the left side, at the times when they are no members of the right one. -/
  | exclude
  deriving DecidableEq, Repr

/-- What readers call an operation. -/
def SetOperation.label : SetOperation → String
  | union => "Union"
  | intersect => "Intersect"
  | difference => "Difference"
  | exclude => "Exclude"

/-- All operations. -/
def SetOperation.all : List SetOperation := [union, intersect, difference, exclude]

variable {α : Type} [Scalar α]

/-! ### Weights -/

/-- The weight of an entity from its weights on two sides: at each of their dates, one or zero by a
rule on the two memberships. There is none when neither side has one. -/
def combinedWeight? (rule : Bool → Bool → Bool) (a b : Option (Series α)) : Option (Series α) :=
  if a.isNone && b.isNone then none
  else
    let dates := distinctSorted ((a.toList ++ b.toList).flatMap fun s => s.points.times)
    some (.weight (dates.map fun t =>
      ⟨t, if rule (Entity.countsAt a t) (Entity.countsAt b t) then 1 else 0⟩))

/-- `excludedWeight l r`: the weight of a left entity without the times when the right one counts. A
right entity without weight always counts, which leaves zero on all dates of the left one. -/
def excludedWeight (l r : Entity α) : Series α :=
  match r.weight? with
  | some _ =>
      (combinedWeight? (fun inLeft inRight => inLeft && !inRight) l.weight? r.weight?).getD
        (.weight [])
  | none =>
      let dates := match l.weight? with
        | some w => w.points.times
        | none => l.fields.flatMap fun s => s.points.times
      .weight ((distinctSorted dates).map fun t => ⟨t, 0⟩)

/-! ### Entities -/

/-- `Entity.addMissingField e s`: an entity with one more field, unless it has one of that label. -/
def Entity.addMissingField (e : Entity α) (s : Series α) : Entity α :=
  if (e.field? s.label).isNone then e.pushField s else e

/-- `Entity.combine rule l r`: the left entity with the fields and the category that only the right
one has, and the weight that a rule makes of both. -/
def Entity.combine (rule : Bool → Bool → Bool) (l r : Entity α) : Entity α :=
  let e := r.fields.foldl Entity.addMissingField l
  let e := if e.category.isEmpty then { e with category := r.category } else e
  match combinedWeight? rule l.weight? r.weight? with
  | some w => e.setWeight w
  | none => e.clearWeight

/-- `Panel.without p q`: the entities of a panel that another one does not have. -/
def Panel.without (p q : Panel α) : List (Entity α) :=
  p.entities.filter fun e => (q.find? e.identity.key).isNone

/-! ### Panels -/

/-- `SetOperation.entities op left right`: the entities of an operation. -/
def SetOperation.entities (op : SetOperation) (left right : Panel α) : List (Entity α) :=
  match op with
  | union =>
      left.entities.map (fun l =>
        match right.find? l.identity.key with
        | some r => l.combine (· || ·) r
        | none => l) ++ right.without left
  | intersect =>
      (left.entities.filterMap fun l =>
        (right.find? l.identity.key).map fun r => l.combine (· && ·) r).filter Entity.isEverMember
  | exclude =>
      left.entities.map fun l =>
        match right.find? l.identity.key with
        | some r => l.setWeight (excludedWeight l r)
        | none => l
  | difference => left.without right ++ right.without left

/-- `Panel.setOperation op left right`: the panel of an operation, with the problems of both
sides. -/
def Panel.setOperation (op : SetOperation) (left right : Panel α) : Panel α :=
  { entities := op.entities left right
    errors := left.errors ++ right.errors
    hint := left.hint }

end PanelQuery
