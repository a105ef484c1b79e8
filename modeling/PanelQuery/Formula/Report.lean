import PanelQuery.Formula.Program

/-! # What a program reads

Facts about a program that can be read off its operations.

* **`Report`** — counts, and which series, positions and indices are used;
* **`Report.isTimeVarying`** — whether the value can differ between positions. -/

namespace PanelQuery.Formula

/-- The group that an operation is counted in. -/
def Op.group : Op → String
  | pushNumber _ | pushTruth _ | pushText _ => "Push"
  | loadPosition => "Position"
  | load .. => "Load"
  | loadStretch .. => "LoadSlice"
  | loadCategory _ => "Category"
  | negate | arith _ => "Arithmetic"
  | compare _ | sameText _ => "Compare"
  | both | either | complement => "Logic"
  | toBoolean | toNumber => "Coerce"
  | fold _ | pairFold _ => "Call"
  | branch _ | jump _ => "Branch"

/-- The series that an operation loads. -/
def Op.reference? : Op → Option Reference
  | load r _ | loadStretch r _ => some r
  | _ => none

/-- The slot of the index that an operation uses. -/
def Op.slot? : Op → Option Nat
  | load _ k | loadStretch _ k | loadCategory k => some k
  | _ => none

/-- Whether an index depends on the position under evaluation. -/
def IndexSpec.usesCurrent : IndexSpec → Bool
  | point code => code.contains .current
  | range low high => low.contains .current || high.contains .current

/-- Facts about a program. -/
structure Report where
  /-- The number of operations. -/
  total : Nat
  /-- The number of operations in each group that has some. -/
  counts : List (String × Nat)
  /-- Whether the program is broadcast over the fields. -/
  usesBroadcast : Bool
  /-- Whether it reads the output so far. -/
  usesOutput : Bool
  usesCategory : Bool
  /-- Whether it reads the position as a number. -/
  usesPosition : Bool
  /-- Whether some index depends on the position. -/
  indexesCurrent : Bool
  /-- The places of the fields it reads, in order. -/
  fields : List Nat

/-- The places of fields that operations load, in order and each once. -/
def fieldPlaces (ops : List Op) : List Nat :=
  let places := ops.filterMap fun op => match op.reference? with
    | some (.field n) => some n
    | _ => none
  (places.mergeSort fun a b => decide (a ≤ b)).eraseDups

/-- The facts about a program. -/
def Report.of (p : Program) : Report :=
  let groups := p.ops.map Op.group
  let references := p.ops.filterMap Op.reference?
  { total := p.ops.length
    counts := groups.eraseDups.map fun g => (g, groups.count g)
    usesBroadcast := references.contains .broadcast
    usesOutput := references.contains .output
    usesCategory := p.ops.any fun op => match op with
      | .loadCategory _ => true
      | _ => false
    usesPosition := p.ops.any fun op => match op with
      | .loadPosition => true
      | _ => false
    indexesCurrent := p.ops.any fun op =>
      match op.slot?.bind fun k => p.indices[k]? with
      | some spec => spec.usesCurrent
      | none => false
    fields := fieldPlaces p.ops }

namespace Report

/-- Whether the value can differ between positions. -/
def isTimeVarying (r : Report) : Bool := r.indexesCurrent || r.usesOutput || r.usesPosition

/-- The first field that is read; its dates are those of the output. -/
def lowestField? (r : Report) : Option Nat := r.fields.head?

/-- Whether several fields have to share one set of dates. -/
def needsAlignment (r : Report) : Bool := decide (2 ≤ r.fields.length)

end Report

end PanelQuery.Formula
