import PanelQuery.Formula.Grammar

/-! # Programs

A formula as a flat list of operations for a machine with four stacks, beside tables of the index
codes and the texts that operations refer to by number.

* **`Op`** — operations; jump targets are places in the list;
* **`Bound.code`** — a position in postfix order;
* **`Code`** — operations that can be placed anywhere in a program;
* **`Expr.emit`** — the code of an expression, operands before their operator;
* **`Program.ofExpr`** — the program of an expression, from the first place on. -/

namespace PanelQuery.Formula

/-! ### Operations -/

/-- An operation on a stack of positions. -/
inductive IndexOp where
  | first
  | last
  | current
  | constant (n : Int64)
  | add
  | sub
  deriving DecidableEq, Repr

/-- A position as postfix operations. -/
abbrev IndexCode := List IndexOp

/-- What a load picks: one position or a range. -/
inductive IndexSpec where
  /-- One position. -/
  | point (code : IndexCode)
  /-- All positions from one to another. -/
  | range (low high : IndexCode)
  deriving DecidableEq, Repr

/-- An operation of the machine. Numbers, truth values, texts and stretches have a stack each. -/
inductive Op where
  | pushNumber (x : Float)
  | pushTruth (b : Bool)
  /-- Pushes a text of the table. -/
  | pushText (slot : Nat)
  /-- Pushes the position under evaluation. -/
  | loadPosition
  /-- Pushes the value of a series where an index of the table says. -/
  | load (reference : Reference) (slot : Nat)
  /-- Pushes the stretch of a series that an index of the table picks. -/
  | loadStretch (reference : Reference) (slot : Nat)
  /-- Pushes the category where an index of the table says. -/
  | loadCategory (slot : Nat)
  | negate
  | arith (op : ArithOp)
  | compare (op : CompareOp)
  | sameText (equal : Bool)
  | both
  | either
  | complement
  | toBoolean
  | toNumber
  | fold (f : Fold)
  | pairFold (f : PairFold)
  /-- Pops a truth value and jumps when it is false. -/
  | branch (target : Nat)
  /-- Jumps. -/
  | jump (target : Nat)
  deriving Repr

/-- A formula ready to run. -/
structure Program where
  /-- The text it was compiled from. -/
  source : String
  /-- The operations. -/
  ops : List Op
  /-- The indices that loads refer to. -/
  indices : List IndexSpec
  /-- The texts that operations refer to. -/
  texts : List String

/-! ### Emission -/

/-- A position in postfix order. -/
def Bound.code : Bound → IndexCode
  | first => [.first]
  | last => [.last]
  | current => [.current]
  | constant n => [.constant n]
  | add a b => a.code ++ b.code ++ [.add]
  | sub a b => a.code ++ b.code ++ [.sub]

/-- An index with its positions in postfix order. -/
def Index.spec : Index → IndexSpec
  | point b => .point b.code
  | range low high => .range low.code high.code

/-- The tables of a program under construction. -/
structure Tables where
  /-- The indices so far, one for each load. -/
  indices : List IndexSpec
  /-- The different texts so far. -/
  texts : List String

namespace Tables

/-- No indices and no texts. -/
def empty : Tables := ⟨[], []⟩

/-- `addIndex t spec`: a new index and its slot. -/
def addIndex (t : Tables) (spec : IndexSpec) : Nat × Tables :=
  (t.indices.length, { t with indices := t.indices ++ [spec] })

/-- `addText t s`: the slot of a text, which is new unless the table has the text. -/
def addText (t : Tables) (s : String) : Nat × Tables :=
  match t.texts.idxOf? s with
  | some slot => (slot, t)
  | none => (t.texts.length, { t with texts := t.texts ++ [s] })

end Tables

/-- Code that can be placed anywhere in a program: from its first place and the tables before it,
its operations and the tables with what they refer to. -/
def Code := Nat → Tables → List Op × Tables

namespace Code

/-- A single operation. -/
def op (o : Op) : Code := fun _ t => ([o], t)

/-- `load spec o`: a load whose index gets a slot of its own. -/
def load (spec : IndexSpec) (o : Nat → Op) : Code := fun _ t =>
  let (slot, t) := t.addIndex spec
  ([o slot], t)

/-- A text. -/
def text (s : String) : Code := fun _ t =>
  let (slot, t) := t.addText s
  ([.pushText slot], t)

/-- The load of a stretch. -/
def stretch (a : Stretch) : Code := load a.index.spec (.loadStretch a.reference)

/-- `append a b`: code after code. -/
def append (a b : Code) : Code := fun start t =>
  let (first, t) := a start t
  let (second, t) := b (start + first.length) t
  (first ++ second, t)

instance : Append Code := ⟨append⟩

/-- `choose test yes no`: a conditional. It jumps over its first branch to its second, and from the
end of the first over the second. -/
def choose (test yes no : Code) : Code := fun start t =>
  let (test, t) := test start t
  let (first, t) := yes (start + test.length + 1) t
  let elseAt := start + test.length + 1 + first.length
  let (second, t) := no (elseAt + 1) t
  (test ++ .branch (elseAt + 1) :: first ++ .jump (elseAt + 1 + second.length) :: second, t)

end Code

/-- The code of an expression. -/
def Expr.emit {τ : Ty} : Expr τ → Code
  | .number x => .op (.pushNumber x)
  | .truth b => .op (.pushTruth b)
  | .text s => .text s
  | .position => .op .loadPosition
  | .point reference b => .load (.point b.code) (.load reference)
  | .category b => .load (.point b.code) .loadCategory
  | .negate a => a.emit ++ .op .negate
  | .arith op a b => a.emit ++ b.emit ++ .op (.arith op)
  | .compare op a b => a.emit ++ b.emit ++ .op (.compare op)
  | .sameText equal a b => a.emit ++ b.emit ++ .op (.sameText equal)
  | .both a b => a.emit ++ b.emit ++ .op .both
  | .either a b => a.emit ++ b.emit ++ .op .either
  | .complement a => a.emit ++ .op .complement
  | .toBoolean a => a.emit ++ .op .toBoolean
  | .toNumber a => a.emit ++ .op .toNumber
  | .fold f a => .stretch a ++ .op (.fold f)
  | .pairFold f a b => .stretch a ++ .stretch b ++ .op (.pairFold f)
  | .choose condition yes no => .choose condition.emit yes.emit no.emit

/-- `Program.ofExpr source e`: the program of an expression. -/
def Program.ofExpr (source : String) (e : Expr .number) : Program :=
  let (ops, t) := e.emit 0 .empty
  ⟨source, ops, t.indices, t.texts⟩

end PanelQuery.Formula
