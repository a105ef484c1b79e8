import PanelQuery.Formula.Context

/-! # Direct evaluation

The value of an expression by recursion on its tree, from left to right; the first error wins.

* **`Ty.Value`** — the values of a type;
* **`Bound.eval`, `Index.ends`** — positions in a series of some length;
* **`Expr.eval`** — the value of an expression. -/

namespace PanelQuery.Formula

/-- The values of a type. -/
abbrev Ty.Value : Ty → Type
  | number => Float
  | boolean => Bool
  | text => String

/-- `Bound.eval o position length`: a position in a series of some length. Sums and differences have
64 bits. -/
def Bound.eval (o : Overflow) (position length : Nat) : Bound → Except EvalError Int
  | first => .ok 0
  | last => .ok ((length : Int) - 1)
  | current => .ok position
  | constant n => .ok n.toInt
  | add a b => do
      let x ← a.eval o position length
      let y ← b.eval o position length
      indexSum o (x + y)
  | sub a b => do
      let x ← a.eval o position length
      let y ← b.eval o position length
      indexSum o (x - y)

/-- `Index.ends o position length`: the two ends of an index; of one position, that position
twice. -/
def Index.ends (o : Overflow) (position length : Nat) : Index → Except EvalError (Int × Int)
  | point b => (b.eval o position length).map fun n => (n, n)
  | range low high => do
      let low ← low.eval o position length
      let high ← high.eval o position length
      return (low, high)

/-- `Stretch.eval ctx a`: the values of a stretch. -/
def Stretch.eval (ctx : Context) (a : Stretch) : Except EvalError Cut :=
  ctx.cutBetween a.reference fun length => a.index.ends ctx.overflow ctx.position length

/-- The value of an expression. Both operands of a connective are evaluated, and only the chosen
branch of a conditional. -/
def Expr.eval (ctx : Context) {τ : Ty} : Expr τ → Except EvalError τ.Value
  | .number x => .ok x
  | .truth b => .ok b
  | .text s => .ok s
  | .position => .ok (Float.ofNat ctx.position)
  | .point reference b =>
      ctx.pointAt reference fun length => b.eval ctx.overflow ctx.position length
  | .category b => ctx.categoryAt fun length => b.eval ctx.overflow ctx.position length
  | .negate a => do
      let x ← a.eval ctx
      return -x
  | .arith op a b => do
      let x ← a.eval ctx
      let y ← b.eval ctx
      op.apply x y
  | .compare op a b => do
      let x ← a.eval ctx
      let y ← b.eval ctx
      return op.apply x y
  | .sameText equal a b => do
      let s ← a.eval ctx
      let t ← b.eval ctx
      return (s == t) == equal
  | .both a b => do
      let p ← a.eval ctx
      let q ← b.eval ctx
      return p && q
  | .either a b => do
      let p ← a.eval ctx
      let q ← b.eval ctx
      return p || q
  | .complement a => do
      let p ← a.eval ctx
      return !p
  | .toBoolean a => do
      let x ← a.eval ctx
      return !(x == (0.0 : Float))
  | .toNumber a => do
      let p ← a.eval ctx
      return (if p then 1.0 else 0.0 : Float)
  | .fold f a => do
      let x ← a.eval ctx
      f.apply x
  | .pairFold f a b => do
      let x ← a.eval ctx
      let y ← b.eval ctx
      f.apply x y
  | .choose condition yes no => do
      if ← condition.eval ctx then yes.eval ctx else no.eval ctx

end PanelQuery.Formula
