import PanelQuery.Formula.Error

/-! # Expressions

The typed trees that formulas stand for. An expression is indexed by the type of its value, and
conversions between numbers and truth values are nodes of their own, so that every tree makes sense.

* **`Reference`** — a series that a formula reads;
* **`Bound`, `Index`** — a position in it, and one or two of them;
* **`Expr`** — expressions. -/

namespace PanelQuery.Formula

/-! ### References -/

/-- A series that a formula reads. -/
inductive Reference where
  /-- The series that the formula is broadcast over, written `val`. -/
  | broadcast
  /-- A field by its place, from zero: `val1` is field 0. -/
  | field (place : Nat)
  /-- The output so far, written `this`. -/
  | output
  deriving DecidableEq, Repr

/-- The reference that a name in lower case stands for. -/
def Reference.ofName? (name : String) : Option Reference :=
  if name = "val" then some .broadcast
  else if name = "this" then some .output
  else
    match name.toList with
    | 'v' :: 'a' :: 'l' :: digits =>
        match readCount? (String.ofList digits) with
        | some (n + 1) => some (.field n)
        | _ => none
    | _ => none

/-- A position in a series, relative to its first, last or current one. -/
inductive Bound where
  /-- The first position. -/
  | first
  /-- The last position. -/
  | last
  /-- The position under evaluation. -/
  | current
  /-- A position by number, from zero. -/
  | constant (n : Int64)
  /-- The sum of two positions. -/
  | add (a b : Bound)
  /-- The difference of two positions. -/
  | sub (a b : Bound)
  deriving DecidableEq, Repr

/-- What an index in brackets picks. -/
inductive Index where
  /-- One position. -/
  | point (bound : Bound)
  /-- All positions from one to another, both included. -/
  | range (low high : Bound)
  deriving DecidableEq, Repr

/-- A stretch of a series, as functions take it. -/
structure Stretch where
  /-- The series. -/
  reference : Reference
  /-- The positions. -/
  index : Index
  deriving DecidableEq, Repr

/-! ### Operators and functions -/

/-- Operators from two numbers to a number. -/
inductive ArithOp where
  | add
  | sub
  | mul
  | div
  | mod
  | pow
  deriving DecidableEq, Repr

/-- Comparisons of two numbers. -/
inductive CompareOp where
  | less
  | lessEqual
  | greater
  | greaterEqual
  | equal
  | unequal
  deriving DecidableEq, Repr

/-- Functions of one stretch. -/
inductive Fold where
  | sum
  | average
  | count
  | stddev
  | variance
  | median
  | minimum
  | maximum
  | compound
  | cagr
  | product
  deriving DecidableEq, Repr

/-- Functions of two stretches. -/
inductive PairFold where
  | sumProduct
  | sumIf
  | averageIf
  | medianIf
  deriving DecidableEq, Repr

/-- The name of a function in formulas. -/
def Fold.name : Fold → String
  | sum => "sum"
  | average => "average"
  | count => "count"
  | stddev => "stddev"
  | variance => "variance"
  | median => "median"
  | minimum => "min"
  | maximum => "max"
  | compound => "compound"
  | cagr => "cagr"
  | product => "product"

/-- The name of a function in formulas. -/
def PairFold.name : PairFold → String
  | sumProduct => "sumproduct"
  | sumIf => "sumif"
  | averageIf => "averageif"
  | medianIf => "medianif"

/-- All functions of one stretch. -/
def Fold.all : List Fold :=
  [.sum, .average, .count, .stddev, .variance, .median, .minimum, .maximum, .compound, .cagr,
   .product]

/-- All functions of two stretches. -/
def PairFold.all : List PairFold := [.sumProduct, .sumIf, .averageIf, .medianIf]

/-- The function of one stretch that a name in lower case stands for; `mean` is another name of
the average. -/
def Fold.ofName? (name : String) : Option Fold :=
  if name = "mean" then some .average else Fold.all.find? (·.name == name)

/-- The function of two stretches that a name in lower case stands for. -/
def PairFold.ofName? (name : String) : Option PairFold := PairFold.all.find? (·.name == name)

/-! ### Expressions -/

/-- An expression whose value has the given type. -/
inductive Expr : Ty → Type where
  /-- A number. -/
  | number (x : Float) : Expr .number
  /-- A truth value. -/
  | truth (b : Bool) : Expr .boolean
  /-- Text. -/
  | text (s : String) : Expr .text
  /-- The position under evaluation, as a number. -/
  | position : Expr .number
  /-- The value of a series at one position. -/
  | point (reference : Reference) (bound : Bound) : Expr .number
  /-- The category at one position. -/
  | category (bound : Bound) : Expr .text
  /-- A number with the other sign. -/
  | negate (a : Expr .number) : Expr .number
  /-- Two numbers combined. -/
  | arith (op : ArithOp) (a b : Expr .number) : Expr .number
  /-- Two numbers compared. -/
  | compare (op : CompareOp) (a b : Expr .number) : Expr .boolean
  /-- Whether two texts are equal, or, when `equal` is false, whether they differ. -/
  | sameText (equal : Bool) (a b : Expr .text) : Expr .boolean
  /-- Whether both are true. -/
  | both (a b : Expr .boolean) : Expr .boolean
  /-- Whether one is true. -/
  | either (a b : Expr .boolean) : Expr .boolean
  /-- Whether it is false. -/
  | complement (a : Expr .boolean) : Expr .boolean
  /-- Whether a number is other than zero. -/
  | toBoolean (a : Expr .number) : Expr .boolean
  /-- One for true and zero for false. -/
  | toNumber (a : Expr .boolean) : Expr .number
  /-- A function of one stretch. -/
  | fold (f : Fold) (a : Stretch) : Expr .number
  /-- A function of two stretches. -/
  | pairFold (f : PairFold) (a b : Stretch) : Expr .number
  /-- The first branch where the condition is true, else the second. -/
  | choose {τ : Ty} (condition : Expr .boolean) (yes no : Expr τ) : Expr τ
  deriving Repr

end PanelQuery.Formula
