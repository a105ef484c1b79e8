import PanelQuery.Proofs.Formula.Derivation
import PanelQuery.Proofs.Formula.Fragments

/-! # Written formulas

Formulas as an author has them in mind, with their operators, indices and conditionals but without
conversions: when they make sense, how they are written with no more parentheses than they need, and
the code that they stand for.

* **`IndexTerm`, `IndexSum`, `Pick`, `Reading`** — series with the indices in brackets after them;
* **`UnaryOp`, `BinaryOp`** — operators with their tokens, levels, types and operations;
* **`Tree`** — formulas;
* **`Tree.ty`, `Tree.WellTyped`** — the type of a formula, and whether it has one;
* **`Tree.tokens`** — a formula in tokens, with parentheses where an operator needs them;
* **`Tree.code`, `Tree.specs`, `Tree.literals`** — its operations in postfix order, its indices and
  its texts;
* **`Tree.program_eq`** — these make the program of its code. -/

namespace PanelQuery.Formula

/-! ## (1) Series and indices -/

/-- One term of a position. -/
inductive IndexTerm where
  /-- The first position. -/
  | first
  /-- The last position. -/
  | last
  /-- The position under evaluation. -/
  | current
  /-- A position by number, which may have a minus. -/
  | whole (negative : Bool) (x : Float)

namespace IndexTerm

/-- Numbers of positions are whole. -/
def IsWhole : IndexTerm → Prop
  | whole _ x => (wholeCount? x).isSome
  | _ => True

/-- A term in tokens. -/
def tokens : IndexTerm → List Token
  | first => [.word "begin"]
  | last => [.word "end"]
  | current => [.word "t"]
  | whole false x => [.number x]
  | whole true x => [.minus, .number x]

/-- The operation of a term. Of a number only so much can be named. -/
def op : IndexTerm → IndexOp
  | first => .first
  | last => .last
  | current => .current
  | whole negative x =>
      let size : Int64 := .ofNat (min ((wholeCount? x).getD 0) greatestIndex)
      .constant (if negative then -size else size)

end IndexTerm

/-- A position: a term, and terms that are added or, where the mark is true, taken away. -/
structure IndexSum where
  /-- The first term. -/
  head : IndexTerm
  /-- The others. -/
  more : List (Bool × IndexTerm)

namespace IndexSum

/-- All terms are positions. -/
def IsWhole (s : IndexSum) : Prop := s.head.IsWhole ∧ ∀ u ∈ s.more, u.2.IsWhole

/-- A position in tokens. -/
def tokens (s : IndexSum) : List Token :=
  s.head.tokens ++ s.more.flatMap fun u => (if u.1 then .minus else .plus) :: u.2.tokens

/-- A position in postfix order. -/
def code (s : IndexSum) : IndexCode :=
  s.head.op :: s.more.flatMap fun u => [u.2.op, if u.1 then .sub else .add]

end IndexSum

/-- An index in brackets. -/
inductive Pick where
  /-- One position. -/
  | point (place : IndexSum)
  /-- All positions from one to another. -/
  | range (low high : IndexSum)

namespace Pick

/-- All positions are sums of positions. -/
def IsWhole : Pick → Prop
  | point s => s.IsWhole
  | range low high => low.IsWhole ∧ high.IsWhole

/-- Whether an index picks one position. -/
def isPoint : Pick → Bool
  | point _ => true
  | range .. => false

/-- An index in tokens. -/
def tokens : Pick → List Token
  | point s => .openBracket :: (s.tokens ++ [.closeBracket])
  | range low high => .openBracket :: (low.tokens ++ .colon :: (high.tokens ++ [.closeBracket]))

/-- An index in the table of a program. -/
def spec : Pick → IndexSpec
  | point s => .point s.code
  | range low high => .range low.code high.code

end Pick

/-- The name of a series. -/
def Reference.name : Reference → String
  | .broadcast => "val"
  | .field n => "val" ++ toString (n + 1)
  | .output => "this"

/-- Whether the number of a series can be read. -/
def Reference.IsNamed : Reference → Prop
  | .field n => n + 1 < twoPow 64
  | _ => True

/-- A series with the index after it, if there is one. -/
structure Reading where
  /-- The series. -/
  reference : Reference
  /-- The index. -/
  index : Option Pick

namespace Reading

/-- The number of the series can be read, and those in the index are whole. -/
def IsWhole (r : Reading) : Prop := r.reference.IsNamed ∧ ∀ i ∈ r.index, i.IsWhole

/-- A series in tokens. -/
def tokens (r : Reading) : List Token := .word r.reference.name :: r.index.elim [] Pick.tokens

/-- Outside of calls, a series without an index is read at the current position. -/
def pointSpec (index : Option Pick) : IndexSpec := index.elim (.point [.current]) Pick.spec

/-- In a call, a series without an index is read from the first position to the last. -/
def stretchSpec (index : Option Pick) : IndexSpec :=
  index.elim (.range [.first] [.last]) Pick.spec

end Reading

/-! ## (2) Operators -/

/-- How loose the phrases of a level are. -/
def Level.rank : Level → Nat
  | .chain l => l.rank
  | .complement => 6
  | .comparison => 5
  | .signed => 2
  | .power => 1
  | .primary => 0

/-- The phrases to the left of an operator of a level. -/
def Level.left : Level → Level
  | .comparison => .chain .sum
  | .power => .primary
  | level => level

/-- The phrases to the right of an operator of a level. -/
def Level.right : Level → Level
  | .chain l => .operand l
  | .comparison => .chain .sum
  | .power => .signed
  | level => level

/-- Operators before one operand. -/
inductive UnaryOp where
  /-- A number with the other sign. -/
  | negate
  /-- A number as it is. -/
  | keep
  /-- Whether a truth value is false. -/
  | complement

namespace UnaryOp

/-- The token of an operator. -/
def token : UnaryOp → Token
  | negate => .minus
  | keep => .plus
  | complement => .bang

/-- The level of an operator. -/
def level : UnaryOp → Level
  | negate | keep => .signed
  | complement => .complement

/-- The type of the operand and of the value. -/
def ty : UnaryOp → Ty
  | negate | keep => .number
  | complement => .boolean

/-- The code of the operand with the operation. -/
def code : UnaryOp → Fragment → Fragment
  | negate, f => f ++ .op .negate
  | keep, f => f
  | complement, f => f ++ .op .complement

end UnaryOp

/-- Operators between two operands. -/
inductive BinaryOp where
  /-- Whether one is true. -/
  | either
  /-- Whether both are true. -/
  | both
  /-- Two numbers or two texts compared. -/
  | compare (op : CompareOp)
  /-- Two numbers combined. -/
  | arith (op : ArithOp)

/-- The token of a comparison. -/
def CompareOp.token : CompareOp → Token
  | .less => .less
  | .lessEqual => .lessEqual
  | .greater => .greater
  | .greaterEqual => .greaterEqual
  | .equal => .equal
  | .unequal => .unequal

/-- The token of an operator on numbers. -/
def ArithOp.token : ArithOp → Token
  | .add => .plus
  | .sub => .minus
  | .mul => .star
  | .div => .slash
  | .mod => .percent
  | .pow => .caret

/-- The level of an operator on numbers. -/
def ArithOp.level : ArithOp → Level
  | .add | .sub => .chain .sum
  | .mul | .div | .mod => .chain .product
  | .pow => .power

namespace BinaryOp

/-- The token of an operator. -/
def token : BinaryOp → Token
  | either => .eitherOr
  | both => .bothAnd
  | compare op => op.token
  | arith op => op.token

/-- The level of an operator. -/
def level : BinaryOp → Level
  | either => .chain .disjunction
  | both => .chain .conjunction
  | compare _ => .comparison
  | arith op => op.level

/-- The type of the value. -/
def ty : BinaryOp → Ty
  | either | both | compare _ => .boolean
  | arith _ => .number

/-- The type that the operands are read as, from the type that the first one has. -/
def operands : BinaryOp → Ty → Ty
  | either, _ | both, _ => .boolean
  | compare _, .text => .text
  | compare _, _ | arith _, _ => .number

/-- The operation, from the type that the first operand has. -/
def op : BinaryOp → Ty → Op
  | either, _ => .either
  | both, _ => .both
  | compare op, .text => .sameText (op == .equal)
  | compare op, _ => .compare op
  | arith op, _ => .arith op

/-- Texts have no order. -/
def Allows : BinaryOp → Ty → Prop
  | compare op, .text => op = .equal ∨ op = .unequal
  | _, _ => True

end BinaryOp

/-! ## (3) Formulas and their types -/

/-- A formula. -/
inductive Tree where
  /-- A number. -/
  | number (x : Float)
  /-- Text. -/
  | text (s : String)
  /-- A truth value. -/
  | truth (b : Bool)
  /-- The position under evaluation. -/
  | position
  /-- A series. -/
  | series (a : Reading)
  /-- The category, with the index after it, if there is one. -/
  | category (index : Option Pick)
  /-- An operator before an operand. -/
  | unary (op : UnaryOp) (a : Tree)
  /-- An operator between operands. -/
  | binary (op : BinaryOp) (a b : Tree)
  /-- A function of one stretch. -/
  | fold (f : Fold) (a : Reading)
  /-- A function of two stretches. -/
  | pairFold (f : PairFold) (a b : Reading)
  /-- A conditional. -/
  | choose (condition yes no : Tree)

/-- Whether a value of one type can be used as one of another: numbers and truth values stand for
each other. -/
def Ty.ReadsAs (found wanted : Ty) : Prop := found = .text ↔ wanted = .text

instance (found wanted : Ty) : Decidable (found.ReadsAs wanted) :=
  inferInstanceAs (Decidable (found = .text ↔ wanted = .text))

/-- The type of a conditional, which is a number as soon as one of the branches is. -/
def Ty.join : Ty → Ty → Ty
  | .boolean, .boolean => .boolean
  | .text, _ => .text
  | _, _ => .number

namespace Tree

/-- The type of a formula. -/
def ty : Tree → Ty
  | number _ | position | series _ | fold .. | pairFold .. => .number
  | truth _ => .boolean
  | text _ | category _ => .text
  | unary op _ => op.ty
  | binary op _ _ => op.ty
  | choose _ yes no => yes.ty.join no.ty

/-- **Formulas that make sense.** Operands can be read as the types that operators want, and the
branches of a conditional go together. Outside of calls an index picks one position. -/
def WellTyped : Tree → Prop
  | number _ | text _ | truth _ | position => True
  | series a => a.IsWhole ∧ ∀ i ∈ a.index, i.isPoint
  | category index => ∀ i ∈ index, i.IsWhole ∧ i.isPoint
  | unary op a => a.WellTyped ∧ a.ty.ReadsAs op.ty
  | binary op a b =>
      a.WellTyped ∧ b.WellTyped ∧ a.ty.ReadsAs (op.operands a.ty) ∧
        b.ty.ReadsAs (op.operands a.ty) ∧ op.Allows a.ty
  | fold _ a => a.IsWhole
  | pairFold _ a b => a.IsWhole ∧ b.IsWhole
  | choose condition yes no =>
      condition.WellTyped ∧ yes.WellTyped ∧ no.WellTyped ∧
        condition.ty.ReadsAs .boolean ∧ yes.ty.ReadsAs no.ty

/-! ## (4) Formulas in tokens -/

/-- The level of a formula; conditionals have none, since they reach as far as they can. -/
def level? : Tree → Option Level
  | unary op _ => some op.level
  | binary op _ _ => some op.level
  | choose .. => none
  | _ => some .primary

/-- `enclosed wanted level? ts`: the tokens of an operand, in parentheses unless its level is as
tight as it has to be. -/
def enclosed (wanted : Level) (level? : Option Level) (ts : List Token) : List Token :=
  if level?.any (·.rank ≤ wanted.rank) then ts else .openParen :: (ts ++ [.closeParen])

/-- **A formula in tokens.** -/
def tokens : Tree → List Token
  | number x => [.number x]
  | text s => [.text s]
  | truth b => [.word (if b then "true" else "false")]
  | position => [.word "t"]
  | series a => a.tokens
  | category index => .word "category" :: index.elim [] Pick.tokens
  | unary op a => op.token :: enclosed op.level.right a.level? a.tokens
  | binary op a b =>
      enclosed op.level.left a.level? a.tokens ++
        op.token :: enclosed op.level.right b.level? b.tokens
  | fold f a => .word f.name :: .openParen :: (a.tokens ++ [.closeParen])
  | pairFold f a b =>
      .word f.name :: .openParen :: (a.tokens ++ .comma :: (b.tokens ++ [.closeParen]))
  | choose condition yes no =>
      .word "if" :: (condition.tokens ++ .word "then" :: (yes.tokens ++ .word "else" :: no.tokens))

end Tree

/-! ## (5) The code of formulas -/

/-- Code followed by the conversion between two types, if they are different. -/
def Fragment.convert (f : Fragment) : (found wanted : Ty) → Fragment
  | .number, .boolean => f ++ .op .toBoolean
  | .boolean, .number => f ++ .op .toNumber
  | _, _ => f

namespace Tree

/-- **The code of a formula**: that of its operands, each converted to what the operator wants, and
its operation. -/
def code : Tree → Fragment
  | number x => .op (.pushNumber x)
  | text s => .text s
  | truth b => .op (.pushTruth b)
  | position => .op .loadPosition
  | series a => .load (Reading.pointSpec a.index) (.load a.reference)
  | category index => .load (Reading.pointSpec index) .loadCategory
  | unary op a => op.code (a.code.convert a.ty op.ty)
  | binary op a b =>
      a.code.convert a.ty (op.operands a.ty) ++ b.code.convert b.ty (op.operands a.ty) ++
        .op (op.op a.ty)
  | fold f a => .load (Reading.stretchSpec a.index) (.loadStretch a.reference) ++ .op (.fold f)
  | pairFold f a b =>
      .load (Reading.stretchSpec a.index) (.loadStretch a.reference) ++
        .load (Reading.stretchSpec b.index) (.loadStretch b.reference) ++ .op (.pairFold f)
  | choose condition yes no =>
      .choose (condition.code.convert condition.ty .boolean)
        (yes.code.convert yes.ty (yes.ty.join no.ty)) (no.code.convert no.ty (yes.ty.join no.ty))

/-- The indices of a formula, in the order in which its series and categories occur. -/
def specs : Tree → List IndexSpec
  | number _ | text _ | truth _ | position => []
  | series a => [Reading.pointSpec a.index]
  | category index => [Reading.pointSpec index]
  | unary _ a => a.specs
  | binary _ a b => a.specs ++ b.specs
  | fold _ a => [Reading.stretchSpec a.index]
  | pairFold _ a b => [Reading.stretchSpec a.index, Reading.stretchSpec b.index]
  | choose condition yes no => condition.specs ++ yes.specs ++ no.specs

/-- The texts of a formula, in the order in which they occur. -/
def literals : Tree → List String
  | text s => [s]
  | number _ | truth _ | position | series _ | category _ | fold .. | pairFold .. => []
  | unary _ a => a.literals
  | binary _ a b => a.literals ++ b.literals
  | choose condition yes no => condition.literals ++ yes.literals ++ no.literals

/-- **The program of a formula**: its code as a number, from the first place and slot on, with its
indices and, each once, its texts. -/
def program (t : Tree) (source : String) : Program where
  source := source
  ops := (t.code.convert t.ty .number).ops t.literals.eraseDups 0 0
  indices := t.specs
  texts := t.literals.eraseDups

end Tree

section Code

variable (f : Fragment)

/-- `(f.convert σ τ).specs = f.specs`: a conversion loads nothing. -/
theorem Fragment.specs_convert (σ τ : Ty) : (f.convert σ τ).specs = f.specs := by
  cases σ <;> cases τ <;> first | rfl | exact List.append_nil _

/-- `(f.convert σ τ).literals = f.literals`: a conversion mentions no text. -/
theorem Fragment.literals_convert (σ τ : Ty) : (f.convert σ τ).literals = f.literals := by
  cases σ <;> cases τ <;> first | rfl | exact List.append_nil _

/-- `(op.code f).specs = f.specs ∧ (op.code f).literals = f.literals`: neither does an operator
before an operand. -/
theorem UnaryOp.tables_code (op : UnaryOp) :
    (op.code f).specs = f.specs ∧ (op.code f).literals = f.literals := by
  cases op <;> first | exact ⟨rfl, rfl⟩ | exact ⟨List.append_nil _, List.append_nil _⟩

/-- `t.code.specs = t.specs`: the code of a formula loads with its indices, in their order. -/
theorem Tree.specs_code (t : Tree) : t.code.specs = t.specs := by
  induction t with
  | number | text | truth | position | series | category | fold | pairFold => rfl
  | unary op a ih => rw [code, (op.tables_code _).1, Fragment.specs_convert, ih, specs]
  | binary op a b iha ihb =>
    show (a.code.convert _ _).specs ++ (b.code.convert _ _).specs ++ [] = _
    rw [Fragment.specs_convert, Fragment.specs_convert, iha, ihb, specs, List.append_nil]
  | choose condition yes no ihc ihy ihn =>
    show (condition.code.convert _ _).specs ++ (yes.code.convert _ _).specs ++
      (no.code.convert _ _).specs = _
    rw [Fragment.specs_convert, Fragment.specs_convert, Fragment.specs_convert, ihc, ihy, ihn,
      specs]

/-- `t.code.literals = t.literals`: the code of a formula mentions its texts, in their order. -/
theorem Tree.literals_code (t : Tree) : t.code.literals = t.literals := by
  induction t with
  | number | text | truth | position | series | category | fold | pairFold => rfl
  | unary op a ih => rw [code, (op.tables_code _).2, Fragment.literals_convert, ih, literals]
  | binary op a b iha ihb =>
    show (a.code.convert _ _).literals ++ (b.code.convert _ _).literals ++ [] = _
    rw [Fragment.literals_convert, Fragment.literals_convert, iha, ihb, literals, List.append_nil]
  | choose condition yes no ihc ihy ihn =>
    show (condition.code.convert _ _).literals ++ (yes.code.convert _ _).literals ++
      (no.code.convert _ _).literals = _
    rw [Fragment.literals_convert, Fragment.literals_convert, Fragment.literals_convert, ihc, ihy,
      ihn, literals]

/-- **The program of a formula is that of its code**:
`t.program source = (t.code.convert t.ty .number).program source`. -/
theorem Tree.program_eq (t : Tree) (source : String) :
    t.program source = (t.code.convert t.ty .number).program source := by
  rw [Tree.program, Fragment.program, Fragment.specs_convert, Fragment.literals_convert,
    t.specs_code, t.literals_code]

end Code

end PanelQuery.Formula
