import PanelQuery.Formula.Grammar
import PanelQuery.Proofs.Meets

/-! # Derivations

The grammar of formulas as rules, apart from any way to read a formula by them: which lexemes derive
which tree. Operators that group to the left have rules that are recursive on the left, `^` has one
that is recursive on the right, and a comparison has none that is recursive. Numbers and truth
values stand for each other only where an operator asks, or the other branch of a conditional.

The rules would let an operator after the last branch of a conditional belong to the branch or to
the whole. It belongs to the branch whenever the branch can take it: a phrase that ends in such a
branch is not the left operand of an operator, except of a comparison when the branch already ends
with one.

* **`Operand.ReadsAs`, `Operand.Joins`** — conversions of operands and of branches;
* **`Term`, `Position`, `Suffix`** — indices;
* **`Ending`** — how the end of a phrase bears on what follows it;
* **`Derives`** — the phrases of a level, with their trees;
* **`IsFormula`** — whole formulas. -/

namespace PanelQuery.Formula

/-! ## (1) Conversions -/

namespace Operand

/-- An operand read as a value of some type: as it is, or with a conversion between numbers and
truth values. -/
inductive ReadsAs : Operand → (wanted : Ty) → Expr wanted → Prop
  /-- A value of the type. -/
  | same {τ : Ty} (e : Expr τ) : ReadsAs (.value τ e) τ e
  /-- A number as a truth value. -/
  | toBoolean (e : Expr .number) : ReadsAs (.value .number e) .boolean e.toBoolean
  /-- A truth value as a number. -/
  | toNumber (e : Expr .boolean) : ReadsAs (.value .boolean e) .number e.toNumber

/-- The two branches of a conditional joined: as they are when they have one type, and a truth value
as a number when the other branch is a number. -/
inductive Joins (condition : Expr .boolean) : Operand → Operand → Operand → Prop
  /-- Branches of one type. -/
  | same {τ : Ty} (a b : Expr τ) :
      Joins condition (.value τ a) (.value τ b) (.value τ (.choose condition a b))
  /-- A truth value before a number. -/
  | first (a : Expr .boolean) (b : Expr .number) :
      Joins condition (.value .boolean a) (.value .number b)
        (.value .number (.choose condition a.toNumber b))
  /-- A number before a truth value. -/
  | second (a : Expr .number) (b : Expr .boolean) :
      Joins condition (.value .number a) (.value .boolean b)
        (.value .number (.choose condition a b.toNumber))

/-- `x.coerce place τ = .ok e ↔ x.ReadsAs τ e`: the conversion of an operand succeeds just when
there is one. -/
theorem coerce_eq_ok_iff {x : Operand} {place : Place} {τ : Ty} {e : Expr τ} :
    x.coerce place τ = .ok e ↔ x.ReadsAs τ e := by
  constructor
  · intro h
    cases x with
    | stretch a => cases h
    | value found a =>
      cases found <;> cases τ <;> cases h <;> constructor
  · intro h
    cases h with
    | same => cases τ <;> rfl
    | toBoolean => rfl
    | toNumber => rfl

/-- `Operand.branches condition x y = .ok z ↔ Joins condition x y z`: branches are joined just when
there is a way to. -/
theorem branches_eq_ok_iff {condition : Expr .boolean} {x y z : Operand} :
    Operand.branches condition x y = .ok z ↔ Joins condition x y z := by
  constructor
  · intro h
    cases x with
    | stretch a => cases y <;> cases h
    | value σ a =>
      cases y with
      | stretch b => cases σ <;> cases h
      | value τ b => cases σ <;> cases τ <;> cases h <;> constructor
  · intro h
    cases h with
    | @same τ => cases τ <;> rfl
    | first => rfl
    | second => rfl

end Operand

/-! ## (2) Indices -/

/-- One term of a position. -/
inductive Term : List Lexeme → Bound → Prop
  /-- A name. -/
  | name {t : Lexeme} {raw : String} {b : Bound} : t.token = .word raw →
      Bound.ofName? (Text.asciiLower raw) = some b → Term [t] b
  /-- A whole number, of which only so much can be named. -/
  | number {t : Lexeme} {x : Float} {n : Nat} : t.token = .number x → wholeCount? x = some n →
      Term [t] (.constant (.ofNat (min n greatestIndex)))
  /-- The same with a minus. -/
  | negative {sign t : Lexeme} {x : Float} {n : Nat} : sign.token = .minus →
      t.token = .number x → wholeCount? x = some n →
      Term [sign, t] (.constant (-.ofNat (min n greatestIndex)))

/-- A position: terms with plus and minus between them, grouped to the left. -/
inductive Position : List Lexeme → Bound → Prop
  /-- One term. -/
  | term {us : List Lexeme} {b : Bound} : Term us b → Position us b
  /-- A term added. -/
  | add {us vs : List Lexeme} {t : Lexeme} {a b : Bound} : Position us a → t.token = .plus →
      Term vs b → Position (us ++ t :: vs) (.add a b)
  /-- A term taken away. -/
  | sub {us vs : List Lexeme} {t : Lexeme} {a b : Bound} : Position us a → t.token = .minus →
      Term vs b → Position (us ++ t :: vs) (.sub a b)

/-- The index in brackets after a reference, if there is one. -/
inductive Suffix : List Lexeme → Option Index → Prop
  /-- No index. -/
  | none : Suffix [] none
  /-- One position. -/
  | point {opening closing : Lexeme} {us : List Lexeme} {b : Bound} :
      opening.token = .openBracket → Position us b → closing.token = .closeBracket →
      Suffix (opening :: (us ++ [closing])) (some (.point b))
  /-- Two positions. -/
  | range {opening colon closing : Lexeme} {us vs : List Lexeme} {low high : Bound} :
      opening.token = .openBracket → Position us low → colon.token = .colon → Position vs high →
      closing.token = .closeBracket →
      Suffix (opening :: (us ++ colon :: (vs ++ [closing]))) (some (.range low high))

/-! ## (3) Phrases -/

/-- The levels of phrases. -/
inductive Level where
  /-- Operators that group to the left. -/
  | chain (level : Chain)
  /-- Negations. -/
  | complement
  /-- Comparisons. -/
  | comparison
  /-- Signs. -/
  | signed
  /-- Powers. -/
  | power
  /-- Everything that operators can stand between. -/
  | primary

/-- The phrases that the operators of a level stand between. -/
def Level.operand : Chain → Level
  | .disjunction => .chain .conjunction
  | .conjunction => .complement
  | .sum => .chain .product
  | .product => .signed

/-- How the end of a phrase bears on the operators that may follow it. -/
structure Ending where
  /-- Whether the phrase ends in the last branch of a conditional, which takes every operator but a
  comparison. -/
  branch : Bool
  /-- Whether a comparison would be taken by that branch, or, at the level of comparisons and above,
  by the phrase. -/
  compares : Bool

/-- The end of a phrase that no conditional ends. -/
def Ending.closed : Ending := ⟨false, false⟩

/-- **The phrases of a level**, inside the arguments of a function or outside, with their endings
and what they yield. -/
inductive Derives : (inCall : Bool) → Level → Ending → List Lexeme → Operand → Prop
  /-- An operand of a level. -/
  | operand {c : Bool} {level : Chain} {e : Ending} {us : List Lexeme} {x : Operand} :
      Derives c (Level.operand level) e us x → Derives c (.chain level) e us x
  /-- Operators that group to the left. -/
  | chain {c : Bool} {level : Chain} {e e' : Ending} {us vs : List Lexeme} {t : Lexeme}
      {op : LeftOp} {x y : Operand} {a b : Expr op.ty} :
      Derives c (.chain level) e us x → e.branch = false →
      level.operator? t.token = some op → Derives c (Level.operand level) e' vs y →
      x.ReadsAs op.ty a → y.ReadsAs op.ty b →
      Derives c (.chain level) e' (us ++ t :: vs) (.value op.ty (op.apply a b))
  /-- A comparison, or less, without a negation. -/
  | affirmed {c : Bool} {e : Ending} {us : List Lexeme} {x : Operand} :
      Derives c .comparison e us x → Derives c .complement e us x
  /-- A negation. -/
  | complement {c : Bool} {e : Ending} {us : List Lexeme} {t : Lexeme} {x : Operand}
      {a : Expr .boolean} : t.token.isNot = true → Derives c .complement e us x →
      x.ReadsAs .boolean a → Derives c .complement e (t :: us) (.value .boolean (.complement a))
  /-- A sum that is not compared, but could be. -/
  | alone {c : Bool} {e : Ending} {us : List Lexeme} {x : Operand} :
      Derives c (.chain .sum) e us x → Derives c .comparison ⟨e.branch, true⟩ us x
  /-- Two numbers compared. -/
  | compare {c : Bool} {e e' : Ending} {us vs : List Lexeme} {t : Lexeme} {op : CompareOp}
      {x y : Operand} {a b : Expr .number} :
      Derives c (.chain .sum) e us x → e.compares = false →
      CompareOp.ofToken? t.token = some op → Derives c (.chain .sum) e' vs y →
      x.ReadsAs .number a → y.ReadsAs .number b →
      Derives c .comparison e' (us ++ t :: vs) (.value .boolean (.compare op a b))
  /-- Two texts compared. -/
  | sameText {c : Bool} {e e' : Ending} {us vs : List Lexeme} {t : Lexeme} {equal : Bool}
      {a b : Expr .text} :
      Derives c (.chain .sum) e us (.value .text a) → e.compares = false →
      CompareOp.ofToken? t.token = some (if equal then .equal else .unequal) →
      Derives c (.chain .sum) e' vs (.value .text b) →
      Derives c .comparison e' (us ++ t :: vs) (.value .boolean (.sameText equal a b))
  /-- No sign. -/
  | unsigned {c : Bool} {e : Ending} {us : List Lexeme} {x : Operand} :
      Derives c .power e us x → Derives c .signed e us x
  /-- A minus. -/
  | minus {c : Bool} {e : Ending} {us : List Lexeme} {t : Lexeme} {x : Operand}
      {a : Expr .number} : t.token = .minus → Derives c .signed e us x → x.ReadsAs .number a →
      Derives c .signed e (t :: us) (.value .number (.negate a))
  /-- A plus. -/
  | plus {c : Bool} {e : Ending} {us : List Lexeme} {t : Lexeme} {x : Operand}
      {a : Expr .number} : t.token = .plus → Derives c .signed e us x → x.ReadsAs .number a →
      Derives c .signed e (t :: us) (.value .number a)
  /-- No power. -/
  | base {c : Bool} {e : Ending} {us : List Lexeme} {x : Operand} :
      Derives c .primary e us x → Derives c .power e us x
  /-- A power, whose exponent may have a sign and be a power again. -/
  | power {c : Bool} {e e' : Ending} {us vs : List Lexeme} {t : Lexeme} {x y : Operand}
      {a b : Expr .number} :
      Derives c .primary e us x → e.branch = false → t.token = .caret →
      Derives c .signed e' vs y → x.ReadsAs .number a → y.ReadsAs .number b →
      Derives c .power e' (us ++ t :: vs) (.value .number (.arith .pow a b))
  /-- A number. -/
  | number {c : Bool} {t : Lexeme} {x : Float} : t.token = .number x →
      Derives c .primary .closed [t] (.value .number (.number x))
  /-- Text. -/
  | text {c : Bool} {t : Lexeme} {s : String} : t.token = .text s →
      Derives c .primary .closed [t] (.value .text (.text s))
  /-- A formula in parentheses. -/
  | parens {c : Bool} {e : Ending} {opening closing : Lexeme} {us : List Lexeme} {x : Operand} :
      opening.token = .openParen → Derives c (.chain .disjunction) e us x →
      closing.token = .closeParen → Derives c .primary .closed (opening :: (us ++ [closing])) x
  /-- A constant. -/
  | truth {c b : Bool} {t : Lexeme} : t.token.isKeyword (if b then "true" else "false") = true →
      Derives c .primary .closed [t] (.value .boolean (.truth b))
  /-- The position under evaluation. -/
  | position {c : Bool} {t : Lexeme} : t.token.isKeyword "t" = true →
      Derives c .primary .closed [t] (.value .number .position)
  /-- The category at one position, the current one when none is given. -/
  | category {c : Bool} {t : Lexeme} {us : List Lexeme} {index : Option Index} {b : Bound} :
      t.token.isKeyword "category" = true → Suffix us index →
      index.getD (.point .current) = .point b →
      Derives c .primary .closed (t :: us) (.value .text (.category b))
  /-- A series at one position, the current one when none is given. -/
  | point {t : Lexeme} {raw : String} {reference : Reference} {us : List Lexeme}
      {index : Option Index} {b : Bound} : t.token = .word raw →
      Reference.ofName? (Text.asciiLower raw) = some reference → Suffix us index →
      index.getD (.point .current) = .point b →
      Derives false .primary .closed (t :: us) (.value .number (.point reference b))
  /-- In a call: a stretch of a series, all of it when no index is given. -/
  | stretch {t : Lexeme} {raw : String} {reference : Reference} {us : List Lexeme}
      {index : Option Index} : t.token = .word raw →
      Reference.ofName? (Text.asciiLower raw) = some reference → Suffix us index →
      Derives true .primary .closed (t :: us)
        (.stretch ⟨reference, index.getD (.range .first .last)⟩)
  /-- A function of one stretch. -/
  | fold {c : Bool} {t opening closing : Lexeme} {raw : String} {f : Fold} {e : Ending}
      {us : List Lexeme} {a : Stretch} : t.token = .word raw →
      Fold.ofName? (Text.asciiLower raw) = some f → opening.token = .openParen →
      Derives true (.chain .disjunction) e us (.stretch a) → closing.token = .closeParen →
      Derives c .primary .closed (t :: opening :: (us ++ [closing])) (.value .number (.fold f a))
  /-- A function of two stretches. -/
  | pairFold {c : Bool} {t opening comma closing : Lexeme} {raw : String} {f : PairFold}
      {e e' : Ending} {us vs : List Lexeme} {a b : Stretch} : t.token = .word raw →
      PairFold.ofName? (Text.asciiLower raw) = some f → opening.token = .openParen →
      Derives true (.chain .disjunction) e us (.stretch a) → comma.token = .comma →
      Derives true (.chain .disjunction) e' vs (.stretch b) → closing.token = .closeParen →
      Derives c .primary .closed (t :: opening :: (us ++ comma :: (vs ++ [closing])))
        (.value .number (.pairFold f a b))
  /-- A conditional. It ends in its last branch. -/
  | conditional {c : Bool} {t atThen atElse : Lexeme} {e e' e'' : Ending}
      {us vs ws : List Lexeme} {test yes no z : Operand} {condition : Expr .boolean} :
      t.token.isKeyword "if" = true → Derives c (.chain .disjunction) e us test →
      test.ReadsAs .boolean condition → atThen.token.isKeyword "then" = true →
      Derives c (.chain .disjunction) e' vs yes → atElse.token.isKeyword "else" = true →
      Derives c (.chain .disjunction) e'' ws no → Operand.Joins condition yes no z →
      Derives c .primary ⟨true, e''.compares⟩
        (t :: (us ++ atThen :: (vs ++ atElse :: ws))) z

/-- **Whole formulas**: a phrase of the loosest level, outside any call, that is read as a
number. -/
def IsFormula (ts : List Lexeme) (e : Expr .number) : Prop :=
  ∃ ending x, Derives false (.chain .disjunction) ending ts x ∧ x.ReadsAs .number e

end PanelQuery.Formula
