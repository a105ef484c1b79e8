import PanelQuery.Formula.Expr
import PanelQuery.Formula.Lexeme
import PanelQuery.Number.Power

/-! # The grammar of formulas

From the loosest to the tightest, an expression is built of `or`, `and`, `not`, one comparison,
`+ -`, `* / %`, signs, and `^`, around numbers, text, names, calls, parentheses and conditionals.
All binary operators but `^` and the comparisons group to the left, `^` groups to the right, and a
comparison does not chain. The last branch of a conditional reaches as far as it can.

Operands are converted as they are read, so the first fault from left to right is the one
reported.

* **`Operand`** — what a part of a formula yields, with its tree;
* **`Chain`** — the four levels of operators that group to the left;
* **`chained` and the functions with it** — one function per level, each giving the lexemes it
  leaves, which are fewer;
* **`parse`** — the tree of a formula, which yields a number. -/

namespace PanelQuery.Formula

/-! ### Operands -/

/-- What a part of a formula yields. -/
inductive Operand where
  /-- A value of some type. -/
  | value (ty : Ty) (expr : Expr ty)
  /-- A stretch of a series. -/
  | stretch (stretch : Stretch)

namespace Operand

/-- The sort of what an operand yields. -/
def yields : Operand → Yield
  | value ty _ => .value ty
  | stretch _ => .stretch

/-- The operand read as a value of type `wanted`: numbers and truth values stand for each other. -/
def coerce (place : Place) (wanted : Ty) : Operand → Except CompileError (Expr wanted)
  | value found e =>
      match found, wanted, e with
      | .number, .number, e => .ok e
      | .boolean, .boolean, e => .ok e
      | .text, .text, e => .ok e
      | .number, .boolean, e => .ok e.toBoolean
      | .boolean, .number, e => .ok e.toNumber
      | found, wanted, _ => .error (.operand place wanted (.value found))
  | stretch _ => .error (.operand place wanted .stretch)

/-- `branches condition yes no`: the two branches of a conditional, the truth value of one read as a
number when the other is a number. -/
def branches (condition : Expr .boolean) (yes no : Operand) : Except CompileError Operand :=
  match yes, no with
  | value .number a, value .number b => .ok (value .number (.choose condition a b))
  | value .boolean a, value .boolean b => .ok (value .boolean (.choose condition a b))
  | value .text a, value .text b => .ok (value .text (.choose condition a b))
  | value .boolean a, value .number b => .ok (value .number (.choose condition a.toNumber b))
  | value .number a, value .boolean b => .ok (value .number (.choose condition a b.toNumber))
  | stretch _, stretch _ => .error .conditionalStretch
  | a, b => .error (.branches a.yields b.yields)

end Operand

/-! ### Operators that group to the left -/

/-- An operator that groups to the left; its operands and its value have one type. -/
inductive LeftOp where
  | either
  | both
  | arith (op : ArithOp)

/-- The type of the operands and the value. -/
def LeftOp.ty : LeftOp → Ty
  | either | both => .boolean
  | arith _ => .number

/-- The place that the operands stand in. -/
def LeftOp.place : LeftOp → Place
  | either => .disjunction
  | both => .conjunction
  | arith _ => .arithmetic

/-- The operator on its operands. -/
def LeftOp.apply : (op : LeftOp) → Expr op.ty → Expr op.ty → Expr op.ty
  | either, a, b => .either a b
  | both, a, b => .both a b
  | arith op, a, b => .arith op a b

/-- The levels of operators that group to the left, the loosest first. -/
inductive Chain where
  | disjunction
  | conjunction
  | sum
  | product

/-- How loose a level is, against the levels in between. -/
def Chain.rank : Chain → Nat
  | disjunction => 8
  | conjunction => 7
  | sum => 4
  | product => 3

/-- Whether a token is the given keyword, in either case of letters. -/
def Token.isKeyword (keyword : String) : Token → Bool
  | .word name => Text.asciiLower name == keyword
  | _ => false

/-- The operator of a level that a token stands for. -/
def Chain.operator? : Chain → Token → Option LeftOp
  | disjunction, .eitherOr => some .either
  | disjunction, t => if t.isKeyword "or" then some .either else none
  | conjunction, .bothAnd => some .both
  | conjunction, t => if t.isKeyword "and" then some .both else none
  | sum, .plus => some (.arith .add)
  | sum, .minus => some (.arith .sub)
  | product, .star => some (.arith .mul)
  | product, .slash => some (.arith .div)
  | product, .percent => some (.arith .mod)
  | _, _ => none

/-- The comparison that a token stands for. -/
def CompareOp.ofToken? : Token → Option CompareOp
  | .less => some .less
  | .lessEqual => some .lessEqual
  | .greater => some .greater
  | .greaterEqual => some .greaterEqual
  | .equal => some .equal
  | .unequal => some .unequal
  | _ => none

/-- Whether a token is a negation. -/
def Token.isNot : Token → Bool
  | .bang => true
  | t => t.isKeyword "not"

/-- `compareText op a b`: the comparison of two texts that an operator stands for. -/
def compareText (op : CompareOp) (a b : Expr .text) : Except CompileError (Expr .boolean) :=
  match op with
  | .equal => .ok (.sameText true a b)
  | .unequal => .ok (.sameText false a b)
  | _ => .error .textOrder

/-! ### Reading lexemes -/

/-- What a function of the grammar needs to know about where it stands. -/
structure Scope where
  /-- The bytes of the whole text, where a missing token would stand. -/
  size : Nat
  /-- Whether the place is inside the arguments of a function. -/
  inCall : Bool

/-- The lexemes after a part of `ts`. -/
abbrev After (ts : List Lexeme) := { rest : List Lexeme // rest.length < ts.length }

/-- The lexemes after a part of `ts` that may be empty. -/
abbrev Within (ts : List Lexeme) := { rest : List Lexeme // rest.length ≤ ts.length }

/-- The byte that the next lexeme starts at. -/
def Scope.place (s : Scope) : List Lexeme → Nat
  | [] => s.size
  | t :: _ => t.start

/-- The lexemes after one that `accepts`, or else `fault`. -/
def expect (accepts : Token → Bool) (fault : CompileError) :
    (ts : List Lexeme) → Except CompileError (After ts)
  | t :: rest => if accepts t.token then .ok ⟨rest, by simp⟩ else .error fault
  | [] => .error fault

/-- `Scope.expectToken s token ts`: the lexemes after a certain token. Only tokens without content
are asked for, and these differ by name. -/
def Scope.expectToken (s : Scope) (token : Token) (ts : List Lexeme) :
    Except CompileError (After ts) :=
  expect (·.name == token.name) (.expectedToken (s.place ts) token) ts

/-- `Scope.expectKeyword s keyword ts`: the lexemes after a certain keyword. -/
def Scope.expectKeyword (s : Scope) (keyword : String) (ts : List Lexeme) :
    Except CompileError (After ts) :=
  expect (·.isKeyword keyword) (.expectedKeyword (s.place ts) keyword) ts

/-! ### Indices -/

/-- The greatest number that an index can name. -/
def greatestIndex : Nat := twoPow 63 - 1

/-- The bound that a word names. -/
def Bound.ofName? (name : String) : Option Bound :=
  if name = "t" then some .current
  else if name = "begin" then some .first
  else if name = "end" then some .last
  else none

/-- One term of a position: a name, or a whole number that may have a minus. -/
def boundTerm (ts : List Lexeme) : Except CompileError (Bound × After ts) :=
  let term (negative : Bool) : (us : List Lexeme) → Except CompileError (Bound × After us)
    | [] => .error .indexEnd
    | u :: rest =>
        let after : After (u :: rest) := ⟨rest, by simp⟩
        match u.token with
        | .number x =>
            match wholeCount? x with
            | some n =>
                let size : Int64 := .ofNat (min n greatestIndex)
                .ok (.constant (if negative then -size else size), after)
            | none => .error (.indexToken u.token)
        | .word name =>
            if negative then .error (.indexToken u.token)
            else
              let lower := Text.asciiLower name
              match Bound.ofName? lower with
              | some b => .ok (b, after)
              | none => .error (.indexName lower)
        | other => .error (.indexToken other)
  match ts with
  | ⟨.minus, _, _⟩ :: rest => do
      let (b, ⟨after, h⟩) ← term true rest
      return (b, ⟨after, by simp; omega⟩)
  | ts => term false ts

/-- `boundTail left ts`: further terms of a position, added to or taken from the ones before. -/
def boundTail (left : Bound) (ts : List Lexeme) : Except CompileError (Bound × Within ts) :=
  match ts with
  | ⟨.plus, _, _⟩ :: rest => do
      let (b, ⟨rest, h⟩) ← boundTerm rest
      let (b, ⟨rest, h'⟩) ← boundTail (.add left b) rest
      return (b, ⟨rest, by simp; omega⟩)
  | ⟨.minus, _, _⟩ :: rest => do
      let (b, ⟨rest, h⟩) ← boundTerm rest
      let (b, ⟨rest, h'⟩) ← boundTail (.sub left b) rest
      return (b, ⟨rest, by simp; omega⟩)
  | ts => .ok (left, ⟨ts, Nat.le_refl _⟩)
  termination_by ts.length
  decreasing_by all_goals simp_wf; omega

/-- A position: terms with plus and minus between them. -/
def bound (ts : List Lexeme) : Except CompileError (Bound × After ts) := do
  let (b, ⟨rest, h⟩) ← boundTerm ts
  let (b, ⟨rest, h'⟩) ← boundTail b rest
  return (b, ⟨rest, by omega⟩)

/-- `Scope.indexSuffix? s ts`: the index in brackets that may follow a reference. -/
def Scope.indexSuffix? (s : Scope) (ts : List Lexeme) :
    Except CompileError (Option Index × Within ts) :=
  match ts with
  | ⟨.openBracket, _, _⟩ :: rest => do
      let (low, ⟨rest, h⟩) ← bound rest
      match rest, h with
      | ⟨.colon, _, _⟩ :: rest, h => do
          let (high, ⟨rest, h'⟩) ← bound rest
          let ⟨rest, h''⟩ ← s.expectToken .closeBracket rest
          return (some (.range low high), ⟨rest, by simp at *; omega⟩)
      | rest, h => do
          let ⟨rest, h'⟩ ← s.expectToken .closeBracket rest
          return (some (.point low), ⟨rest, by simp; omega⟩)
  | ts => .ok (none, ⟨ts, Nat.le_refl _⟩)

/-- `Scope.categoryOperand s ts`: the category at an index, or at the current position. -/
def Scope.categoryOperand (s : Scope) (ts : List Lexeme) :
    Except CompileError (Operand × Within ts) := do
  let (index, rest) ← s.indexSuffix? ts
  match index with
  | some (.point b) => return (.value .text (.category b), rest)
  | none => return (.value .text (.category .current), rest)
  | some (.range _ _) => throw .categoryRange

/-- `Scope.referenceOperand s reference ts`: a series at an index. Inside a call it is a stretch,
the whole series when it has no index; outside it is a value, the current one when it has no
index. -/
def Scope.referenceOperand (s : Scope) (reference : Reference) (ts : List Lexeme) :
    Except CompileError (Operand × Within ts) := do
  let (index, rest) ← s.indexSuffix? ts
  if s.inCall then
    return (.stretch ⟨reference, index.getD (.range .first .last)⟩, rest)
  else
    match index.getD (.point .current) with
    | .point b => return (.value .number (.point reference b), rest)
    | .range _ _ => throw .stretchOutsideCall

/-- A function argument, which has to be a stretch. -/
def Operand.asArgument : Operand → Except CompileError Stretch
  | stretch a => .ok a
  | value ty _ => .error (.argument (.value ty))

/-- Whether a parenthesis opens next. -/
def opensParen : List Lexeme → Bool
  | ⟨.openParen, _, _⟩ :: _ => true
  | _ => false

/-! ### Levels -/

mutual

/-- `chained s level ts`: the operands of one level and the operators between them. -/
def chained (s : Scope) (level : Chain) (ts : List Lexeme) :
    Except CompileError (Operand × After ts) := do
  let (left, ⟨rest, h⟩) ← match level with
    | .disjunction => chained s .conjunction ts
    | .conjunction => complement s ts
    | .sum => chained s .product ts
    | .product => signed s ts
  let (e, ⟨rest, h'⟩) ← chainTail s level left rest
  return (e, ⟨rest, by omega⟩)
  termination_by (ts.length, level.rank)
  decreasing_by all_goals simp [Chain.rank]; try omega

/-- Further operators of a level with their operands, to the right of `left`. -/
def chainTail (s : Scope) (level : Chain) (left : Operand) (ts : List Lexeme) :
    Except CompileError (Operand × Within ts) :=
  match ts with
  | [] => .ok (left, ⟨[], Nat.le_refl _⟩)
  | t :: rest =>
      match level.operator? t.token with
      | none => .ok (left, ⟨t :: rest, Nat.le_refl _⟩)
      | some op => do
          let a ← left.coerce op.place op.ty
          let (right, ⟨rest, h⟩) ← match level with
            | .disjunction => chained s .conjunction rest
            | .conjunction => complement s rest
            | .sum => chained s .product rest
            | .product => signed s rest
          let b ← right.coerce op.place op.ty
          let (e, ⟨rest, h'⟩) ← chainTail s level (.value op.ty (op.apply a b)) rest
          return (e, ⟨rest, by simp; omega⟩)
  termination_by (ts.length, 0)
  decreasing_by all_goals simp only [Prod.lex_def]; simp; try omega

/-- `complement s ts`: a comparison after any number of negations. -/
def complement (s : Scope) (ts : List Lexeme) : Except CompileError (Operand × After ts) :=
  match ts with
  | [] => comparison s []
  | t :: rest =>
      if t.token.isNot then do
        let (e, ⟨rest, h⟩) ← complement s rest
        let a ← e.coerce .complement .boolean
        return (.value .boolean (.complement a), ⟨rest, by simp; omega⟩)
      else comparison s (t :: rest)
  termination_by (ts.length, 6)
  decreasing_by all_goals simp only [Prod.lex_def]; simp; try omega

/-- `comparison s ts`: a sum, or two compared. -/
def comparison (s : Scope) (ts : List Lexeme) : Except CompileError (Operand × After ts) := do
  let (left, ⟨rest, h⟩) ← chained s .sum ts
  match rest, h with
  | [], h => return (left, ⟨[], h⟩)
  | t :: rest, h =>
      match CompareOp.ofToken? t.token with
      | none => return (left, ⟨t :: rest, h⟩)
      | some op =>
          match left with
          | .value .text a => do
              let (right, ⟨rest, h'⟩) ← chained s .sum rest
              match right with
              | .value .text b => do
                  let e ← compareText op a b
                  return (.value .boolean e, ⟨rest, by simp at h; omega⟩)
              | _ => throw .textWithOther
          | left => do
              let a ← left.coerce .comparison .number
              let (right, ⟨rest, h'⟩) ← chained s .sum rest
              let b ← right.coerce .comparison .number
              return (.value .boolean (.compare op a b), ⟨rest, by simp at h; omega⟩)
  termination_by (ts.length, 5)
  decreasing_by all_goals simp only [Prod.lex_def]; simp [Chain.rank] at *; try omega

/-- `signed s ts`: a power after any number of signs. -/
def signed (s : Scope) (ts : List Lexeme) : Except CompileError (Operand × After ts) :=
  match ts with
  | ⟨.minus, _, _⟩ :: rest => do
      let (e, ⟨rest, h⟩) ← signed s rest
      let a ← e.coerce .negation .number
      return (.value .number (.negate a), ⟨rest, by simp; omega⟩)
  | ⟨.plus, _, _⟩ :: rest => do
      let (e, ⟨rest, h⟩) ← signed s rest
      let a ← e.coerce .unaryPlus .number
      return (.value .number a, ⟨rest, by simp; omega⟩)
  | ts => power s ts
  termination_by (ts.length, 2)
  decreasing_by all_goals simp only [Prod.lex_def]; simp; try omega

/-- `power s ts`: a primary, or one to the power of what follows, which may have signs and powers
again. -/
def power (s : Scope) (ts : List Lexeme) : Except CompileError (Operand × After ts) := do
  let (base, ⟨rest, h⟩) ← primary s ts
  match rest, h with
  | ⟨.caret, _, _⟩ :: rest, h => do
      let a ← base.coerce .power .number
      let (exponent, ⟨rest, h'⟩) ← signed s rest
      let b ← exponent.coerce .power .number
      return (.value .number (.arith .pow a b), ⟨rest, by simp at h; omega⟩)
  | rest, h => return (base, ⟨rest, h⟩)
  termination_by (ts.length, 1)
  decreasing_by all_goals simp only [Prod.lex_def]; simp at *; try omega

/-- `primary s ts`: a number, text, a formula in parentheses, or what a name begins. -/
def primary (s : Scope) (ts : List Lexeme) : Except CompileError (Operand × After ts) :=
  match ts with
  | [] => .error (.unexpectedEnd s.size)
  | t :: rest =>
      match t.token with
      | .number x => .ok (.value .number (.number x), ⟨rest, by simp⟩)
      | .text content => .ok (.value .text (.text content), ⟨rest, by simp⟩)
      | .openParen => do
          let (e, ⟨rest, h⟩) ← chained s .disjunction rest
          let ⟨rest, h'⟩ ← s.expectToken .closeParen rest
          return (e, ⟨rest, by simp; omega⟩)
      | .word name => do
          let (e, ⟨rest, h⟩) ← named s name rest
          return (e, ⟨rest, by simp; omega⟩)
      | other => .error (.unexpectedToken t.start other)
  termination_by (ts.length, 0)
  decreasing_by all_goals simp only [Prod.lex_def]; simp at *; try omega

/-- What the name `raw` begins: a conditional, a constant, the position, the category, a series or
a call. -/
def named (s : Scope) (raw : String) (ts : List Lexeme) :
    Except CompileError (Operand × Within ts) :=
  let name := Text.asciiLower raw
  if name = "if" then do
    let (e, ⟨rest, h⟩) ← conditional s ts
    return (e, ⟨rest, by omega⟩)
  else if name = "true" then .ok (.value .boolean (.truth true), ⟨ts, Nat.le_refl _⟩)
  else if name = "false" then .ok (.value .boolean (.truth false), ⟨ts, Nat.le_refl _⟩)
  else if name = "t" then .ok (.value .number .position, ⟨ts, Nat.le_refl _⟩)
  else if name = "category" then s.categoryOperand ts
  else
    match Reference.ofName? name with
    | some reference => s.referenceOperand reference ts
    | none =>
        if opensParen ts then
          match Fold.ofName? name, PairFold.ofName? name with
          | some f, _ => do
              let (a, ⟨rest, h⟩) ← argument s .openParen ts
              let ⟨rest, h'⟩ ← s.expectToken .closeParen rest
              return (.value .number (.fold f a), ⟨rest, by omega⟩)
          | none, some f => do
              let (a, ⟨rest, h⟩) ← argument s .openParen ts
              let (b, ⟨rest, h'⟩) ← argument s .comma rest
              let ⟨rest, h''⟩ ← s.expectToken .closeParen rest
              return (.value .number (.pairFold f a b), ⟨rest, by omega⟩)
          | none, none => .error (.unknownFunction raw)
        else .error (.unknownIdentifier raw)
  termination_by (ts.length, 11)
  decreasing_by all_goals simp only [Prod.lex_def]; simp at *; try omega

/-- `argument s opening ts`: a function argument after the token that opens or separates
arguments. -/
def argument (s : Scope) (opening : Token) (ts : List Lexeme) :
    Except CompileError (Stretch × After ts) := do
  let ⟨rest, h⟩ ← s.expectToken opening ts
  let (e, ⟨rest, h'⟩) ← chained { s with inCall := true } .disjunction rest
  let a ← e.asArgument
  return (a, ⟨rest, by omega⟩)
  termination_by (ts.length, 10)
  decreasing_by all_goals simp only [Prod.lex_def]; omega

/-- A conditional after its `if`. -/
def conditional (s : Scope) (ts : List Lexeme) : Except CompileError (Operand × After ts) := do
  let (test, ⟨rest, h⟩) ← chained s .disjunction ts
  let condition ← test.coerce .condition .boolean
  let ⟨rest, h'⟩ ← s.expectKeyword "then" rest
  let (yes, ⟨rest, h''⟩) ← chained s .disjunction rest
  let ⟨rest, h3⟩ ← s.expectKeyword "else" rest
  let (no, ⟨rest, h4⟩) ← chained s .disjunction rest
  let e ← Operand.branches condition yes no
  return (e, ⟨rest, by omega⟩)
  termination_by (ts.length, 10)
  decreasing_by all_goals simp only [Prod.lex_def]; simp [Chain.rank] at *; try omega

end

/-! ### Formulas -/

/-- A whole formula as a number. -/
def Operand.asResult : Operand → Except CompileError (Expr .number)
  | value .number e => .ok e
  | value .boolean e => .ok e.toNumber
  | other => .error (.result other.yields)

/-- The tree of a formula's text. -/
def parse (source : String) : Except CompileError (Expr .number) := do
  let ts ← tokenize source
  let (e, ⟨rest, _⟩) ← chained ⟨source.utf8ByteSize, false⟩ .disjunction ts
  match rest with
  | [] => e.asResult
  | t :: _ => throw (.unexpectedToken t.start t.token)

end PanelQuery.Formula
