import PanelQuery.Formula.Program

/-! # The compiler

A formula is compiled in one pass over its lexemes, without a tree. Each function of the grammar
emits operations to the end of a draft and answers with what they yield. An operand that has been
read is converted by one more operation. What a conditional jumps to is not known when its jumps
are emitted: both get the target `0`, which is replaced when the end of the conditional is reached.
The type of the first branch is settled only by the second one, so that its conversion is inserted
before the jump behind it, and all targets beyond that place move on by one.

* **`Draft`** — a program under construction, with `emit`, `insert` and `patch`;
* **`Draft.coerce`, `Draft.join`** — conversions in emitted code;
* **`Compiler.chained` and the functions with it** — one function per level, which read what
  `chained` and the functions with it read;
* **`compile`** — the program of a formula's text. -/

namespace PanelQuery.Formula

/-! ### Drafts -/

/-- A program under construction. -/
structure Draft where
  /-- The operations so far. -/
  ops : List Op
  /-- The tables so far. -/
  tables : Tables

/-- The operation `o` after `place + 1` has been pushed off `place`: a target `t` with `place < t`
becomes `t + 1`. -/
def Op.makeRoom (place : Nat) : Op → Op
  | .branch target => .branch (if place < target then target + 1 else target)
  | .jump target => .jump (if place < target then target + 1 else target)
  | o => o

namespace Draft

/-- No operations, and `Tables.empty`. -/
def empty : Draft := ⟨[], .empty⟩

/-- The draft with the operation `o` at its end. -/
def emit (d : Draft) (o : Op) : Draft := { d with ops := d.ops ++ [o] }

/-- The draft with `o` in place of the operation at `place`. -/
def patch (d : Draft) (place : Nat) (o : Op) : Draft := { d with ops := d.ops.set place o }

/-- The draft with `o` at `place`, before what has stood there, and `Op.makeRoom place` of all
operations. -/
def insert (d : Draft) (place : Nat) (o : Op) : Draft :=
  { d with ops := (d.ops.insertIdx place o).map (Op.makeRoom place) }

/-- The load `o slot`, for the slot of a new index `spec`. -/
def load (d : Draft) (spec : IndexSpec) (o : Nat → Op) : Draft :=
  let (slot, tables) := d.tables.addIndex spec
  { d with tables }.emit (o slot)

/-- `text d s`: the load of a text, whose slot is new unless the table has the text. -/
def text (d : Draft) (s : String) : Draft :=
  let (slot, tables) := d.tables.addText s
  { d with tables }.emit (.pushText slot)

/-- The draft after a conversion of what its last operations yield to `wanted`, if there is one. -/
def coerce (d : Draft) (place : Place) (wanted : Ty) (found : Yield) : Except CompileError Draft :=
  if found = .value wanted then .ok d
  else
    match found, wanted with
    | .value .number, .boolean => .ok (d.emit .toBoolean)
    | .value .boolean, .number => .ok (d.emit .toNumber)
    | found, wanted => .error (.operand place wanted found)

/-- What a conditional yields whose branches yield `yes` and `no`, with the place of the jump
between them, which stands at `elseAt` before. A truth value beside a number is converted: the
second branch at the end of the draft, the first one before the jump. -/
def join (d : Draft) (elseAt : Nat) (yes no : Yield) : Except CompileError (Yield × Nat × Draft) :=
  if yes = no then
    if yes = .stretch then .error .conditionalStretch else .ok (yes, elseAt, d)
  else
    match yes, no with
    | .value .boolean, .value .number =>
        .ok (.value .number, elseAt + 1, d.insert elseAt .toNumber)
    | .value .number, .value .boolean => .ok (.value .number, elseAt, d.emit .toNumber)
    | yes, no => .error (.branches yes no)

/-- The draft of a whole formula, which yields a number. -/
def finish (d : Draft) : Yield → Except CompileError Draft
  | .value .number => .ok d
  | .value .boolean => .ok (d.emit .toNumber)
  | found => .error (.result found)

/-- `program d source`: the program that a draft has become. -/
def program (d : Draft) (source : String) : Program :=
  ⟨source, d.ops, d.tables.indices, d.tables.texts⟩

end Draft

/-- The operation of an operator that groups to the left. -/
def LeftOp.op : LeftOp → Op
  | either => .either
  | both => .both
  | arith op => .arith op

/-- The operation that compares two texts, for `=` and `<>` only. -/
def textOp : CompareOp → Except CompileError Op
  | .equal => .ok (.sameText true)
  | .unequal => .ok (.sameText false)
  | _ => .error .textOrder

namespace Compiler

/-! ### What is left of the lexemes -/

namespace After

variable {ts rest left : List Lexeme}

/-- What is left behind the first lexeme: `rest.length < (t :: rest).length`. -/
theorem tail (t : Lexeme) (rest : List Lexeme) : rest.length < (t :: rest).length :=
  Nat.lt_succ_self _

/-- What is left behind the first lexeme and some of the others:
`left.length < (t :: rest).length`. -/
theorem cons (t : Lexeme) (h : left.length < rest.length) : left.length < (t :: rest).length :=
  Nat.lt_succ_of_lt h

/-- The same, for a first lexeme that is known:
`left.length < ((⟨token, start, stop⟩ : Lexeme) :: rest).length`. -/
theorem known (token : Token) (start stop : Nat) (h : left.length < rest.length) :
    left.length < ((⟨token, start, stop⟩ : Lexeme) :: rest).length :=
  cons _ h

/-- What is left after one part and another: `left.length < ts.length`. -/
theorem trans (h : rest.length < ts.length) (h' : left.length < rest.length) :
    left.length < ts.length :=
  Nat.lt_trans h' h

/-- What is left after one part and another that may be empty: `left.length < ts.length`. -/
theorem within (h : rest.length < ts.length) (h' : left.length ≤ rest.length) :
    left.length < ts.length :=
  Nat.lt_of_le_of_lt h' h

end After

namespace Within

variable {rest low high left : List Lexeme}

/-- What is left after a position in brackets:
`left.length ≤ ((⟨.openBracket, start, stop⟩ : Lexeme) :: rest).length`. -/
theorem point (start stop : Nat) (h : low.length < rest.length) (h' : left.length < low.length) :
    left.length ≤ ((⟨.openBracket, start, stop⟩ : Lexeme) :: rest).length :=
  Nat.le_succ_of_le (Nat.le_of_lt (Nat.lt_trans h' h))

/-- What is left after two positions in brackets:
`left.length ≤ ((⟨.openBracket, start, stop⟩ : Lexeme) :: rest).length`. -/
theorem range (start stop start' stop' : Nat)
    (h : ((⟨.colon, start', stop'⟩ : Lexeme) :: low).length < rest.length)
    (h' : high.length < low.length) (h'' : left.length < high.length) :
    left.length ≤ ((⟨.openBracket, start, stop⟩ : Lexeme) :: rest).length :=
  point start stop (Nat.lt_trans (Nat.lt_succ_self _) h) (Nat.lt_trans h'' h')

end Within

/-! ### Indices -/

/-- The operation of a position that a word names. -/
def indexName? (name : String) : Option IndexOp :=
  if name = "t" then some .current
  else if name = "begin" then some .first
  else if name = "end" then some .last
  else none

/-- One term of a position at the end of `code`: a name, or a whole number that may have a minus. -/
def indexTerm (code : IndexCode) (ts : List Lexeme) : Except CompileError (IndexCode × After ts) :=
  let term (negative : Bool) : (us : List Lexeme) → Except CompileError (IndexCode × After us)
    | [] => .error .indexEnd
    | u :: rest =>
        let after : After (u :: rest) := ⟨rest, After.tail u rest⟩
        match u.token with
        | .number x =>
            match wholeCount? x with
            | some n =>
                let size : Int64 := .ofNat (min n greatestIndex)
                .ok (code ++ [.constant (if negative then -size else size)], after)
            | none => .error (.indexToken u.token)
        | .word name =>
            if negative then .error (.indexToken u.token)
            else
              let lower := Text.asciiLower name
              match indexName? lower with
              | some o => .ok (code ++ [o], after)
              | none => .error (.indexName lower)
        | other => .error (.indexToken other)
  match ts with
  | ⟨.minus, start, stop⟩ :: rest => do
      let (code, ⟨after, h⟩) ← term true rest
      return (code, ⟨after, After.known .minus start stop h⟩)
  | ts => term false ts

/-- `indexTail code ts`: further terms of a position, each with its operation behind it. -/
def indexTail (code : IndexCode) (ts : List Lexeme) : Except CompileError (IndexCode × Within ts) :=
  match ts with
  | ⟨.plus, _, _⟩ :: rest => do
      let (code, ⟨rest, h⟩) ← indexTerm code rest
      let (code, ⟨rest, h'⟩) ← indexTail (code ++ [.add]) rest
      return (code, ⟨rest, by simp; omega⟩)
  | ⟨.minus, _, _⟩ :: rest => do
      let (code, ⟨rest, h⟩) ← indexTerm code rest
      let (code, ⟨rest, h'⟩) ← indexTail (code ++ [.sub]) rest
      return (code, ⟨rest, by simp; omega⟩)
  | ts => .ok (code, ⟨ts, Nat.le_refl _⟩)
  termination_by ts.length
  decreasing_by all_goals simp_wf; omega

/-- The code of a position: terms with plus and minus between them. -/
def indexCode (ts : List Lexeme) : Except CompileError (IndexCode × After ts) := do
  let (code, ⟨rest, h⟩) ← indexTerm [] ts
  let (code, ⟨rest, h'⟩) ← indexTail code rest
  return (code, ⟨rest, After.within h h'⟩)

/-- `indexSuffix? s ts`: the index in brackets that may follow a reference. -/
def indexSuffix? (s : Scope) (ts : List Lexeme) :
    Except CompileError (Option IndexSpec × Within ts) :=
  match ts with
  | ⟨.openBracket, start, stop⟩ :: rest => do
      let (low, ⟨rest, h⟩) ← indexCode rest
      match rest, h with
      | ⟨.colon, start', stop'⟩ :: rest, h => do
          let (high, ⟨rest, h'⟩) ← indexCode rest
          let ⟨rest, h''⟩ ← s.expectToken .closeBracket rest
          return (some (.range low high), ⟨rest, Within.range start stop start' stop' h h' h''⟩)
      | rest, h => do
          let ⟨rest, h'⟩ ← s.expectToken .closeBracket rest
          return (some (.point low), ⟨rest, Within.point start stop h h'⟩)
  | ts => .ok (none, ⟨ts, Nat.le_refl _⟩)

/-- `category s d ts`: the category at an index, or at the current position. -/
def category (s : Scope) (d : Draft) (ts : List Lexeme) :
    Except CompileError (Yield × Draft × Within ts) := do
  let (index, rest) ← indexSuffix? s ts
  match index.getD (.point [.current]) with
  | .point code => return (.value .text, d.load (.point code) .loadCategory, rest)
  | .range _ _ => throw .categoryRange

/-- `series s d reference ts`: a series at an index. Inside a call it is a stretch, the whole series
when it has no index; outside it is a value, the current one when it has no index. -/
def series (s : Scope) (d : Draft) (reference : Reference) (ts : List Lexeme) :
    Except CompileError (Yield × Draft × Within ts) := do
  let (index, rest) ← indexSuffix? s ts
  if s.inCall then
    return (.stretch, d.load (index.getD (.range [.first] [.last])) (.loadStretch reference), rest)
  else
    match index.getD (.point [.current]) with
    | .point code => return (.value .number, d.load (.point code) (.load reference), rest)
    | .range _ _ => throw .stretchOutsideCall

/-! ### Levels -/

mutual

/-- `chained s d level ts`: the operands of one level and the operators between them. -/
def chained (s : Scope) (d : Draft) (level : Chain) (ts : List Lexeme) :
    Except CompileError (Yield × Draft × After ts) := do
  let (left, d, ⟨rest, h⟩) ← match level with
    | .disjunction => chained s d .conjunction ts
    | .conjunction => complement s d ts
    | .sum => chained s d .product ts
    | .product => signed s d ts
  let (found, d, ⟨rest, h'⟩) ← chainTail s d level left rest
  return (found, d, ⟨rest, by omega⟩)
  termination_by (ts.length, level.rank)
  decreasing_by all_goals simp [Chain.rank]; try omega

/-- Further operators of a level with their operands, to the right of code that yields `left`. -/
def chainTail (s : Scope) (d : Draft) (level : Chain) (left : Yield) (ts : List Lexeme) :
    Except CompileError (Yield × Draft × Within ts) :=
  match ts with
  | [] => .ok (left, d, ⟨[], Nat.le_refl _⟩)
  | t :: rest =>
      match level.operator? t.token with
      | none => .ok (left, d, ⟨t :: rest, Nat.le_refl _⟩)
      | some op => do
          -- the operand to the left is converted before the next one is emitted behind it
          let d ← d.coerce op.place op.ty left
          let (right, d, ⟨rest, h⟩) ← match level with
            | .disjunction => chained s d .conjunction rest
            | .conjunction => complement s d rest
            | .sum => chained s d .product rest
            | .product => signed s d rest
          let d ← d.coerce op.place op.ty right
          let (found, d, ⟨rest, h'⟩) ← chainTail s (d.emit op.op) level (.value op.ty) rest
          return (found, d, ⟨rest, by simp; omega⟩)
  termination_by (ts.length, 0)
  decreasing_by all_goals simp only [Prod.lex_def]; simp; try omega

/-- `complement s d ts`: a comparison after any number of negations. -/
def complement (s : Scope) (d : Draft) (ts : List Lexeme) :
    Except CompileError (Yield × Draft × After ts) :=
  match ts with
  | [] => comparison s d []
  | t :: rest =>
      if t.token.isNot then do
        let (found, d, ⟨rest, h⟩) ← complement s d rest
        let d ← d.coerce .complement .boolean found
        return (.value .boolean, d.emit .complement, ⟨rest, After.cons t h⟩)
      else comparison s d (t :: rest)
  termination_by (ts.length, 6)
  decreasing_by all_goals simp only [Prod.lex_def]; simp; try omega

/-- `comparison s d ts`: a sum, or two compared. -/
def comparison (s : Scope) (d : Draft) (ts : List Lexeme) :
    Except CompileError (Yield × Draft × After ts) := do
  let (left, d, ⟨rest, h⟩) ← chained s d .sum ts
  match rest, h with
  | [], h => return (left, d, ⟨[], h⟩)
  | t :: rest, h =>
      match CompareOp.ofToken? t.token with
      | none => return (left, d, ⟨t :: rest, h⟩)
      | some op =>
          -- a text is compared with a text only, and without conversions
          if left = .value .text then do
            let (right, d, ⟨rest, h'⟩) ← chained s d .sum rest
            if right = .value .text then do
              let o ← textOp op
              return (.value .boolean, d.emit o, ⟨rest, by simp at h; omega⟩)
            else throw .textWithOther
          else do
            let d ← d.coerce .comparison .number left
            let (right, d, ⟨rest, h'⟩) ← chained s d .sum rest
            let d ← d.coerce .comparison .number right
            return (.value .boolean, d.emit (.compare op), ⟨rest, by simp at h; omega⟩)
  termination_by (ts.length, 5)
  decreasing_by all_goals simp only [Prod.lex_def]; simp [Chain.rank] at *; try omega

/-- `signed s d ts`: a power after any number of signs. -/
def signed (s : Scope) (d : Draft) (ts : List Lexeme) :
    Except CompileError (Yield × Draft × After ts) :=
  match ts with
  | ⟨.minus, _, _⟩ :: rest => do
      let (found, d, ⟨rest, h⟩) ← signed s d rest
      let d ← d.coerce .negation .number found
      return (.value .number, d.emit .negate, ⟨rest, by simp; omega⟩)
  | ⟨.plus, _, _⟩ :: rest => do
      let (found, d, ⟨rest, h⟩) ← signed s d rest
      let d ← d.coerce .unaryPlus .number found
      return (.value .number, d, ⟨rest, by simp; omega⟩)
  | ts => power s d ts
  termination_by (ts.length, 2)
  decreasing_by all_goals simp only [Prod.lex_def]; simp; try omega

/-- `power s d ts`: a primary, or one to the power of what follows, which may have signs and powers
again. -/
def power (s : Scope) (d : Draft) (ts : List Lexeme) :
    Except CompileError (Yield × Draft × After ts) := do
  let (base, d, ⟨rest, h⟩) ← primary s d ts
  match rest, h with
  | ⟨.caret, _, _⟩ :: rest, h => do
      let d ← d.coerce .power .number base
      let (exponent, d, ⟨rest, h'⟩) ← signed s d rest
      let d ← d.coerce .power .number exponent
      return (.value .number, d.emit (.arith .pow), ⟨rest, by simp at h; omega⟩)
  | rest, h => return (base, d, ⟨rest, h⟩)
  termination_by (ts.length, 1)
  decreasing_by all_goals simp only [Prod.lex_def]; simp at *; try omega

/-- `primary s d ts`: a number, text, a formula in parentheses, or what a name begins. -/
def primary (s : Scope) (d : Draft) (ts : List Lexeme) :
    Except CompileError (Yield × Draft × After ts) :=
  match ts with
  | [] => .error (.unexpectedEnd s.size)
  | t :: rest =>
      match t.token with
      | .number x => .ok (.value .number, d.emit (.pushNumber x), ⟨rest, by simp⟩)
      | .text content => .ok (.value .text, d.text content, ⟨rest, by simp⟩)
      | .openParen => do
          let (found, d, ⟨rest, h⟩) ← chained s d .disjunction rest
          let ⟨rest, h'⟩ ← s.expectToken .closeParen rest
          return (found, d, ⟨rest, by simp; omega⟩)
      | .word name => do
          let (found, d, ⟨rest, h⟩) ← named s d name rest
          return (found, d, ⟨rest, by simp; omega⟩)
      | other => .error (.unexpectedToken t.start other)
  termination_by (ts.length, 0)
  decreasing_by all_goals simp only [Prod.lex_def]; simp at *; try omega

/-- What the name `raw` begins: a conditional, a constant, the position, the category, a series or
a call. -/
def named (s : Scope) (d : Draft) (raw : String) (ts : List Lexeme) :
    Except CompileError (Yield × Draft × Within ts) :=
  let name := Text.asciiLower raw
  if name = "if" then do
    let (found, d, ⟨rest, h⟩) ← conditional s d ts
    return (found, d, ⟨rest, by omega⟩)
  else if name = "true" then .ok (.value .boolean, d.emit (.pushTruth true), ⟨ts, Nat.le_refl _⟩)
  else if name = "false" then .ok (.value .boolean, d.emit (.pushTruth false), ⟨ts, Nat.le_refl _⟩)
  else if name = "t" then .ok (.value .number, d.emit .loadPosition, ⟨ts, Nat.le_refl _⟩)
  else if name = "category" then category s d ts
  else
    match Reference.ofName? name with
    | some reference => series s d reference ts
    | none =>
        if opensParen ts then
          match Fold.ofName? name, PairFold.ofName? name with
          | some f, _ => do
              let (d, ⟨rest, h⟩) ← argument s d .openParen ts
              let ⟨rest, h'⟩ ← s.expectToken .closeParen rest
              return (.value .number, d.emit (.fold f), ⟨rest, by omega⟩)
          | none, some f => do
              let (d, ⟨rest, h⟩) ← argument s d .openParen ts
              let (d, ⟨rest, h'⟩) ← argument s d .comma rest
              let ⟨rest, h''⟩ ← s.expectToken .closeParen rest
              return (.value .number, d.emit (.pairFold f), ⟨rest, by omega⟩)
          | none, none => .error (.unknownFunction raw)
        else .error (.unknownIdentifier raw)
  termination_by (ts.length, 11)
  decreasing_by all_goals simp only [Prod.lex_def]; simp at *; try omega

/-- `argument s d opening ts`: a function argument after the token that opens or separates
arguments. -/
def argument (s : Scope) (d : Draft) (opening : Token) (ts : List Lexeme) :
    Except CompileError (Draft × After ts) := do
  let ⟨rest, h⟩ ← s.expectToken opening ts
  let (found, d, ⟨rest, h'⟩) ← chained { s with inCall := true } d .disjunction rest
  if found = .stretch then return (d, ⟨rest, After.trans h h'⟩) else throw (.argument found)
  termination_by (ts.length, 10)
  decreasing_by all_goals simp only [Prod.lex_def]; omega

/-- A conditional after its `if`. The jumps stand at `thenAt` and `elseAt`. -/
def conditional (s : Scope) (d : Draft) (ts : List Lexeme) :
    Except CompileError (Yield × Draft × After ts) := do
  let (test, d, ⟨rest, h⟩) ← chained s d .disjunction ts
  let d ← d.coerce .condition .boolean test
  let ⟨rest, h'⟩ ← s.expectKeyword "then" rest
  -- both jumps are emitted without their targets
  let thenAt := d.ops.length
  let (yes, d, ⟨rest, h''⟩) ← chained s (d.emit (.branch 0)) .disjunction rest
  let ⟨rest, h3⟩ ← s.expectKeyword "else" rest
  let elseAt := d.ops.length
  let (no, d, ⟨rest, h4⟩) ← chained s (d.emit (.jump 0)) .disjunction rest
  -- an insertion moves the second jump, so its place is told anew
  let (found, elseAt, d) ← d.join elseAt yes no
  let stop := d.ops.length
  return (found, (d.patch thenAt (.branch (elseAt + 1))).patch elseAt (.jump stop),
    ⟨rest, by omega⟩)
  termination_by (ts.length, 10)
  decreasing_by all_goals simp only [Prod.lex_def]; simp [Chain.rank] at *; try omega

end

end Compiler

/-! ### Formulas -/

/-- The program of a formula's text. -/
def compile (source : String) : Except CompileError Program := do
  let ts ← tokenize source
  let (found, d, ⟨rest, _⟩) ← Compiler.chained ⟨source.utf8ByteSize, false⟩ .empty .disjunction ts
  match rest with
  | [] => do
      let d ← d.finish found
      return d.program source
  | t :: _ => throw (.unexpectedToken t.start t.token)

end PanelQuery.Formula
