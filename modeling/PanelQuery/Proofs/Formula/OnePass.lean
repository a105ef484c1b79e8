import PanelQuery.Proofs.Formula.Parsing
import PanelQuery.Proofs.Formula.Relocation

/-! # The one pass emits the code of the tree

Each function of the compiler reads what the function of the grammar with its name reads, fails as
it fails, and leaves the draft with the code of the operand at its end. So the program that the
compiler ends with, without ever having the tree, is the program of the tree.

* **`Operand.code`, `Operand.answer`** — the code of an operand, and what the one pass answers for
  the operand `x`: `x.yields` and `d.add x.code`;
* **`Mirrors`** — `level.compile s d ts = (level.parse s ts).map (Operand.answer d)`, from every
  settled draft;
* **`conditional_mirrors`** — the replaced targets and the inserted conversion of a conditional end
  in `Code.choose`;
* **`Level.compile_mirrors`** — all levels, by induction on the number of lexemes, and for each
  number from the tightest level to the loosest;
* **`compile_eq`** — `compile source = (parse source).map (Program.ofExpr source)`. -/

namespace PanelQuery.Formula

/-! ## (1) Answers told again -/

/-- `c >>= k'` answers as `p >>= k`, told by `g`, when `c` answers as `p`, told by `f`, and so does
what comes after. -/
theorem bind_eq_map {ε α α' β β' : Type} {f : α → α'} {g : β → β'} {p : Except ε α}
    {c : Except ε α'} {k : α → Except ε β} {k' : α' → Except ε β'} (h : c = p.map f)
    (hk : ∀ x, k' (f x) = (k x).map g) : c >>= k' = (p >>= k).map g := by
  subst h
  cases p with
  | error e => rfl
  | ok x => exact hk x

/-- `p >>= k' = (p >>= k).map g`: the same, when both begin with the same computation. -/
theorem bind_eq_map_bind {ε α β β' : Type} {g : β → β'} (p : Except ε α) {k : α → Except ε β}
    {k' : α → Except ε β'} (hk : ∀ x, k' x = (k x).map g) : p >>= k' = (p >>= k).map g :=
  bind_eq_map (f := id) (by cases p <;> rfl) hk

/-! ## (2) Operands -/

/-- The code of an operand. -/
def Operand.code : Operand → Code
  | value _ e => e.emit
  | stretch a => .stretch a

/-- The code of an operand can be moved: `(x : Operand) → x.code.Relocatable`. -/
theorem Operand.code_relocatable : (x : Operand) → x.code.Relocatable
  | value _ e => e.emit_relocatable
  | stretch a => .stretch a

/-- What the one pass answers for an operand, from the draft `d` on. -/
def Operand.answer {ρ : Type} (d : Draft) (r : Operand × ρ) : Yield × Draft × ρ :=
  (r.1.yields, d.add r.1.code, r.2)

/-- The conversion of emitted code is that of the operand:
`(d.add x.code).coerce place τ x.yields = (x.coerce place τ).map fun e => d.add e.emit`. -/
theorem Operand.coerce_add (x : Operand) (d : Draft) (place : Place) (τ : Ty) :
    (d.add x.code).coerce place τ x.yields =
      (x.coerce place τ).map fun e => d.add e.emit := by
  cases x with
  | stretch a => cases τ <;> rfl
  | value σ e =>
    cases σ <;> cases τ <;>
      simp [Draft.coerce, coerce, code, yields, Expr.emit, Except.map]

/-- `(pure (x.yields, d', rest) : Except ε _) = Except.map (answer d) (pure (x, rest))`: an operand
whose code has been added is answered. -/
theorem Operand.pure_answer {ε ρ : Type} {x : Operand} {d d' : Draft} {rest : ρ}
    (h : d' = d.add x.code) :
    (pure (x.yields, d', rest) : Except ε _) = Except.map (answer d) (pure (x, rest)) := by
  subst h
  rfl

/-- `d.add (op.apply a b).emit = ((d.add a.emit).add b.emit).emit op.op`: the operation of an
operator that groups to the left, behind the code of its operands. -/
theorem LeftOp.add_apply (op : LeftOp) (a b : Expr op.ty) (d : Draft) :
    d.add (op.apply a b).emit = ((d.add a.emit).add b.emit).emit op.op := by
  cases op <;> (simp only [apply, Expr.emit, Draft.add_append, Draft.add_op]; rfl)

/-! ## (3) Indices -/

/-- `(indexName? name).map (fun o => [o]) = (Bound.ofName? name).map Bound.code`: the operation of a
name in an index. -/
theorem Compiler.indexName?_eq (name : String) :
    (indexName? name).map (fun o => [o]) = (Bound.ofName? name).map Bound.code := by
  unfold indexName? Bound.ofName?
  split_ifs <;> rfl

/-- `indexTerm code ts = (boundTerm ts).map fun r => (code ++ r.1.code, r.2)`: one term of a
position. -/
theorem Compiler.indexTerm_eq (code : IndexCode) (ts : List Lexeme) :
    indexTerm code ts = (boundTerm ts).map fun r => (code ++ r.1.code, r.2) := by
  unfold indexTerm boundTerm
  dsimp only
  cases ts with
  | nil => rfl
  | cons t rest =>
    obtain ⟨token, start, stop⟩ := t
    cases token with
    | minus =>
      cases rest with
      | nil => rfl
      | cons u rest =>
        obtain ⟨token, start', stop'⟩ := u
        cases token with
        | number x =>
          dsimp only
          cases wholeCount? x <;> rfl
        | _ => rfl
    | number x =>
      dsimp only
      cases wholeCount? x <;> rfl
    | word name =>
      have hname := indexName?_eq (Text.asciiLower name)
      dsimp only
      cases hb : Bound.ofName? (Text.asciiLower name) with
      | none =>
        rw [hb, Option.map_none, Option.map_eq_none_iff] at hname
        simp [hname, Except.map]
      | some b =>
        rw [hb, Option.map_some, Option.map_eq_some_iff] at hname
        obtain ⟨o, ho, hcode⟩ := hname
        simp [ho, ← hcode, Except.map]
    | _ => rfl

/-- `indexTail left.code ts = (boundTail left ts).map fun r => (r.1.code, r.2)`: further terms of a
position. -/
theorem Compiler.indexTail_eq (left : Bound) (ts : List Lexeme) :
    indexTail left.code ts = (boundTail left ts).map fun r => (r.1.code, r.2) := by
  fun_induction boundTail left ts with
  | case1 left start stop rest ih =>
    rw [indexTail]
    refine bind_eq_map (indexTerm_eq left.code rest) ?_
    rintro ⟨b, after, h⟩
    exact bind_eq_map (ih b after h) fun _ => rfl
  | case2 left start stop rest ih =>
    rw [indexTail]
    refine bind_eq_map (indexTerm_eq left.code rest) ?_
    rintro ⟨b, after, h⟩
    exact bind_eq_map (ih b after h) fun _ => rfl
  | case3 left ts hplus hminus =>
    rw [indexTail]
    · rfl
    · exact hplus
    · exact hminus

/-- `indexCode ts = (bound ts).map fun r => (r.1.code, r.2)`: a position. -/
theorem Compiler.indexCode_eq (ts : List Lexeme) :
    indexCode ts = (bound ts).map fun r => (r.1.code, r.2) := by
  refine bind_eq_map (indexTerm_eq [] ts) ?_
  rintro ⟨b, after, h⟩
  exact bind_eq_map (indexTail_eq b after) fun _ => rfl

/-- `indexSuffix? s ts = (s.indexSuffix? ts).map fun r => (r.1.map Index.spec, r.2)`: the index in
brackets. -/
theorem Compiler.indexSuffix?_eq (s : Scope) (ts : List Lexeme) :
    indexSuffix? s ts = (s.indexSuffix? ts).map fun r => (r.1.map Index.spec, r.2) := by
  unfold indexSuffix? Scope.indexSuffix?
  cases ts with
  | nil => rfl
  | cons t rest =>
    obtain ⟨token, start, stop⟩ := t
    cases token with
    | openBracket =>
      refine bind_eq_map (indexCode_eq rest) ?_
      rintro ⟨low, after, h⟩
      cases after with
      | nil => exact bind_eq_map_bind _ fun _ => rfl
      | cons u after =>
        obtain ⟨token, start', stop'⟩ := u
        cases token with
        | colon =>
          refine bind_eq_map (indexCode_eq after) ?_
          rintro ⟨high, last, h'⟩
          exact bind_eq_map_bind _ fun _ => rfl
        | _ => exact bind_eq_map_bind _ fun _ => rfl
    | _ => rfl

/-- `category s d ts = (s.categoryOperand ts).map (Operand.answer d)`: the category at an index. -/
theorem Compiler.category_eq (s : Scope) (d : Draft) (ts : List Lexeme) :
    category s d ts = (s.categoryOperand ts).map (Operand.answer d) := by
  refine bind_eq_map (indexSuffix?_eq s ts) ?_
  rintro ⟨index, rest⟩
  cases index with
  | none => rfl
  | some index => cases index <;> rfl

/-- `series s d reference ts = (s.referenceOperand reference ts).map (Operand.answer d)`: a series
at an index. -/
theorem Compiler.series_eq (s : Scope) (d : Draft) (reference : Reference) (ts : List Lexeme) :
    series s d reference ts = (s.referenceOperand reference ts).map (Operand.answer d) := by
  refine bind_eq_map (indexSuffix?_eq s ts) ?_
  rintro ⟨index, rest⟩
  dsimp only
  split
  · cases index <;> rfl
  · cases index with
    | none => rfl
    | some index => cases index <;> rfl

/-! ## (4) Levels -/

/-- `Level.compile s d`: the one pass over a level. -/
def Level.compile (s : Scope) (d : Draft) :
    Level → (ts : List Lexeme) → Except CompileError (Yield × Draft × After ts)
  | .chain level, ts => Compiler.chained s d level ts
  | .complement, ts => Compiler.complement s d ts
  | .comparison, ts => Compiler.comparison s d ts
  | .signed, ts => Compiler.signed s d ts
  | .power, ts => Compiler.power s d ts
  | .primary, ts => Compiler.primary s d ts

/-- `Mirrors s level ts`: from every settled draft, the one pass over a level answers as its parser
does. -/
def Mirrors (s : Scope) (level : Level) (ts : List Lexeme) : Prop :=
  ∀ d : Draft, d.Settled → level.compile s d ts = (level.parse s ts).map (Operand.answer d)

/-- The operands of a level and the operators between them. -/
theorem Compiler.chained_eq (s : Scope) (d : Draft) (level : Chain) (ts : List Lexeme) :
    chained s d level ts = (do
      let (left, d, ⟨rest, h⟩) ← (Level.operand level).compile s d ts
      let (found, d, ⟨rest, h'⟩) ← chainTail s d level left rest
      return (found, d, ⟨rest, Nat.lt_of_le_of_lt h' h⟩)) := by
  rw [chained.eq_def]
  cases level <;> rfl

/-- One more operator of a level. -/
theorem Compiler.chainTail_cons (s : Scope) (d : Draft) (level : Chain) (left : Yield) (t : Lexeme)
    (rest : List Lexeme) :
    chainTail s d level left (t :: rest) =
      match level.operator? t.token with
      | none => .ok (left, d, ⟨t :: rest, Nat.le_refl _⟩)
      | some op => do
          let d ← d.coerce op.place op.ty left
          let (right, d, ⟨rest, h⟩) ← (Level.operand level).compile s d rest
          let d ← d.coerce op.place op.ty right
          let (found, d, ⟨rest, h'⟩) ← chainTail s (d.emit op.op) level (.value op.ty) rest
          return (found, d,
            ⟨rest, Nat.le_trans h' (Nat.le_trans (Nat.le_of_lt h) (Nat.le_succ _))⟩) := by
  rw [chainTail]
  cases level <;> rfl

section Mirrors

variable {s : Scope} {ts : List Lexeme}

/-- Further operators of a level: for all `(ts : List Lexeme) (left : Operand) (d : Draft)`,
`ts.length ≤ n` and `d.Settled` give `Compiler.chainTail s (d.add left.code) level left.yields ts`
is `(chainTail s level left ts).map (Operand.answer d)`. -/
theorem chainTail_mirrors {level : Chain} {n : Nat}
    (ih : ∀ ts, ts.length < n → Mirrors s (Level.operand level) ts) :
    ∀ (ts : List Lexeme) (left : Operand) (d : Draft), ts.length ≤ n → d.Settled →
      Compiler.chainTail s (d.add left.code) level left.yields ts =
        (chainTail s level left ts).map (Operand.answer d)
  | [], left, d, _, _ => by
    rw [Compiler.chainTail, chainTail]
    rfl
  | t :: rest, left, d, hn, hd => by
    rw [Compiler.chainTail_cons, chainTail_cons]
    have hn : rest.length < n := hn
    cases hop : level.operator? t.token with
    | none => rfl
    | some op =>
      refine bind_eq_map (left.coerce_add d op.place op.ty) fun a => ?_
      refine bind_eq_map (ih rest hn _ (hd.add a.emit_relocatable)) ?_
      rintro ⟨right, after, h⟩
      refine bind_eq_map (right.coerce_add _ op.place op.ty) fun b => ?_
      -- what has been emitted is the operand to the left of the next operator
      rw [← op.add_apply]
      exact bind_eq_map (chainTail_mirrors ih after (.value op.ty (op.apply a b)) d (by omega) hd)
        fun _ => rfl
  termination_by ts => ts.length

/-- The operands of a level and the operators between them: `Mirrors s (.chain level) ts`. -/
theorem chained_mirrors {level : Chain} (hoperand : Mirrors s (Level.operand level) ts)
    (ih : ∀ us, us.length < ts.length → Mirrors s (Level.operand level) us) :
    Mirrors s (.chain level) ts := by
  intro d hd
  rw [Level.compile, Level.parse, Compiler.chained_eq, chained_eq]
  refine bind_eq_map (hoperand d hd) ?_
  rintro ⟨left, rest, h⟩
  exact bind_eq_map (chainTail_mirrors ih rest left d (Nat.le_of_lt h) hd) fun _ => rfl

/-- Negations: `Mirrors s .complement ts`. -/
theorem complement_mirrors (hcomparison : Mirrors s .comparison ts)
    (ih : ∀ us, us.length < ts.length → Mirrors s .complement us) : Mirrors s .complement ts := by
  intro d hd
  rw [Level.compile, Level.parse]
  cases ts with
  | nil =>
    rw [Compiler.complement, complement]
    exact hcomparison d hd
  | cons t rest =>
    rw [Compiler.complement, complement]
    split
    · refine bind_eq_map (ih rest (Nat.lt_succ_self _) d hd) ?_
      rintro ⟨x, after, h⟩
      exact bind_eq_map (x.coerce_add d .complement .boolean) fun a =>
        Operand.pure_answer (x := .value .boolean (.complement a)) (d.emit_add a.emit _)
    · exact hcomparison d hd

/-- A sum, or two compared: `Mirrors s .comparison ts`. -/
theorem comparison_mirrors (hsum : Mirrors s (.chain .sum) ts)
    (ih : ∀ us, us.length < ts.length → Mirrors s (.chain .sum) us) :
    Mirrors s .comparison ts := by
  intro d hd
  rw [Level.compile, Level.parse, Compiler.comparison, comparison]
  refine bind_eq_map (hsum d hd) ?_
  rintro ⟨left, rest, h⟩
  cases rest with
  | nil => rfl
  | cons t rest =>
    dsimp only [Operand.answer]
    cases hop : CompareOp.ofToken? t.token with
    | none => rfl
    | some op =>
      cases left with
      | stretch a => rfl
      | value τ a =>
        cases τ with
        | number | boolean =>
          refine bind_eq_map (Operand.coerce_add _ d .comparison .number) fun a => ?_
          refine bind_eq_map (ih rest (Nat.lt_of_succ_lt h) _ (hd.add a.emit_relocatable)) ?_
          rintro ⟨right, last, h'⟩
          exact bind_eq_map (right.coerce_add _ .comparison .number) fun b =>
            Operand.pure_answer (x := .value .boolean (.compare op a b)) <| by
              simp [Operand.code, Expr.emit]
        | text =>
          refine bind_eq_map (ih rest (Nat.lt_of_succ_lt h) _ (hd.add a.emit_relocatable)) ?_
          rintro ⟨right, last, h'⟩
          cases right with
          | stretch b => rfl
          | value σ b =>
            cases σ with
            | number | boolean => rfl
            | text =>
              cases op with
              | equal | unequal =>
                exact Operand.pure_answer (x := .value .boolean (.sameText _ a b))
                  (by simp [Operand.answer, Operand.code, Expr.emit])
              | _ => rfl

/-- Signs: `Mirrors s .signed ts`. -/
theorem signed_mirrors (hpower : Mirrors s .power ts)
    (ih : ∀ us, us.length < ts.length → Mirrors s .signed us) : Mirrors s .signed ts := by
  intro d hd
  rw [Level.compile, Level.parse]
  cases ts with
  | nil => simpa only [Compiler.signed, signed, Level.compile, Level.parse] using hpower d hd
  | cons t rest =>
    obtain ⟨token, start, stop⟩ := t
    cases token with
    | minus =>
      rw [Compiler.signed, signed]
      refine bind_eq_map (ih rest (Nat.lt_succ_self _) d hd) ?_
      rintro ⟨x, after, h⟩
      exact bind_eq_map (x.coerce_add d .negation .number) fun a =>
        Operand.pure_answer (x := .value .number (.negate a)) (d.emit_add a.emit _)
    | plus =>
      rw [Compiler.signed, signed]
      refine bind_eq_map (ih rest (Nat.lt_succ_self _) d hd) ?_
      rintro ⟨x, after, h⟩
      exact bind_eq_map (x.coerce_add d .unaryPlus .number) fun _ => rfl
    | _ => simpa only [Compiler.signed, signed, Level.compile, Level.parse] using hpower d hd

/-- Powers: `Mirrors s .power ts`. -/
theorem power_mirrors (hprimary : Mirrors s .primary ts)
    (ih : ∀ us, us.length < ts.length → Mirrors s .signed us) : Mirrors s .power ts := by
  intro d hd
  rw [Level.compile, Level.parse, Compiler.power, power]
  refine bind_eq_map (hprimary d hd) ?_
  rintro ⟨base, rest, h⟩
  cases rest with
  | nil => rfl
  | cons t rest =>
    -- an exponent may have signs, and powers to the right of it
    obtain ⟨token, start, stop⟩ := t
    cases token with
    | caret =>
      refine bind_eq_map (base.coerce_add d .power .number) fun a => ?_
      refine bind_eq_map (ih rest (Nat.lt_of_succ_lt h) _ (hd.add a.emit_relocatable)) ?_
      rintro ⟨exponent, last, h'⟩
      exact bind_eq_map (exponent.coerce_add _ .power .number) fun b =>
        Operand.pure_answer (x := .value .number (.arith .pow a b))
          (LeftOp.add_apply (.arith .pow) a b d).symm
    | _ => rfl

/-- A function argument: `Compiler.argument s d opening ts` is
`(argument s opening ts).map fun r => (d.add (.stretch r.1), r.2)`. -/
theorem argument_mirrors {opening : Token} {d : Draft} (hd : d.Settled)
    (ih : ∀ us, us.length < ts.length → Mirrors { s with inCall := true } (.chain .disjunction) us) :
    Compiler.argument s d opening ts =
      (argument s opening ts).map fun r => (d.add (.stretch r.1), r.2) := by
  rw [Compiler.argument, argument]
  refine bind_eq_map_bind _ ?_
  rintro ⟨rest, h⟩
  refine bind_eq_map (ih rest h d hd) ?_
  rintro ⟨x, last, h'⟩
  cases x <;> rfl

/-- **The end of a conditional**, whose parts have been emitted: the draft gets the code of the
operand that its branches are joined to. -/
theorem join_mirrors {ρ : Type} {d d₁ d₂ d₃ : Draft} {condition : Expr .boolean}
    {yes no : Operand} (hsettled : d₂.Settled) (h₁ : d.add condition.emit = d₁)
    (h₂ : (d₁.emit (.branch 0)).add yes.code = d₂) (h₃ : (d₂.emit (.jump 0)).add no.code = d₃)
    (rest : ρ) :
    (do
      let (found, elseAt, d') ← d₃.join d₂.ops.length yes.yields no.yields
      return (found, (d'.patch d₁.ops.length (.branch (elseAt + 1))).patch elseAt
        (.jump d'.ops.length), rest)) =
      Except.map (Operand.answer d) (do
        let e ← Operand.branches condition yes no
        return (e, rest)) := by
  cases yes with
  | stretch a => cases no <;> rfl
  | value τ a =>
    cases no with
    | stretch b => cases τ <;> rfl
    | value σ b =>
      cases τ <;> cases σ
      case number.number | boolean.boolean | text.text =>
        exact Operand.pure_answer (x := .value _ (.choose condition a b))
          (Draft.patch_choose h₁ h₂ h₃)
      case boolean.number =>
        -- the insertion is as if the conversion had been emitted before the jump
        have hyes : (d₁.emit (.branch 0)).add (a.toNumber).emit = d₂.emit .toNumber := by
          rw [← h₂, Draft.emit_add]
          rfl
        have hinsert := Draft.insert_eq_add (o := .toNumber) hsettled b.emit_relocatable rfl
        have hchoose := Draft.patch_choose h₁ hyes hinsert.symm
        rw [Draft.length_emit] at hchoose
        subst h₃
        exact Operand.pure_answer (x := .value .number (.choose condition a.toNumber b)) hchoose
      case number.boolean =>
        have hno : (d₂.emit (.jump 0)).add (b.toNumber).emit = d₃.emit .toNumber := by
          rw [← h₃, Draft.emit_add]
          rfl
        exact Operand.pure_answer (x := .value .number (.choose condition a b.toNumber))
          (Draft.patch_choose h₁ h₂ hno)
      all_goals rfl

/-- **A conditional after its `if`.** -/
theorem conditional_mirrors {d : Draft} (hd : d.Settled)
    (ih : ∀ us, us.length ≤ ts.length → Mirrors s (.chain .disjunction) us) :
    Compiler.conditional s d ts = (conditional s ts).map (Operand.answer d) := by
  rw [Compiler.conditional, conditional]
  refine bind_eq_map (ih ts (Nat.le_refl _) d hd) ?_
  rintro ⟨test, rest, h⟩
  refine bind_eq_map (test.coerce_add d .condition .boolean) fun condition => ?_
  refine bind_eq_map_bind _ ?_
  rintro ⟨rest', h'⟩
  -- a jump that has no target yet points to the beginning
  have hthen : ((d.add condition.emit).emit (.branch 0)).Settled :=
    (hd.add condition.emit_relocatable).emit fun _ h => (Option.some.inj h).symm
  refine bind_eq_map (ih rest' (by omega) _ hthen) ?_
  rintro ⟨yes, rest₂, h₂⟩
  refine bind_eq_map_bind _ ?_
  rintro ⟨rest₃, h₃⟩
  have helse := hthen.add yes.code_relocatable
  refine bind_eq_map (ih rest₃ (by omega) _ (helse.emit fun _ h => (Option.some.inj h).symm)) ?_
  rintro ⟨no, rest₄, h₄⟩
  exact join_mirrors helse rfl rfl rfl _

/-- `Compiler.named s d raw ts = (named s raw ts).map (Operand.answer d)`: what a name begins. -/
theorem named_mirrors {raw : String} {d : Draft} (hd : d.Settled)
    (ih : ∀ (s : Scope) (us : List Lexeme), us.length ≤ ts.length →
      Mirrors s (.chain .disjunction) us) :
    Compiler.named s d raw ts = (named s raw ts).map (Operand.answer d) := by
  have hargument : ∀ us : List Lexeme, us.length < ts.length →
      Mirrors { s with inCall := true } (.chain .disjunction) us :=
    fun us hus => ih _ us (Nat.le_of_lt hus)
  rw [Compiler.named, named]
  split
  · exact bind_eq_map (conditional_mirrors hd (ih s)) fun _ => rfl
  split
  · rfl
  split
  · rfl
  split
  · rfl
  split
  · exact Compiler.category_eq s d ts
  cases Reference.ofName? (Text.asciiLower raw) with
  | some reference => exact Compiler.series_eq s d reference ts
  | none =>
    dsimp only
    split
    · cases Fold.ofName? (Text.asciiLower raw) with
      | some f =>
        refine bind_eq_map (argument_mirrors hd hargument) ?_
        rintro ⟨a, rest, h⟩
        exact bind_eq_map_bind _ fun _ =>
          Operand.pure_answer (x := .value .number (.fold f a)) (d.emit_add (.stretch a) _)
      | none =>
        cases PairFold.ofName? (Text.asciiLower raw) with
        | some f =>
          refine bind_eq_map (argument_mirrors hd hargument) ?_
          rintro ⟨a, rest, h⟩
          refine bind_eq_map (argument_mirrors (hd.add (.stretch a))
            fun us hus => hargument us (Nat.lt_trans hus h)) ?_
          rintro ⟨b, rest', h'⟩
          refine bind_eq_map_bind _ fun _ => ?_
          exact Operand.pure_answer (x := .value .number (.pairFold f a b))
            (by simp [Operand.code, Expr.emit])
        | none => rfl
    · rfl

/-- Primaries: `Mirrors s .primary ts`. -/
theorem primary_mirrors (ih : ∀ (s : Scope) (us : List Lexeme), us.length < ts.length →
    Mirrors s (.chain .disjunction) us) : Mirrors s .primary ts := by
  intro d hd
  rw [Level.compile, Level.parse, Compiler.primary.eq_def, primary.eq_def]
  cases ts with
  | nil => rfl
  | cons t rest =>
    obtain ⟨token, start, stop⟩ := t
    cases token with
    | openParen =>
      refine bind_eq_map (ih s rest (Nat.lt_succ_self _) d hd) ?_
      rintro ⟨x, after, h⟩
      exact bind_eq_map_bind _ fun _ => rfl
    | word name =>
      exact bind_eq_map (named_mirrors hd fun s us hus => ih s us (Nat.lt_succ_of_le hus))
        fun _ => rfl
    | _ => rfl

end Mirrors

/-- **The one pass emits the code of what is parsed**: `Mirrors s level ts`. -/
theorem Level.compile_mirrors (s : Scope) (level : Level) (ts : List Lexeme) :
    Mirrors s level ts := by
  induction hn : ts.length using Nat.strongRecOn generalizing s level ts with
  | ind n ih =>
    have hshorter : ∀ (s : Scope) (level : Level) (us : List Lexeme), us.length < ts.length →
        Mirrors s level us := fun s level us hus => ih us.length (hn ▸ hus) s level us rfl
    -- the levels from the tightest to the loosest
    have hprimary : Mirrors s .primary ts := primary_mirrors fun s us => hshorter s _ us
    have hpower : Mirrors s .power ts := power_mirrors hprimary (hshorter s _)
    have hsigned : Mirrors s .signed ts := signed_mirrors hpower (hshorter s _)
    have hproduct : Mirrors s (.chain .product) ts := chained_mirrors hsigned (hshorter s _)
    have hsum : Mirrors s (.chain .sum) ts := chained_mirrors hproduct (hshorter s _)
    have hcomparison : Mirrors s .comparison ts := comparison_mirrors hsum (hshorter s _)
    have hcomplement : Mirrors s .complement ts := complement_mirrors hcomparison (hshorter s _)
    have hconjunction : Mirrors s (.chain .conjunction) ts :=
      chained_mirrors hcomplement (hshorter s _)
    cases level with
    | chain level =>
      cases level with
      | disjunction => exact chained_mirrors hconjunction (hshorter s _)
      | conjunction => exact hconjunction
      | sum => exact hsum
      | product => exact hproduct
    | complement => exact hcomplement
    | comparison => exact hcomparison
    | signed => exact hsigned
    | power => exact hpower
    | primary => exact hprimary

/-! ## (5) Formulas -/

/-- **A text is compiled in one pass to the program of its tree**, and fails to compile as it fails
to be parsed: `compile source = (parse source).map (Program.ofExpr source)`. -/
theorem compile_eq (source : String) :
    compile source = (parse source).map (Program.ofExpr source) := by
  refine bind_eq_map_bind _ fun ts => ?_
  refine bind_eq_map (Level.compile_mirrors _ (.chain .disjunction) ts _ Draft.settled_empty) ?_
  rintro ⟨x, rest, h⟩
  cases rest with
  | cons t rest => rfl
  | nil =>
    cases x with
    | stretch a => rfl
    | value τ e =>
      cases τ with
      | number | text => rfl
      | boolean =>
        exact congrArg (fun d => Except.ok (d.program source))
          (Draft.empty.emit_add e.emit .toNumber)

end PanelQuery.Formula
