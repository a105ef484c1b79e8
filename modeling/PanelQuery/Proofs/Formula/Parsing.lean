import PanelQuery.Proofs.Formula.Derivation

/-! # What is parsed is derived

Each function of the parser answers with a phrase of its level, or with an error. Beside the phrase
itself it is kept in mind that the phrase has taken all that it can: what follows is left by it. For
an operand that ends in a branch this is why no operator follows that the branch should have had.

* **`Leaves`, `Stops`** — the tokens that a phrase leaves to what follows it;
* **`Sound`** — answers of a level are phrases that stop where the rest begins;
* **`Level.parse_sound`** — all levels are sound, by induction on the number of lexemes, and for
  each number from the tightest level to the loosest. -/

namespace PanelQuery.Formula

/-! ## (1) Conversions, tokens and indices -/

/-- What an operand is converted to: `Meets (x.coerce place τ) (x.ReadsAs τ) (fun _ => True)`. -/
theorem Operand.coerce_meets (x : Operand) (place : Place) (τ : Ty) :
    Meets (x.coerce place τ) (x.ReadsAs τ) (fun _ => True) := by
  cases h : x.coerce place τ with
  | error err => trivial
  | ok e => exact coerce_eq_ok_iff.1 h

/-- What branches are joined to:
`Meets (Operand.branches condition x y) (Joins condition x y) (fun _ => True)`. -/
theorem Operand.branches_meets (condition : Expr .boolean) (x y : Operand) :
    Meets (Operand.branches condition x y) (Joins condition x y) (fun _ => True) := by
  cases h : Operand.branches condition x y with
  | error err => trivial
  | ok z => exact branches_eq_ok_iff.1 h

/-- The lexemes after one that is expected: `Meets (expect accepts fault ts) (fun r => ∃ t, ts = t
:: r.1 ∧ accepts t.token = true) (fun _ => True)`. -/
theorem expect_meets (accepts : Token → Bool) (fault : CompileError) (ts : List Lexeme) :
    Meets (expect accepts fault ts) (fun r => ∃ t, ts = t :: r.1 ∧ accepts t.token = true)
      (fun _ => True) := by
  cases ts with
  | nil => trivial
  | cons t rest =>
    rw [expect]
    split
    · exact ⟨t, rfl, ‹_›⟩
    · trivial

/-- `t = u`: the tokens that the grammar asks for by name have no content, and differ by name. -/
theorem Token.eq_of_name {t u : Token}
    (hu : u = .openParen ∨ u = .closeParen ∨ u = .closeBracket ∨ u = .comma)
    (h : (t.name == u.name) = true) : t = u := by
  rcases hu with rfl | rfl | rfl | rfl <;> cases t <;> first | rfl | simp [name] at h

/-- The lexemes after a certain token: `Meets (s.expectToken token ts) (fun r => ∃ t, ts = t :: r.1
∧ t.token = token) (fun _ => True)`. -/
theorem Scope.expectToken_meets (s : Scope) {token : Token} (ts : List Lexeme)
    (hu : token = .openParen ∨ token = .closeParen ∨ token = .closeBracket ∨ token = .comma) :
    Meets (s.expectToken token ts) (fun r => ∃ t, ts = t :: r.1 ∧ t.token = token)
      (fun _ => True) :=
  (expect_meets _ _ ts).mono
    (fun _ hr => hr.imp fun _ ht => ⟨ht.1, Token.eq_of_name hu ht.2⟩) fun _ _ => trivial

/-- `Meets (boundTerm ts) (fun r => ∃ us, ts = us ++ r.2.1 ∧ Term us r.1) (fun _ => True)`: one term
of a position. -/
theorem boundTerm_meets (ts : List Lexeme) :
    Meets (boundTerm ts) (fun r => ∃ us, ts = us ++ r.2.1 ∧ Term us r.1) (fun _ => True) := by
  unfold boundTerm
  dsimp only
  split
  · rename_i start stop rest
    split
    · trivial
    · rename_i u rest
      split
      · split
        · exact ⟨[⟨.minus, start, stop⟩, u], rfl, .negative rfl ‹_› ‹_›⟩
        · trivial
      · trivial
      · trivial
  · split
    · trivial
    · rename_i u rest _
      split
      · split
        · exact ⟨[u], rfl, .number ‹_› ‹_›⟩
        · trivial
      · simp only [Bool.false_eq_true, if_false]
        split
        · exact ⟨[u], rfl, .name ‹_› ‹_›⟩
        · trivial
      · trivial

/-- Further terms of a position: `Meets (boundTail left ts) (fun r => ∃ us, ts = us ++ r.2.1 ∧
Position (before ++ us) r.1) (fun _ => True)`. -/
theorem boundTail_meets (left : Bound) (before ts : List Lexeme) (hleft : Position before left) :
    Meets (boundTail left ts) (fun r => ∃ us, ts = us ++ r.2.1 ∧ Position (before ++ us) r.1)
      (fun _ => True) := by
  fun_induction boundTail left ts generalizing before with
  | case1 left start stop rest ih =>
    refine (boundTerm_meets rest).bind ?_
    rintro ⟨b, after, h⟩ ⟨us, hus, hb⟩
    refine (ih b after h (before ++ ⟨.plus, start, stop⟩ :: us) (hleft.add rfl hb)).bind ?_
    rintro ⟨c, last, h'⟩ ⟨vs, hvs, hc⟩
    refine ⟨⟨.plus, start, stop⟩ :: (us ++ vs), ?_, by simpa using hc⟩
    simp only [hus, List.cons_append, List.append_assoc, hvs]
  | case2 left start stop rest ih =>
    refine (boundTerm_meets rest).bind ?_
    rintro ⟨b, after, h⟩ ⟨us, hus, hb⟩
    refine (ih b after h (before ++ ⟨.minus, start, stop⟩ :: us) (hleft.sub rfl hb)).bind ?_
    rintro ⟨c, last, h'⟩ ⟨vs, hvs, hc⟩
    refine ⟨⟨.minus, start, stop⟩ :: (us ++ vs), ?_, by simpa using hc⟩
    simp only [hus, List.cons_append, List.append_assoc, hvs]
  | case3 left ts _ _ => exact ⟨[], rfl, by simpa using hleft⟩

/-- `Meets (bound ts) (fun r => ∃ us, ts = us ++ r.2.1 ∧ Position us r.1) (fun _ => True)`: a
position. -/
theorem bound_meets (ts : List Lexeme) :
    Meets (bound ts) (fun r => ∃ us, ts = us ++ r.2.1 ∧ Position us r.1) (fun _ => True) := by
  unfold bound
  refine (boundTerm_meets ts).bind ?_
  rintro ⟨b, after, h⟩ ⟨us, hus, hb⟩
  refine (boundTail_meets b us after (.term hb)).bind ?_
  rintro ⟨c, last, h'⟩ ⟨vs, hvs, hc⟩
  exact ⟨us ++ vs, by simp only [hus, hvs, List.append_assoc], hc⟩

/-- The index in brackets after a reference:
`Meets (s.indexSuffix? ts) (fun r => ∃ us, ts = us ++ r.2.1 ∧ Suffix us r.1) (fun _ => True)`. -/
theorem Scope.indexSuffix?_meets (s : Scope) (ts : List Lexeme) :
    Meets (s.indexSuffix? ts) (fun r => ∃ us, ts = us ++ r.2.1 ∧ Suffix us r.1)
      (fun _ => True) := by
  unfold indexSuffix?
  split
  · rename_i start stop rest
    refine (bound_meets rest).bind ?_
    rintro ⟨low, after, h⟩ ⟨us, hus, hlow⟩
    dsimp only
    split
    · rename_i start' stop' after _
      refine (bound_meets after).bind ?_
      rintro ⟨high, last, h'⟩ ⟨vs, hvs, hhigh⟩
      refine (s.expectToken_meets last (.inr (.inr (.inl rfl)))).bind ?_
      rintro ⟨last', h''⟩ ⟨t, ht, htoken⟩
      refine ⟨⟨.openBracket, start, stop⟩ :: (us ++ ⟨.colon, start', stop'⟩ :: (vs ++ [t])), ?_,
        .range rfl hlow rfl hhigh htoken⟩
      dsimp only at hus hvs ht ⊢
      simp [hus, hvs, ht]
    · refine (s.expectToken_meets after (.inr (.inr (.inl rfl)))).bind ?_
      rintro ⟨last', h''⟩ ⟨t, ht, htoken⟩
      refine ⟨⟨.openBracket, start, stop⟩ :: (us ++ [t]), ?_, .point rfl hlow htoken⟩
      dsimp only at hus ht ⊢
      simp [hus, ht]
  · exact ⟨[], rfl, .none⟩

/-! ## (2) What follows a phrase -/

/-- How many kinds of operators the phrases of a level take, of powers, products, sums, conjunctions
and disjunctions. -/
def Level.reach : Level → Nat
  | .chain .disjunction => 5
  | .chain .conjunction => 4
  | .complement | .comparison | .chain .sum => 3
  | .chain .product => 2
  | .signed | .power => 1
  | .primary => 0

/-- A token that a phrase of a level, with a certain end, leaves to what follows it: no operator
that phrases of the level take, and none that a branch at the end would take. -/
structure Leaves (level : Level) (e : Ending) (t : Token) : Prop where
  /-- A comparison is left when it cannot be taken. -/
  compare : e.compares = true → CompareOp.ofToken? t = none
  /-- `^` is left by primaries. -/
  caret : e.branch = true ∨ 1 ≤ level.reach → t ≠ .caret
  /-- The operators of looser levels are left. -/
  chain : ∀ l : Chain, e.branch = true ∨ (Level.chain l).reach ≤ level.reach → l.operator? t = none

/-- `Stops level e rest`: a phrase that leaves the next token, if there is one. -/
def Stops (level : Level) (e : Ending) (rest : List Lexeme) : Prop :=
  ∀ t us, rest = t :: us → Leaves level e t.token

/-- What a level leaves, a level leaves that takes no more: `Stops level' e rest`. -/
theorem Stops.of_reach_le {level level' : Level} {e : Ending} {rest : List Lexeme}
    (h : Stops level e rest) (hle : level'.reach ≤ level.reach) : Stops level' e rest := by
  intro t us hrest
  have hleaves := h t us hrest
  exact ⟨hleaves.compare, fun hc => hleaves.caret (hc.imp_right fun hr => Nat.le_trans hr hle),
    fun l hl => hleaves.chain l (hl.imp_right fun hr => Nat.le_trans hr hle)⟩

/-- The parser of a level. -/
def Level.parse (s : Scope) : Level → (ts : List Lexeme) → Except CompileError (Operand × After ts)
  | .chain level, ts => chained s level ts
  | .complement, ts => Formula.complement s ts
  | .comparison, ts => Formula.comparison s ts
  | .signed, ts => Formula.signed s ts
  | .power, ts => Formula.power s ts
  | .primary, ts => Formula.primary s ts

/-- What a parser answers: a phrase of a level, which stops where the rest begins. -/
def Reads (c : Bool) (level : Level) (ts : List Lexeme) (r : Operand × After ts) : Prop :=
  ∃ e us, ts = us ++ r.2.1 ∧ Derives c level e us r.1 ∧ Stops level e r.2.1

/-- `Sound s level ts`: an answer that is no phrase is none. -/
def Sound (s : Scope) (level : Level) (ts : List Lexeme) : Prop :=
  Meets (level.parse s ts) (Reads s.inCall level ts) (fun _ => True)

/-- The operands of a level and the operators between them. -/
theorem chained_eq (s : Scope) (level : Chain) (ts : List Lexeme) :
    chained s level ts = (do
      let (left, ⟨rest, h⟩) ← (Level.operand level).parse s ts
      let (e, ⟨rest, h'⟩) ← chainTail s level left rest
      return (e, ⟨rest, Nat.lt_of_le_of_lt h' h⟩)) := by
  rw [chained.eq_def]
  cases level <;> rfl

/-- One more operator of a level. -/
theorem chainTail_cons (s : Scope) (level : Chain) (left : Operand) (t : Lexeme)
    (rest : List Lexeme) :
    chainTail s level left (t :: rest) =
      match level.operator? t.token with
      | none => .ok (left, ⟨t :: rest, Nat.le_refl _⟩)
      | some op => do
          let a ← left.coerce op.place op.ty
          let (right, ⟨rest, h⟩) ← (Level.operand level).parse s rest
          let b ← right.coerce op.place op.ty
          let (e, ⟨rest, h'⟩) ← chainTail s level (.value op.ty (op.apply a b)) rest
          return (e, ⟨rest, Nat.le_trans h' (Nat.le_trans (Nat.le_of_lt h) (Nat.le_succ _))⟩) := by
  rw [chainTail]
  cases level <;> rfl

/-- `(chain l).reach ≤ (operand level).reach ∨ l = level`: the operators that a level adds to those
of its operands are its own. -/
theorem Level.reach_le_operand {l level : Chain} (h : (chain l).reach ≤ (chain level).reach) :
    (chain l).reach ≤ (operand level).reach ∨ l = level := by
  cases l <;> cases level <;> simp [reach, operand] at h ⊢

/-- What the operands of a level leave, and is no operator of the level, the level leaves:
`Leaves (.chain level) e t`. -/
theorem Leaves.chain_of_operand {level : Chain} {e : Ending} {t : Token}
    (h : Leaves (Level.operand level) e t) (hop : level.operator? t = none) :
    Leaves (.chain level) e t where
  compare := h.compare
  caret _ := h.caret (.inr (by cases level <;> decide))
  chain l hl := by
    rcases hl with hl | hl
    · exact h.chain l (.inl hl)
    rcases Level.reach_le_operand hl with hl | rfl
    · exact h.chain l (.inr hl)
    · exact hop

/-- A primary that no conditional ends leaves everything: `Stops .primary .closed rest`. -/
theorem Stops.closed (rest : List Lexeme) : Stops .primary .closed rest := by
  intro t us _
  refine ⟨by simp [Ending.closed], by simp [Ending.closed, Level.reach], fun l hl => ?_⟩
  cases l <;> simp [Ending.closed, Level.reach] at hl

/-! ## (3) Answers are derived -/

section Sound

variable {s : Scope} {ts : List Lexeme}

/-- Further operators of a level. -/
theorem chainTail_meets {level : Chain} {n : Nat}
    (ih : ∀ ts, ts.length < n → Sound s (Level.operand level) ts) :
    ∀ (ts before : List Lexeme) (left : Operand) (e : Ending), ts.length ≤ n →
      Derives s.inCall (.chain level) e before left → Stops (Level.operand level) e ts →
      Meets (chainTail s level left ts) (fun r => ∃ e' us, ts = us ++ r.2.1 ∧
        Derives s.inCall (.chain level) e' (before ++ us) r.1 ∧ Stops (.chain level) e' r.2.1)
        (fun _ => True)
  | [], before, left, e, _, hleft, _ => by
    rw [chainTail]
    exact ⟨e, [], rfl, by simpa using hleft, fun t us h => by simp at h⟩
  | t :: rest, before, left, e, hn, hleft, hstops => by
    rw [chainTail_cons]
    have hn : rest.length < n := hn
    cases hop : level.operator? t.token with
    | none =>
      refine ⟨e, [], rfl, by simpa using hleft, fun u us h => ?_⟩
      cases h
      exact (hstops t rest rfl).chain_of_operand hop
    | some op =>
      -- the left operand does not end in a branch, which would have taken the operator
      have hbranch : e.branch = false := by
        cases hb : e.branch with
        | false => rfl
        | true => exact absurd ((hstops t rest rfl).chain level (.inl hb)) (by simp [hop])
      refine (left.coerce_meets op.place op.ty).bind fun a ha => ?_
      refine Meets.bind (ih rest hn) ?_
      rintro ⟨right, after, h⟩ ⟨e', us, hus, hright, hstops'⟩
      refine (right.coerce_meets op.place op.ty).bind fun b hb => ?_
      refine (chainTail_meets ih after _ _ e' (by omega) (hleft.chain hbranch hop hright ha hb)
        hstops').bind ?_
      rintro ⟨x, last, h'⟩ ⟨e'', vs, hvs, hx, hlast⟩
      refine ⟨e'', t :: (us ++ vs), ?_, by simpa using hx, hlast⟩
      dsimp only at hus hvs ⊢
      rw [hus, hvs]
      simp
  termination_by ts => ts.length

/-- The operands of a level and the operators between them: `Sound s (.chain level) ts`. -/
theorem chained_sound {level : Chain} (hoperand : Sound s (Level.operand level) ts)
    (ih : ∀ us, us.length < ts.length → Sound s (Level.operand level) us) :
    Sound s (.chain level) ts := by
  rw [Sound, Level.parse, chained_eq]
  refine Meets.bind hoperand ?_
  rintro ⟨left, rest, h⟩ ⟨e, us, hus, hleft, hstops⟩
  refine (chainTail_meets ih rest us left e (Nat.le_of_lt h) hleft.operand hstops).bind ?_
  rintro ⟨x, last, h'⟩ ⟨e', vs, hvs, hx, hlast⟩
  refine ⟨e', us ++ vs, ?_, hx, hlast⟩
  dsimp only at hus hvs ⊢
  rw [hus, hvs, List.append_assoc]

/-- Negations: `Sound s .complement ts`. -/
theorem complement_sound (hcomparison : Sound s .comparison ts)
    (ih : ∀ us, us.length < ts.length → Sound s .complement us) : Sound s .complement ts := by
  have hplain : Meets (comparison s ts) (Reads s.inCall .complement ts) (fun _ => True) := by
    refine Meets.mono hcomparison (fun r hr => ?_) fun _ _ => trivial
    obtain ⟨e, us, hus, hx, hstops⟩ := hr
    exact ⟨e, us, hus, hx.affirmed, hstops.of_reach_le (by decide)⟩
  rw [Sound, Level.parse]
  cases ts with
  | nil =>
    rw [complement]
    exact hplain
  | cons t rest =>
    rw [complement]
    split
    · refine Meets.bind (ih rest (Nat.lt_succ_self _)) ?_
      rintro ⟨x, after, h⟩ ⟨e, us, hus, hx, hstops⟩
      refine (x.coerce_meets .complement .boolean).bind fun a ha => ?_
      exact ⟨e, t :: us, congrArg (t :: ·) hus, hx.complement ‹_› ha, hstops⟩
    · exact hplain

/-- `l.operator? t = none`: a token of a comparison is no operator of another kind. -/
theorem CompareOp.operator?_eq_none {t : Token} {op : CompareOp} (h : ofToken? t = some op)
    (l : Chain) : l.operator? t = none := by
  cases t <;> simp [ofToken?] at h <;> cases l <;> simp [Chain.operator?, Token.isKeyword]

section Comparison

variable {left : Operand} {t : Lexeme} {rest us : List Lexeme} {e : Ending} {op : CompareOp}

/-- A comparison of two numbers, of which the first one has been read. -/
theorem compareNumbers_meets (hus : ts = us ++ t :: rest) (hlength : (t :: rest).length < ts.length)
    (hleft : Derives s.inCall (.chain .sum) e us left) (hcompares : e.compares = false)
    (hop : CompareOp.ofToken? t.token = some op) (hright : Sound s (.chain .sum) rest) :
    Meets (do
      let a ← left.coerce .comparison .number
      let (right, ⟨rest', h'⟩) ← chained s .sum rest
      let b ← right.coerce .comparison .number
      return (Operand.value .boolean (.compare op a b),
        (⟨rest', by rw [List.length_cons] at hlength; omega⟩ : After ts)))
      (Reads s.inCall .comparison ts) (fun _ => True) := by
  refine (left.coerce_meets .comparison .number).bind fun a ha => ?_
  refine Meets.bind hright ?_
  rintro ⟨right, last, h'⟩ ⟨e', vs, hvs, hr, hlast⟩
  refine (right.coerce_meets .comparison .number).bind fun b hb => ?_
  refine ⟨e', us ++ t :: vs, ?_, hleft.compare hcompares hop hr ha hb,
    hlast.of_reach_le (by decide)⟩
  dsimp only at hvs ⊢
  rw [hus, hvs, List.append_assoc, List.cons_append]

/-- Texts are compared only for being the same: `Meets (compareText op a b) (fun x => ∃ equal, x =
.sameText equal a b ∧ op = if equal then .equal else .unequal) (fun _ => True)`. -/
theorem compareText_meets {op : CompareOp} {a b : Expr .text} :
    Meets (compareText op a b) (fun x => ∃ equal, x = .sameText equal a b ∧
      op = if equal then .equal else .unequal) (fun _ => True) := by
  cases op with
  | equal => exact ⟨true, rfl, rfl⟩
  | unequal => exact ⟨false, rfl, rfl⟩
  | less | lessEqual | greater | greaterEqual => trivial

/-- Comparisons: `Sound s .comparison ts`. -/
theorem comparison_sound (hsum : Sound s (.chain .sum) ts)
    (ih : ∀ us, us.length < ts.length → Sound s (.chain .sum) us) : Sound s .comparison ts := by
  rw [Sound, Level.parse, comparison]
  refine Meets.bind hsum ?_
  rintro ⟨left, rest, h⟩ ⟨e, us, hus, hleft, hstops⟩
  dsimp only at hus hleft hstops ⊢
  cases rest with
  | nil => exact ⟨_, us, hus, hleft.alone, fun t vs hrest => by simp at hrest⟩
  | cons t rest =>
    dsimp only
    cases hop : CompareOp.ofToken? t.token with
    | none =>
      refine ⟨_, us, hus, hleft.alone, fun u vs hrest => ?_⟩
      obtain ⟨rfl, rfl⟩ := List.cons.inj hrest
      have hleaves := hstops t rest rfl
      exact ⟨fun _ => hop, hleaves.caret, hleaves.chain⟩
    | some op =>
      dsimp only
      -- the left operand does not end in a branch that would have taken the comparison
      have hcompares : e.compares = false := by
        cases hc : e.compares with
        | false => rfl
        | true => exact absurd ((hstops t rest rfl).compare hc) (by simp [hop])
      have hlength : (t :: rest).length < ts.length := h
      have hright := ih rest (Nat.lt_of_succ_lt hlength)
      cases left with
      | stretch a => exact compareNumbers_meets hus hlength hleft hcompares hop hright
      | value τ a =>
        cases τ with
        | number | boolean => exact compareNumbers_meets hus hlength hleft hcompares hop hright
        | text =>
          refine Meets.bind hright ?_
          rintro ⟨right, last, h'⟩ ⟨e', vs, hvs, hr, hlast⟩
          have hts : ts = (us ++ t :: vs) ++ last := by
            dsimp only at hvs
            rw [hus, hvs, List.append_assoc, List.cons_append]
          cases right with
          | stretch b => trivial
          | value σ b =>
            cases σ with
            | number | boolean => trivial
            | text =>
              refine Meets.bind compareText_meets ?_
              rintro x ⟨equal, rfl, rfl⟩
              exact ⟨e', _, hts, .sameText hleft hcompares hop hr, hlast.of_reach_le (by decide)⟩

end Comparison

/-- Signs: `Sound s .signed ts`. -/
theorem signed_sound (hpower : Sound s .power ts)
    (ih : ∀ us, us.length < ts.length → Sound s .signed us) : Sound s .signed ts := by
  rw [Sound, Level.parse, signed.eq_def]
  split
  · rename_i start stop rest
    refine Meets.bind (ih rest (Nat.lt_succ_self _)) ?_
    rintro ⟨x, after, h⟩ ⟨e, us, hus, hx, hstops⟩
    refine (x.coerce_meets .negation .number).bind fun a ha => ?_
    exact ⟨e, ⟨.minus, start, stop⟩ :: us, congrArg (_ :: ·) hus, .minus rfl hx ha, hstops⟩
  · rename_i start stop rest
    refine Meets.bind (ih rest (Nat.lt_succ_self _)) ?_
    rintro ⟨x, after, h⟩ ⟨e, us, hus, hx, hstops⟩
    refine (x.coerce_meets .unaryPlus .number).bind fun a ha => ?_
    exact ⟨e, ⟨.plus, start, stop⟩ :: us, congrArg (_ :: ·) hus, .plus rfl hx ha, hstops⟩
  · refine Meets.mono hpower (fun r hr => ?_) fun _ _ => trivial
    obtain ⟨e, us, hus, hx, hstops⟩ := hr
    exact ⟨e, us, hus, hx.unsigned, hstops.of_reach_le (by decide)⟩

/-- Powers: `Sound s .power ts`. -/
theorem power_sound (hprimary : Sound s .primary ts)
    (ih : ∀ us, us.length < ts.length → Sound s .signed us) : Sound s .power ts := by
  rw [Sound, Level.parse, power]
  refine Meets.bind hprimary ?_
  rintro ⟨base, rest, h⟩ ⟨e, us, hus, hbase, hstops⟩
  dsimp only at hus hbase hstops ⊢
  split
  · rename_i start stop rest h
    have hbranch : e.branch = false := by
      cases hb : e.branch with
      | false => rfl
      | true => exact absurd rfl ((hstops _ _ rfl).caret (.inl hb))
    refine (base.coerce_meets .power .number).bind fun a ha => ?_
    have hlength : rest.length < ts.length := Nat.lt_of_succ_lt h
    refine Meets.bind (ih rest hlength) ?_
    rintro ⟨exponent, last, h'⟩ ⟨e', vs, hvs, hx, hlast⟩
    refine (exponent.coerce_meets .power .number).bind fun b hb => ?_
    refine ⟨e', us ++ ⟨.caret, start, stop⟩ :: vs, ?_, hbase.power hbranch rfl hx ha hb,
      hlast.of_reach_le (by decide)⟩
    dsimp only at hvs ⊢
    rw [hus, hvs, List.append_assoc, List.cons_append]
  · rename_i hnot
    refine ⟨e, us, hus, hbase.base, fun t ws hrest => ?_⟩
    have hleaves := hstops t ws hrest
    refine ⟨hleaves.compare, fun _ hcaret => ?_, fun l hl => hleaves.chain l (hl.imp_right ?_)⟩
    · subst hrest
      obtain ⟨token, start, stop⟩ := t
      obtain rfl : token = .caret := hcaret
      exact hnot start stop ws h rfl HEq.rfl
    · cases l <;> simp [Level.reach]

/-- A function argument. -/
theorem argument_meets {opening : Token} (hopening : opening = .openParen ∨
    opening = .comma) (ih : ∀ us, us.length < ts.length →
      Sound { s with inCall := true } (.chain .disjunction) us) :
    Meets (argument s opening ts) (fun r => ∃ t e us, t.token = opening ∧ ts = t :: us ++ r.2.1 ∧
      Derives true (.chain .disjunction) e us (.stretch r.1) ∧ Stops (.chain .disjunction) e r.2.1)
      (fun _ => True) := by
  rw [argument]
  have hsign : opening = .openParen ∨ opening = .closeParen ∨ opening = .closeBracket ∨
      opening = .comma := hopening.imp_right fun h => .inr (.inr h)
  refine (s.expectToken_meets ts hsign).bind ?_
  rintro ⟨rest, h⟩ ⟨t, hts, ht⟩
  refine Meets.bind (ih rest h) ?_
  rintro ⟨x, last, h'⟩ ⟨e, us, hus, hx, hstops⟩
  cases x with
  | value τ a => trivial
  | stretch a =>
    refine ⟨t, e, us, ht, ?_, hx, hstops⟩
    dsimp only at hts hus ⊢
    rw [hts, hus, List.cons_append]

/-- The lexemes after a certain keyword: `Meets (s.expectKeyword keyword ts) (fun r => ∃ t, ts = t
:: r.1 ∧ t.token.isKeyword keyword = true) (fun _ => True)`. -/
theorem Scope.expectKeyword_meets (s : Scope) (keyword : String) (ts : List Lexeme) :
    Meets (s.expectKeyword keyword ts)
      (fun r => ∃ t, ts = t :: r.1 ∧ t.token.isKeyword keyword = true) (fun _ => True) :=
  expect_meets _ _ ts

/-- A conditional after its `if`. -/
theorem conditional_meets {t : Lexeme} (hif : t.token.isKeyword "if" = true)
    (ih : ∀ us, us.length ≤ ts.length → Sound s (.chain .disjunction) us) :
    Meets (conditional s ts) (fun r => ∃ e us, ts = us ++ r.2.1 ∧
      Derives s.inCall .primary e (t :: us) r.1 ∧ Stops .primary e r.2.1) (fun _ => True) := by
  rw [conditional]
  refine Meets.bind (ih ts (Nat.le_refl _)) ?_
  rintro ⟨test, rest, h⟩ ⟨e, us, hus, htest, _⟩
  refine (test.coerce_meets .condition .boolean).bind fun condition hcondition => ?_
  refine (s.expectKeyword_meets "then" rest).bind ?_
  rintro ⟨rest', h'⟩ ⟨atThen, hthen, hatThen⟩
  refine Meets.bind (ih rest' (by omega)) ?_
  rintro ⟨yes, rest₂, h₂⟩ ⟨e', vs, hvs, hyes, _⟩
  refine (s.expectKeyword_meets "else" rest₂).bind ?_
  rintro ⟨rest₃, h₃⟩ ⟨atElse, helse, hatElse⟩
  refine Meets.bind (ih rest₃ (by omega)) ?_
  rintro ⟨no, rest₄, h₄⟩ ⟨e'', ws, hws, hno, hstops⟩
  refine (Operand.branches_meets condition yes no).bind fun z hz => ?_
  dsimp only at hus hthen hvs helse hws hstops
  refine ⟨⟨true, e''.compares⟩, us ++ atThen :: (vs ++ atElse :: ws), ?_,
    .conditional hif htest hcondition hatThen hyes hatElse hno hz, fun u us' hrest => ?_⟩
  · dsimp only
    rw [hus, hthen, hvs, helse, hws]
    simp
  · -- the last branch has taken what it could
    have hleaves := hstops u us' hrest
    exact ⟨hleaves.compare, fun _ => hleaves.caret (.inr (by decide)), fun l _ =>
      hleaves.chain l (.inr (by cases l <;> decide))⟩

/-- The category at an index: `Meets (s.categoryOperand ts) (fun r => ∃ us, ts = us ++ r.2.1 ∧
Derives s.inCall .primary .closed (t :: us) r.1) (fun _ => True)`. -/
theorem Scope.categoryOperand_meets (s : Scope) {t : Lexeme} (ts : List Lexeme)
    (ht : t.token.isKeyword "category" = true) :
    Meets (s.categoryOperand ts) (fun r => ∃ us, ts = us ++ r.2.1 ∧
      Derives s.inCall .primary .closed (t :: us) r.1) (fun _ => True) := by
  rw [categoryOperand]
  refine (s.indexSuffix?_meets ts).bind ?_
  rintro ⟨index, rest, h⟩ ⟨us, hus, hindex⟩
  cases index with
  | none => exact ⟨us, hus, .category ht hindex rfl⟩
  | some index =>
    cases index with
    | point b => exact ⟨us, hus, .category ht hindex rfl⟩
    | range low high => trivial

/-- A series at an index: `Meets (s.referenceOperand reference ts) (fun r => ∃ us, ts = us ++ r.2.1
∧ Derives s.inCall .primary .closed (t :: us) r.1) (fun _ => True)`. -/
theorem Scope.referenceOperand_meets (s : Scope) {t : Lexeme} {raw : String}
    {reference : Reference} (ts : List Lexeme) (ht : t.token = .word raw)
    (href : Reference.ofName? (Text.asciiLower raw) = some reference) :
    Meets (s.referenceOperand reference ts) (fun r => ∃ us, ts = us ++ r.2.1 ∧
      Derives s.inCall .primary .closed (t :: us) r.1) (fun _ => True) := by
  rw [referenceOperand]
  refine (s.indexSuffix?_meets ts).bind ?_
  rintro ⟨index, rest, h⟩ ⟨us, hus, hindex⟩
  obtain ⟨size, inCall⟩ := s
  cases inCall with
  | true => exact ⟨us, hus, .stretch ht href hindex⟩
  | false =>
    dsimp only at hus ⊢
    rw [if_neg Bool.false_ne_true]
    split
    · exact ⟨us, hus, .point ht href hindex ‹_›⟩
    · trivial

/-- The argument of a function of one stretch. -/
theorem fold_meets {t : Lexeme} {raw : String} {f : Fold} (ht : t.token = .word raw)
    (hf : Fold.ofName? (Text.asciiLower raw) = some f) (hargument : ∀ us, us.length < ts.length →
      Sound { s with inCall := true } (.chain .disjunction) us) :
    Meets (do
      let (a, ⟨rest, h⟩) ← argument s .openParen ts
      let ⟨rest, h'⟩ ← s.expectToken .closeParen rest
      return (Operand.value .number (.fold f a),
        (⟨rest, Nat.le_of_lt (Nat.lt_trans h' h)⟩ : Within ts)))
      (fun r => ∃ e us, ts = us ++ r.2.1 ∧ Derives s.inCall .primary e (t :: us) r.1 ∧
        Stops .primary e r.2.1) (fun _ => True) := by
  refine (argument_meets (.inl rfl) hargument).bind ?_
  rintro ⟨a, rest, h⟩ ⟨opening, e, us, hopening, hus, ha, _⟩
  refine (s.expectToken_meets rest (.inr (.inl rfl))).bind ?_
  rintro ⟨last, h'⟩ ⟨closing, hlast, hclosing⟩
  refine ⟨.closed, opening :: (us ++ [closing]), ?_, .fold ht hf hopening ha hclosing, .closed _⟩
  dsimp only at hus hlast ⊢
  rw [hus, hlast]
  simp

/-- The arguments of a function of two stretches. -/
theorem pairFold_meets {t : Lexeme} {raw : String} {f : PairFold} (ht : t.token = .word raw)
    (hf : PairFold.ofName? (Text.asciiLower raw) = some f)
    (hargument : ∀ us, us.length < ts.length →
      Sound { s with inCall := true } (.chain .disjunction) us) :
    Meets (do
      let (a, ⟨rest, h⟩) ← argument s .openParen ts
      let (b, ⟨rest, h'⟩) ← argument s .comma rest
      let ⟨rest, h''⟩ ← s.expectToken .closeParen rest
      return (Operand.value .number (.pairFold f a b),
        (⟨rest, Nat.le_of_lt (Nat.lt_trans h'' (Nat.lt_trans h' h))⟩ : Within ts)))
      (fun r => ∃ e us, ts = us ++ r.2.1 ∧ Derives s.inCall .primary e (t :: us) r.1 ∧
        Stops .primary e r.2.1) (fun _ => True) := by
  refine (argument_meets (.inl rfl) hargument).bind ?_
  rintro ⟨a, rest, h⟩ ⟨opening, e, us, hopening, hus, ha, _⟩
  refine (argument_meets (.inr rfl) fun us hus' => hargument us (Nat.lt_trans hus' h)).bind ?_
  rintro ⟨b, rest', h'⟩ ⟨comma, e', vs, hcomma, hvs, hb, _⟩
  refine (s.expectToken_meets rest' (.inr (.inl rfl))).bind ?_
  rintro ⟨last, h''⟩ ⟨closing, hlast, hclosing⟩
  refine ⟨.closed, opening :: (us ++ comma :: (vs ++ [closing])), ?_,
    .pairFold ht hf hopening ha hcomma hb hclosing, .closed _⟩
  dsimp only at hus hvs hlast ⊢
  rw [hus, hvs, hlast]
  simp

/-- What a name begins: `Meets (named s raw ts) (fun r => ∃ e us, ts = us ++ r.2.1 ∧ Derives
s.inCall .primary e (t :: us) r.1 ∧ Stops .primary e r.2.1) (fun _ => True)`. -/
theorem named_meets {t : Lexeme} {raw : String} (ht : t.token = .word raw)
    (ih : ∀ (s : Scope) (us : List Lexeme), us.length ≤ ts.length →
      Sound s (.chain .disjunction) us) :
    Meets (named s raw ts) (fun r => ∃ e us, ts = us ++ r.2.1 ∧
      Derives s.inCall .primary e (t :: us) r.1 ∧ Stops .primary e r.2.1) (fun _ => True) := by
  have hkeyword : ∀ k, Text.asciiLower raw = k → t.token.isKeyword k = true := by
    intro k hk
    rw [ht, Token.isKeyword, hk, beq_self_eq_true]
  rw [named]
  split
  · rename_i hname
    refine (conditional_meets (hkeyword _ hname) (ih s)).bind ?_
    rintro ⟨x, rest, h⟩ hx
    exact hx
  split
  · rename_i hname
    exact ⟨.closed, [], rfl, .truth (b := true) (hkeyword _ hname), .closed ts⟩
  split
  · rename_i hname
    exact ⟨.closed, [], rfl, .truth (b := false) (hkeyword _ hname), .closed ts⟩
  split
  · rename_i hname
    exact ⟨.closed, [], rfl, .position (hkeyword _ hname), .closed ts⟩
  split
  · rename_i hname
    exact (s.categoryOperand_meets ts (hkeyword _ hname)).mono
      (fun _ hr => ⟨.closed, hr.imp fun _ hx => ⟨hx.1, hx.2, .closed _⟩⟩) fun _ _ => trivial
  split
  · exact (s.referenceOperand_meets ts ht ‹_›).mono
      (fun _ hr => ⟨.closed, hr.imp fun _ hx => ⟨hx.1, hx.2, .closed _⟩⟩) fun _ _ => trivial
  split
  · have hargument : ∀ us : List Lexeme, us.length < ts.length →
        Sound { s with inCall := true } (.chain .disjunction) us :=
      fun us hus => ih _ us (Nat.le_of_lt hus)
    split
    · exact fold_meets ht ‹_› hargument
    · exact pairFold_meets ht ‹_› hargument
    · trivial
  · trivial

/-- Primaries: `Sound s .primary ts`. -/
theorem primary_sound (ih : ∀ (s : Scope) (us : List Lexeme), us.length < ts.length →
    Sound s (.chain .disjunction) us) : Sound s .primary ts := by
  rw [Sound, Level.parse, primary.eq_def]
  cases ts with
  | nil => trivial
  | cons t rest =>
    dsimp only
    split
    · exact ⟨.closed, [t], rfl, .number ‹_›, .closed _⟩
    · exact ⟨.closed, [t], rfl, .text ‹_›, .closed _⟩
    · rename_i hopening
      refine Meets.bind (ih s rest (Nat.lt_succ_self _)) ?_
      rintro ⟨x, after, h⟩ ⟨e, us, hus, hx, _⟩
      refine (s.expectToken_meets after (.inr (.inl rfl))).bind ?_
      rintro ⟨last, h'⟩ ⟨closing, hlast, hclosing⟩
      refine ⟨.closed, t :: (us ++ [closing]), ?_, .parens hopening hx hclosing, .closed _⟩
      dsimp only at hus hlast ⊢
      rw [hus, hlast]
      simp
    · rename_i raw ht
      refine (named_meets ht fun s us hus => ih s us (Nat.lt_succ_of_le hus)).bind ?_
      rintro ⟨x, after, h⟩ ⟨e, us, hus, hx, hstops⟩
      exact ⟨e, t :: us, congrArg (t :: ·) hus, hx, hstops⟩
    · trivial

end Sound

/-- **What is parsed is derived**: `Sound s level ts`. -/
theorem Level.parse_sound (s : Scope) (level : Level) (ts : List Lexeme) : Sound s level ts := by
  induction hn : ts.length using Nat.strongRecOn generalizing s level ts with
  | ind n ih =>
    have hshorter : ∀ (s : Scope) (level : Level) (us : List Lexeme), us.length < ts.length →
        Sound s level us := fun s level us hus => ih us.length (hn ▸ hus) s level us rfl
    -- the levels from the tightest to the loosest
    have hprimary : Sound s .primary ts := primary_sound fun s us => hshorter s _ us
    have hpower : Sound s .power ts := power_sound hprimary (hshorter s _)
    have hsigned : Sound s .signed ts := signed_sound hpower (hshorter s _)
    have hproduct : Sound s (.chain .product) ts := chained_sound hsigned (hshorter s _)
    have hsum : Sound s (.chain .sum) ts := chained_sound hproduct (hshorter s _)
    have hcomparison : Sound s .comparison ts := comparison_sound hsum (hshorter s _)
    have hcomplement : Sound s .complement ts := complement_sound hcomparison (hshorter s _)
    have hconjunction : Sound s (.chain .conjunction) ts := chained_sound hcomplement (hshorter s _)
    cases level with
    | chain level =>
      cases level with
      | disjunction => exact chained_sound hconjunction (hshorter s _)
      | conjunction => exact hconjunction
      | sum => exact hsum
      | product => exact hproduct
    | complement => exact hcomplement
    | comparison => exact hcomparison
    | signed => exact hsigned
    | power => exact hpower
    | primary => exact hprimary

end PanelQuery.Formula
