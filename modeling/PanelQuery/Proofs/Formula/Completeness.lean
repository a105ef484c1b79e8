import PanelQuery.Proofs.Formula.Parsing

/-! # What is derived is parsed

A derivation fixes what the parser answers, however the formula goes on after the phrase, as long as
the phrase leaves the next token. By induction on the derivation; at a level of operators that group
to the left, where derivations branch on the left and the parser goes on to the right, the invariant
is that the parser reads the phrase and goes on with what it yields. Thus a formula has at most one
tree, and the parser finds it.

* **`Token.IsPlain`** — tokens that every phrase leaves;
* **`Derives.first`** — the first token of a phrase;
* **`Level.Completes`** — what a derivation means for the parser;
* **`Derives.completes`** — every derivation means that;
* **`parse_eq_ok_iff`** — the parser answers with the tree of the formula;
* **`IsFormula.unique`** — there is at most one. -/

namespace PanelQuery.Formula

/-! ## (1) Tokens and names -/

/-- `t.isKeyword k = true ↔ ∃ raw, t = .word raw ∧ Text.asciiLower raw = k`: a token is a keyword
just when it is a word that reads so in lower case. -/
theorem Token.isKeyword_iff {k : String} {t : Token} :
    t.isKeyword k = true ↔ ∃ raw, t = .word raw ∧ Text.asciiLower raw = k := by
  cases t <;> simp [isKeyword]

/-- `t.isKeyword k' = false`: a word is one keyword at most. -/
theorem Token.isKeyword_eq_false {k k' : String} {t : Token} (h : t.isKeyword k = true)
    (hne : k ≠ k') : t.isKeyword k' = false := by
  obtain ⟨raw, rfl, hraw⟩ := isKeyword_iff.1 h
  rw [isKeyword, hraw]
  exact beq_eq_false_iff_ne.2 hne

/-- `l'.operator? t = none`: an operator belongs to one level. -/
theorem Chain.operator?_eq_none {l l' : Chain} {t : Token} {op : LeftOp}
    (h : l.operator? t = some op) (hne : l' ≠ l) : l'.operator? t = none := by
  cases t with
  | word name =>
    cases l <;> cases l' <;> simp [operator?, Token.isKeyword] at h hne ⊢
    · rw [h.1]
      decide
    · rw [h.1]
      decide
  | _ =>
    cases l <;> simp [operator?, Token.isKeyword] at h <;>
      cases l' <;> first | rfl | exact absurd rfl hne

/-- An operator that groups to the left is no comparison, no `^` and no bracket. -/
theorem Chain.ne_of_operator? {l : Chain} {t : Token} {op : LeftOp} (h : l.operator? t = some op) :
    CompareOp.ofToken? t = none ∧ t ≠ .caret ∧ t ≠ .openBracket := by
  refine ⟨?_, ?_, ?_⟩
  · cases t <;> first | rfl | (cases l <;> simp [operator?, Token.isKeyword] at h)
  · rintro rfl
    cases l <;> simp [operator?, Token.isKeyword] at h
  · rintro rfl
    cases l <;> simp [operator?, Token.isKeyword] at h

/-- A token that no phrase takes: no operator between operands and no opening bracket. -/
structure Token.IsPlain (t : Token) : Prop where
  compare : CompareOp.ofToken? t = none
  caret : t ≠ .caret
  bracket : t ≠ .openBracket
  chain : ∀ l : Chain, l.operator? t = none

/-- A keyword other than `or` and `and` is plain. -/
theorem Token.IsPlain.of_isKeyword {k : String} {t : Token} (h : t.isKeyword k = true)
    (hor : k ≠ "or") (hand : k ≠ "and") : t.IsPlain := by
  have hor' := t.isKeyword_eq_false h hor
  have hand' := t.isKeyword_eq_false h hand
  obtain ⟨raw, rfl, -⟩ := isKeyword_iff.1 h
  refine ⟨rfl, by simp, by simp, fun l => ?_⟩
  cases l <;> simp [Chain.operator?, hor', hand']

/-- A closing parenthesis and a comma are plain: `t.IsPlain`. -/
theorem Token.IsPlain.of_separator {t : Token} (h : t = .closeParen ∨ t = .comma) : t.IsPlain := by
  rcases h with rfl | rfl <;> exact ⟨rfl, by simp, by simp, fun l => by cases l <;> rfl⟩

/-- The names that are looked at before those of series. -/
def reservedNames : List String := ["if", "true", "false", "t", "category"]

/-- No reserved name is that of a series, nor is `not`. -/
theorem Reference.ofName?_reserved :
    ∀ k ∈ "not" :: reservedNames, Reference.ofName? k = none := by
  intro k hk
  simp only [reservedNames, List.mem_cons, List.not_mem_nil, or_false] at hk
  rcases hk with rfl | rfl | rfl | rfl | rfl | rfl <;> rfl

/-- `name ∉ "not" :: reservedNames ∧ Reference.ofName? name = none`: a name of a function of one
stretch is neither reserved nor that of a series. -/
theorem Fold.of_ofName? {name : String} {f : Fold} (h : Fold.ofName? name = some f) :
    name ∉ "not" :: reservedNames ∧ Reference.ofName? name = none := by
  unfold Fold.ofName? at h
  split at h
  · rename_i hmean
    subst hmean
    exact ⟨by decide, rfl⟩
  · obtain rfl : f.name = name := by simpa using List.find?_some h
    cases f <;> exact ⟨by decide, rfl⟩

/-- A name of a function of two stretches is neither reserved nor that of a series, nor that of a
function of one stretch:
`name ∉ "not" :: reservedNames ∧ Reference.ofName? name = none ∧ Fold.ofName? name = none`. -/
theorem PairFold.of_ofName? {name : String} {f : PairFold} (h : PairFold.ofName? name = some f) :
    name ∉ "not" :: reservedNames ∧ Reference.ofName? name = none ∧ Fold.ofName? name = none := by
  obtain rfl : f.name = name := by simpa using List.find?_some h
  cases f <;> exact ⟨by decide, rfl, by decide⟩

/-- A word whose name is not `not` is no negation. -/
theorem Token.isNot_word {raw : String} (h : Text.asciiLower raw ≠ "not") :
    (Token.word raw).isNot = false :=
  beq_eq_false_iff_ne.2 h

/-- Whether a phrase of a level may begin with a negation. -/
def Level.negates : Level → Bool
  | .chain .disjunction | .chain .conjunction | .complement => true
  | _ => false

/-- Whether a phrase of a level may begin with a sign. -/
def Level.signs : Level → Bool
  | .power | .primary => false
  | _ => true

/-- **The first token of a phrase**: there are `t` and `rest` with `us = t :: rest`,
`(level.negates = false → t.token.isNot = false)` and
`(level.signs = false → t.token ≠ .minus ∧ t.token ≠ .plus)`. Without negations it is none, and
without signs it is no sign either. -/
theorem Derives.first {c : Bool} {level : Level} {e : Ending} {us : List Lexeme} {x : Operand}
    (hx : Derives c level e us x) : ∃ t rest, us = t :: rest ∧
      (level.negates = false → t.token.isNot = false) ∧
      (level.signs = false → t.token ≠ .minus ∧ t.token ≠ .plus) := by
  -- a word that is not `not`
  have hword : ∀ {level : Level} {t : Lexeme} {raw : String} (rest : List Lexeme),
      t.token = .word raw → Text.asciiLower raw ≠ "not" → ∃ u us, t :: rest = u :: us ∧
        (level.negates = false → u.token.isNot = false) ∧
        (level.signs = false → u.token ≠ .minus ∧ u.token ≠ .plus) := by
    intro level t raw rest ht hraw
    refine ⟨t, rest, rfl, fun _ => ?_, fun _ => ?_⟩
    · rw [ht]
      exact Token.isNot_word hraw
    · rw [ht]
      simp
  have hkeyword : ∀ {level : Level} {t : Lexeme} {k : String} (rest : List Lexeme),
      t.token.isKeyword k = true → k ≠ "not" → ∃ u us, t :: rest = u :: us ∧
        (level.negates = false → u.token.isNot = false) ∧
        (level.signs = false → u.token ≠ .minus ∧ u.token ≠ .plus) := by
    intro level t k rest ht hk
    obtain ⟨raw, hraw, rfl⟩ := Token.isKeyword_iff.1 ht
    exact hword rest hraw hk
  induction hx with
  | @operand c level e us x _ ih =>
    obtain ⟨t, rest, rfl, hnot, hsign⟩ := ih
    refine ⟨t, rest, rfl, fun h => hnot ?_, fun h => ?_⟩
    · cases level <;> first | rfl | cases h
    · cases level <;> cases h
  | @chain c level e e' us vs t op x y a b _ _ _ _ _ _ ih =>
    obtain ⟨t', rest, rfl, hnot, hsign⟩ := ih
    exact ⟨t', rest ++ t :: vs, rfl, hnot, hsign⟩
  | affirmed _ ih =>
    obtain ⟨t, rest, rfl, -, -⟩ := ih
    exact ⟨t, rest, rfl, nofun, nofun⟩
  | @complement c e us t =>
    exact ⟨t, us, rfl, nofun, nofun⟩
  | alone _ ih =>
    obtain ⟨t, rest, rfl, hnot, -⟩ := ih
    exact ⟨t, rest, rfl, fun _ => hnot rfl, nofun⟩
  | @compare c e e' us vs t _ _ _ _ _ _ _ _ _ _ _ ih =>
    obtain ⟨t', rest, rfl, hnot, -⟩ := ih
    exact ⟨t', rest ++ t :: vs, rfl, fun _ => hnot rfl, nofun⟩
  | @sameText c e e' us vs t _ _ _ _ _ _ _ ih =>
    obtain ⟨t', rest, rfl, hnot, -⟩ := ih
    exact ⟨t', rest ++ t :: vs, rfl, fun _ => hnot rfl, nofun⟩
  | unsigned _ ih =>
    obtain ⟨t, rest, rfl, hnot, -⟩ := ih
    exact ⟨t, rest, rfl, fun _ => hnot rfl, nofun⟩
  | @minus c e us t _ _ ht =>
    exact ⟨t, us, rfl, fun _ => by rw [ht]; rfl, nofun⟩
  | @plus c e us t _ _ ht =>
    exact ⟨t, us, rfl, fun _ => by rw [ht]; rfl, nofun⟩
  | base _ ih =>
    obtain ⟨t, rest, rfl, hnot, hsign⟩ := ih
    exact ⟨t, rest, rfl, fun _ => hnot rfl, fun _ => hsign rfl⟩
  | @power c e e' us vs t _ _ _ _ _ _ _ _ _ _ ih =>
    obtain ⟨t', rest, rfl, hnot, hsign⟩ := ih
    exact ⟨t', rest ++ t :: vs, rfl, fun _ => hnot rfl, fun _ => hsign rfl⟩
  | number ht => exact ⟨_, _, rfl, fun _ => by rw [ht]; rfl, fun _ => by rw [ht]; simp⟩
  | text ht => exact ⟨_, _, rfl, fun _ => by rw [ht]; rfl, fun _ => by rw [ht]; simp⟩
  | parens ht => exact ⟨_, _, rfl, fun _ => by rw [ht]; rfl, fun _ => by rw [ht]; simp⟩
  | @truth c b t ht => exact hkeyword [] ht (by cases b <;> decide)
  | position ht => exact hkeyword [] ht (by decide)
  | category ht => exact hkeyword _ ht (by decide)
  | point ht href =>
    refine hword _ ht fun h => ?_
    rw [h, Reference.ofName?_reserved "not" (by decide)] at href
    cases href
  | stretch ht href =>
    refine hword _ ht fun h => ?_
    rw [h, Reference.ofName?_reserved "not" (by decide)] at href
    cases href
  | fold ht hf => exact hword _ ht fun h => (Fold.of_ofName? hf).1 (h ▸ List.mem_cons_self)
  | pairFold ht hf => exact hword _ ht fun h => (PairFold.of_ofName? hf).1 (h ▸ List.mem_cons_self)
  | conditional hif => exact hkeyword _ hif (by decide)

/-! ## (2) Indices -/

/-- One term of a position: `∃ h, boundTerm (us ++ rest) = .ok (b, ⟨rest, h⟩)`. -/
theorem Term.boundTerm_eq {us : List Lexeme} {b : Bound} (hb : Term us b) (rest : List Lexeme) :
    ∃ h, boundTerm (us ++ rest) = .ok (b, ⟨rest, h⟩) := by
  cases hb with
  | @name t raw b ht hname =>
    obtain ⟨token, start, stop⟩ := t
    obtain rfl : token = .word raw := ht
    refine ⟨by simp, ?_⟩
    simp [boundTerm, hname]
  | @number t x n ht hn =>
    obtain ⟨token, start, stop⟩ := t
    obtain rfl : token = .number x := ht
    refine ⟨by simp, ?_⟩
    simp [boundTerm, hn]
  | @negative sign t x n hsign ht hn =>
    obtain ⟨token, start, stop⟩ := sign
    obtain rfl : token = .minus := hsign
    refine ⟨Nat.lt_succ_of_lt (Nat.lt_succ_self _), ?_⟩
    simp [boundTerm, hn, ht, bind, Except.bind, pure, Except.pure]

/-- A position, and further terms after it: `∃ h', bound (us ++ rest) = .ok (c, ⟨last, h'⟩)`. -/
theorem Position.bound_eq {us : List Lexeme} {b : Bound} (hb : Position us b)
    {rest last : List Lexeme} {c : Bound} {h : last.length ≤ rest.length}
    (htail : boundTail b rest = .ok (c, ⟨last, h⟩)) :
    ∃ h', bound (us ++ rest) = .ok (c, ⟨last, h'⟩) := by
  -- the terms are grouped to the left, and read from the left with what has been read at hand
  induction hb generalizing rest last c with
  | @term us b hb =>
    obtain ⟨h', hterm⟩ := hb.boundTerm_eq rest
    refine ⟨by omega, ?_⟩
    simp only [bound, hterm, bind, Except.bind, htail, pure, Except.pure]
  | @add us vs t a b ha ht hb ih =>
    obtain ⟨token, start, stop⟩ := t
    obtain rfl : token = .plus := ht
    obtain ⟨h', hterm⟩ := hb.boundTerm_eq rest
    rw [List.append_assoc, List.cons_append]
    have hstep : boundTail a (⟨.plus, start, stop⟩ :: (vs ++ rest)) =
        .ok (c, ⟨last, by simp; omega⟩) := by
      rw [boundTail]
      simp only [hterm, bind, Except.bind, htail, pure, Except.pure]
    exact ih hstep
  | @sub us vs t a b ha ht hb ih =>
    obtain ⟨token, start, stop⟩ := t
    obtain rfl : token = .minus := ht
    obtain ⟨h', hterm⟩ := hb.boundTerm_eq rest
    rw [List.append_assoc, List.cons_append]
    have hstep : boundTail a (⟨.minus, start, stop⟩ :: (vs ++ rest)) =
        .ok (c, ⟨last, by simp; omega⟩) := by
      rw [boundTail]
      simp only [hterm, bind, Except.bind, htail, pure, Except.pure]
    exact ih hstep

/-- `boundTail b (t :: rest) = .ok (b, ⟨t :: rest, Nat.le_refl _⟩)`: a position ends where no sign
follows. -/
theorem boundTail_of_closing (b : Bound) {t : Lexeme}
    (ht : t.token = .colon ∨ t.token = .closeBracket) (rest : List Lexeme) :
    boundTail b (t :: rest) = .ok (b, ⟨t :: rest, Nat.le_refl _⟩) := by
  obtain ⟨token, start, stop⟩ := t
  obtain rfl | rfl : token = .colon ∨ token = .closeBracket := ht
  · rw [boundTail.eq_def]
  · rw [boundTail.eq_def]

/-- `s.expectToken token (t :: rest) = .ok ⟨rest, Nat.lt_succ_self _⟩`: a certain token is read. -/
theorem Scope.expectToken_cons (s : Scope) {t : Lexeme} {token : Token} (ht : t.token = token)
    (rest : List Lexeme) : s.expectToken token (t :: rest) = .ok ⟨rest, Nat.lt_succ_self _⟩ := by
  rw [expectToken, expect, if_pos]
  rw [ht, beq_self_eq_true]

/-- Whether the lexemes begin with no index. -/
def NoIndex (rest : List Lexeme) : Prop :=
  ∀ t us, rest = t :: us → t.token ≠ .openBracket

/-- The index after a reference: `∃ h, s.indexSuffix? (us ++ rest) = .ok (index, ⟨rest, h⟩)`. -/
theorem Suffix.indexSuffix?_eq {us : List Lexeme} {index : Option Index} (hi : Suffix us index)
    (s : Scope) {rest : List Lexeme} (hrest : NoIndex rest) :
    ∃ h, s.indexSuffix? (us ++ rest) = .ok (index, ⟨rest, h⟩) := by
  cases hi with
  | none =>
    refine ⟨Nat.le_refl _, ?_⟩
    cases rest with
    | nil => rfl
    | cons t rest =>
      obtain ⟨token, start, stop⟩ := t
      have htoken : token ≠ .openBracket := hrest _ rest rfl
      cases token <;> first | rfl | exact absurd rfl htoken
  | @point opening closing us b hopening hb hclosing =>
    obtain ⟨h, hbound⟩ := hb.bound_eq (boundTail_of_closing b (.inr hclosing) rest)
    obtain ⟨token, start, stop⟩ := opening
    obtain rfl : token = .openBracket := hopening
    obtain ⟨token, start', stop'⟩ := closing
    obtain rfl : token = .closeBracket := hclosing
    rw [List.cons_append, List.append_assoc, List.singleton_append]
    refine ⟨by simp; omega, ?_⟩
    rw [Scope.indexSuffix?]
    simp only [hbound, bind, Except.bind]
    rw [s.expectToken_cons (t := ⟨.closeBracket, start', stop'⟩) rfl]
    rfl
  | @range opening colon closing us vs low high hopening hlow hcolon hhigh hclosing =>
    obtain ⟨h, hbound⟩ := hlow.bound_eq
      (boundTail_of_closing low (.inl hcolon) (vs ++ closing :: rest))
    obtain ⟨h', hbound'⟩ := hhigh.bound_eq (boundTail_of_closing high (.inr hclosing) rest)
    obtain ⟨token, start, stop⟩ := opening
    obtain rfl : token = .openBracket := hopening
    obtain ⟨token, start', stop'⟩ := colon
    obtain rfl : token = .colon := hcolon
    rw [List.cons_append, List.append_assoc, List.cons_append, List.append_assoc,
      List.singleton_append]
    refine ⟨by simp; omega, ?_⟩
    rw [Scope.indexSuffix?]
    simp only [hbound, hbound', bind, Except.bind]
    rw [s.expectToken_cons hclosing]
    rfl

/-! ## (3) Phrases -/

/-- What a derivation means for the parser: however a formula goes on after a phrase that leaves the
next token, the phrase is read and yields what the derivation says. At a level of operators that
group to the left, the parser goes on with further operators. -/
def Level.Completes (s : Scope) : Level → Ending → List Lexeme → Operand → Prop
  | .chain level, e, us, x => ∀ rest y last h, Stops (Level.operand level) e rest → NoIndex rest →
      chainTail s level x rest = .ok (y, ⟨last, h⟩) →
      ∃ h', chained s level (us ++ rest) = .ok (y, ⟨last, h'⟩)
  | level, e, us, x => ∀ rest, Stops level e rest → NoIndex rest →
      ∃ h, level.parse s (us ++ rest) = .ok (x, ⟨rest, h⟩)

/-- `chainTail s level x rest = .ok (x, ⟨rest, Nat.le_refl _⟩)`: a level goes on with none of its
operators where none follows. -/
theorem chainTail_of_stops {s : Scope} {level : Chain} {e : Ending} {rest : List Lexeme}
    (h : Stops (.chain level) e rest) (x : Operand) :
    chainTail s level x rest = .ok (x, ⟨rest, Nat.le_refl _⟩) := by
  cases rest with
  | nil => rw [chainTail]
  | cons t rest =>
    have hop : level.operator? t.token = none :=
      (h t rest rfl).chain level (.inr (Nat.le_refl _))
    rw [chainTail_cons, hop]

/-- What a level leaves, its operands leave: `Stops (Level.operand level) e rest`. -/
theorem Stops.operand {level : Chain} {e : Ending} {rest : List Lexeme}
    (h : Stops (.chain level) e rest) : Stops (Level.operand level) e rest :=
  h.of_reach_le (by cases level <;> decide)

/-- A phrase is read by the parser of its level:
`∃ h, level.parse s (us ++ rest) = .ok (x, ⟨rest, h⟩)`. -/
theorem Level.Completes.parse_eq {s : Scope} {level : Level} {e : Ending} {us : List Lexeme}
    {x : Operand} (hx : level.Completes s e us x) (rest : List Lexeme)
    (hstops : Stops level e rest) (hindex : NoIndex rest) :
    ∃ h, level.parse s (us ++ rest) = .ok (x, ⟨rest, h⟩) := by
  cases level with
  | chain level => exact hx rest x rest _ hstops.operand hindex (chainTail_of_stops hstops x)
  | _ => exact hx rest hstops hindex

/-- `x.coerce place τ = .ok e`: a conversion that there is succeeds. -/
theorem Operand.ReadsAs.coerce_eq {x : Operand} {τ : Ty} {e : Expr τ} (h : x.ReadsAs τ e)
    (place : Place) : x.coerce place τ = .ok e :=
  coerce_eq_ok_iff.2 h

/-- The operands of operators that group to the left leave these operators:
`Leaves (Level.operand level) e t`. -/
theorem Leaves.of_operator {level : Chain} {e : Ending} {t : Token} {op : LeftOp}
    (hbranch : e.branch = false) (hop : level.operator? t = some op) :
    Leaves (Level.operand level) e t where
  compare _ := (Chain.ne_of_operator? hop).1
  caret _ := (Chain.ne_of_operator? hop).2.1
  chain l hl := by
    rcases hl with hl | hl
    · rw [hbranch] at hl
      cases hl
    · refine Chain.operator?_eq_none hop ?_
      rintro rfl
      cases l <;> simp [Level.reach, Level.operand] at hl

/-- Sums leave comparisons, unless a branch would take them: `Leaves (.chain .sum) e t`. -/
theorem Leaves.of_compare {e : Ending} {t : Token} {op : CompareOp} (hcompares : e.compares = false)
    (hop : CompareOp.ofToken? t = some op) : Leaves (.chain .sum) e t where
  compare h := by
    rw [hcompares] at h
    cases h
  caret _ := by
    rintro rfl
    cases hop
  chain l _ := CompareOp.operator?_eq_none hop l

/-- Primaries leave `^`, unless a branch would take it. -/
theorem Leaves.of_caret {e : Ending} (hbranch : e.branch = false) :
    Leaves .primary e .caret where
  compare _ := rfl
  caret h := by
    rcases h with h | h
    · rw [hbranch] at h
      cases h
    · simp [Level.reach] at h
  chain l _ := by cases l <;> rfl

/-- Every phrase leaves a plain token: `Leaves level e t`. -/
theorem Token.IsPlain.leaves {t : Token} (h : t.IsPlain) (level : Level) (e : Ending) :
    Leaves level e t :=
  ⟨fun _ => h.compare, fun _ => h.caret, fun l _ => h.chain l⟩

/-- A phrase stops before a token that it leaves: `Stops level e (t :: rest)`. -/
theorem Stops.cons {level : Level} {e : Ending} {t : Lexeme} (h : Leaves level e t.token)
    (rest : List Lexeme) : Stops level e (t :: rest) := by
  intro u us hrest
  obtain ⟨rfl, rfl⟩ := List.cons.inj hrest
  exact h

/-- No index begins with a token that is no bracket: `NoIndex (t :: rest)`. -/
theorem NoIndex.cons {t : Lexeme} (h : t.token ≠ .openBracket) (rest : List Lexeme) :
    NoIndex (t :: rest) := by
  intro u us hrest
  obtain ⟨rfl, rfl⟩ := List.cons.inj hrest
  exact h

/-- `complement s (t :: rest) = comparison s (t :: rest)`: a formula that begins with no
negation. -/
theorem complement_of_affirmed (s : Scope) {t : Lexeme} (ht : t.token.isNot = false)
    (rest : List Lexeme) : complement s (t :: rest) = comparison s (t :: rest) := by
  rw [complement, if_neg (by simp [ht])]

/-- A word, and what it begins: `primary s (t :: rest)` is
`(do let (e, ⟨rest, h⟩) ← named s raw rest return (e, ⟨rest, Nat.lt_succ_of_le h⟩))`. -/
theorem primary_word (s : Scope) {t : Lexeme} {raw : String} (ht : t.token = .word raw)
    (rest : List Lexeme) :
    primary s (t :: rest) = (do
      let (e, ⟨rest, h⟩) ← named s raw rest
      return (e, ⟨rest, Nat.lt_succ_of_le h⟩)) := by
  rw [primary, ht]

/-- A name that is neither reserved nor that of a series, before a parenthesis. -/
theorem named_call (s : Scope) {raw : String}
    (hreserved : Text.asciiLower raw ∉ "not" :: reservedNames)
    (hreference : Reference.ofName? (Text.asciiLower raw) = none) {ts : List Lexeme}
    (hopen : opensParen ts = true) :
    named s raw ts =
      match Fold.ofName? (Text.asciiLower raw), PairFold.ofName? (Text.asciiLower raw) with
      | some f, _ => do
          let (a, ⟨rest, h⟩) ← argument s .openParen ts
          let ⟨rest, h'⟩ ← s.expectToken .closeParen rest
          return (.value .number (.fold f a), ⟨rest, Nat.le_of_lt (Nat.lt_trans h' h)⟩)
      | none, some f => do
          let (a, ⟨rest, h⟩) ← argument s .openParen ts
          let (b, ⟨rest, h'⟩) ← argument s .comma rest
          let ⟨rest, h''⟩ ← s.expectToken .closeParen rest
          return (.value .number (.pairFold f a b),
            ⟨rest, Nat.le_of_lt (Nat.lt_trans h'' (Nat.lt_trans h' h))⟩)
      | none, none => .error (.unknownFunction raw) := by
  simp only [reservedNames, List.mem_cons, List.not_mem_nil, or_false, not_or] at hreserved
  obtain ⟨-, hif, htrue, hfalse, ht, hcategory⟩ := hreserved
  rw [named, if_neg hif, if_neg htrue, if_neg hfalse, if_neg ht, if_neg hcategory, hreference]
  exact if_pos hopen

/-- `opensParen (t :: rest) = true`: a parenthesis opens. -/
theorem opensParen_cons {t : Lexeme} (ht : t.token = .openParen) (rest : List Lexeme) :
    opensParen (t :: rest) = true := by
  obtain ⟨token, start, stop⟩ := t
  obtain rfl : token = .openParen := ht
  rfl

/-- `named s raw ts = s.referenceOperand reference ts`: a name of a series. -/
theorem named_reference (s : Scope) {raw : String} {reference : Reference}
    (h : Reference.ofName? (Text.asciiLower raw) = some reference) (ts : List Lexeme) :
    named s raw ts = s.referenceOperand reference ts := by
  have hne : ∀ k ∈ reservedNames, Text.asciiLower raw ≠ k := by
    intro k hk hname
    rw [hname, Reference.ofName?_reserved k (List.mem_cons_of_mem _ hk)] at h
    cases h
  rw [named, if_neg (hne "if" (by decide)), if_neg (hne "true" (by decide)),
    if_neg (hne "false" (by decide)), if_neg (hne "t" (by decide)),
    if_neg (hne "category" (by decide)), h]

/-- A function argument:
`∃ h, argument s opening (t :: (us ++ next :: rest)) = .ok (a, ⟨next :: rest, h⟩)`. -/
theorem argument_eq {s : Scope} {e : Ending} {us : List Lexeme} {a : Stretch}
    (ha : Level.Completes { s with inCall := true } (.chain .disjunction) e us (.stretch a))
    {opening : Token} {t next : Lexeme} (ht : t.token = opening) (hnext : next.token.IsPlain)
    (rest : List Lexeme) :
    ∃ h, argument s opening (t :: (us ++ next :: rest)) = .ok (a, ⟨next :: rest, h⟩) := by
  obtain ⟨h, hparse⟩ := ha.parse_eq (next :: rest) (.cons (hnext.leaves _ _) rest)
    (.cons hnext.bracket rest)
  change chained _ _ _ = _ at hparse
  refine ⟨Nat.lt_succ_of_lt h, ?_⟩
  rw [argument, s.expectToken_cons ht]
  simp only [hparse, Operand.asArgument, bind, Except.bind, pure, Except.pure]

/-- `s.expectKeyword keyword (t :: rest) = .ok ⟨rest, Nat.lt_succ_self _⟩`: a certain keyword is
read. -/
theorem Scope.expectKeyword_cons (s : Scope) {t : Lexeme} {keyword : String}
    (ht : t.token.isKeyword keyword = true) (rest : List Lexeme) :
    s.expectKeyword keyword (t :: rest) = .ok ⟨rest, Nat.lt_succ_self _⟩ := by
  rw [expectKeyword, expect, if_pos ht]

/-- A negation, and what it negates. -/
theorem complement_of_not (s : Scope) {t : Lexeme} (ht : t.token.isNot = true)
    (rest : List Lexeme) :
    complement s (t :: rest) = (do
      let (e, ⟨rest, h⟩) ← complement s rest
      let a ← e.coerce .complement .boolean
      return (.value .boolean (.complement a), ⟨rest, Nat.lt_succ_of_lt h⟩)) := by
  rw [complement, if_pos ht]

namespace Level.Completes

variable {s : Scope} {e e' : Ending} {us vs : List Lexeme} {t : Lexeme} {x y : Operand}

/-- An operand of a level, after which the parser goes on with operators:
`(Level.chain level).Completes s e us x`. -/
theorem operand {level : Chain} (hx : (Level.operand level).Completes s e us x) :
    (Level.chain level).Completes s e us x := by
  intro rest y last h hstops hindex htail
  obtain ⟨h', hparse⟩ := hx.parse_eq rest hstops hindex
  refine ⟨by omega, ?_⟩
  rw [chained_eq, hparse]
  simp only [bind, Except.bind, htail, pure, Except.pure]

/-- Operators that group to the left:
`(Level.chain level).Completes s e' (us ++ t :: vs) (.value op.ty (op.apply a b))`. What is on the
left of the last one is read first, and the parser goes on with that operator. -/
theorem chain {level : Chain} {op : LeftOp} {a b : Expr op.ty}
    (hx : (Level.chain level).Completes s e us x) (hbranch : e.branch = false)
    (hop : level.operator? t.token = some op) (hy : (Level.operand level).Completes s e' vs y)
    (ha : x.ReadsAs op.ty a) (hb : y.ReadsAs op.ty b) :
    (Level.chain level).Completes s e' (us ++ t :: vs) (.value op.ty (op.apply a b)) := by
  intro rest z last h hstops hindex htail
  obtain ⟨h', hparse⟩ := hy.parse_eq rest hstops hindex
  rw [List.append_assoc, List.cons_append]
  -- the left operand is followed by the operator, with which the parser goes on
  refine hx (t :: (vs ++ rest)) z last (by simp; omega) (.cons (.of_operator hbranch hop) _)
    (.cons (Chain.ne_of_operator? hop).2.2 _) ?_
  rw [chainTail_cons, hop]
  simp only [ha.coerce_eq, hparse, hb.coerce_eq, bind, Except.bind, htail, pure, Except.pure]

/-- No negation: `Level.complement.Completes s e (t :: us) x`. -/
theorem affirmed (hfirst : t.token.isNot = false)
    (hx : Level.comparison.Completes s e (t :: us) x) :
    Level.complement.Completes s e (t :: us) x := by
  intro rest hstops hindex
  obtain ⟨h, hparse⟩ := hx.parse_eq rest (hstops.of_reach_le (by decide)) hindex
  exact ⟨h, (complement_of_affirmed s hfirst _).trans hparse⟩

/-- A negation: `Level.complement.Completes s e (t :: us) (.value .boolean (.complement a))`. -/
theorem complement {a : Expr .boolean} (ht : t.token.isNot = true)
    (hx : Level.complement.Completes s e us x) (ha : x.ReadsAs .boolean a) :
    Level.complement.Completes s e (t :: us) (.value .boolean (.complement a)) := by
  intro rest hstops hindex
  obtain ⟨h, hparse⟩ := hx.parse_eq rest hstops hindex
  change Formula.complement s _ = _ at hparse
  refine ⟨Nat.lt_succ_of_lt h, (complement_of_not s ht (us ++ rest)).trans ?_⟩
  simp only [hparse, ha.coerce_eq, bind, Except.bind, pure, Except.pure]

/-- A sum that is not compared: `Level.comparison.Completes s ⟨e.branch, true⟩ us x`. -/
theorem alone (hx : (Level.chain .sum).Completes s e us x) :
    Level.comparison.Completes s ⟨e.branch, true⟩ us x := by
  intro rest hstops hindex
  have hsum : Stops (.chain .sum) e rest := fun t ws hrest =>
    have hleaves := hstops t ws hrest
    ⟨fun _ => hleaves.compare rfl, hleaves.caret, hleaves.chain⟩
  obtain ⟨h, hparse⟩ := hx.parse_eq rest hsum hindex
  refine ⟨h, ?_⟩
  change chained s .sum _ = _ at hparse
  change Formula.comparison s _ = _
  rw [Formula.comparison, hparse]
  cases rest with
  | nil => rfl
  | cons t rest =>
    simp only [bind, Except.bind, (hstops t rest rfl).compare rfl]
    rfl

/-- The two sums of a comparison are read, the first one up to the operator:
`(∃ h, chained s .sum (us ++ t :: (vs ++ rest)) = .ok (x, ⟨t :: (vs ++ rest), h⟩))` and
`∃ h, chained s .sum (vs ++ rest) = .ok (y, ⟨rest, h⟩)`. -/
theorem operands_parse_eq {op : CompareOp} (hx : (Level.chain .sum).Completes s e us x)
    (hcompares : e.compares = false) (hop : CompareOp.ofToken? t.token = some op)
    (hy : (Level.chain .sum).Completes s e' vs y) {rest : List Lexeme}
    (hstops : Stops .comparison e' rest) (hindex : NoIndex rest) :
    (∃ h, chained s .sum (us ++ t :: (vs ++ rest)) = .ok (x, ⟨t :: (vs ++ rest), h⟩)) ∧
      ∃ h, chained s .sum (vs ++ rest) = .ok (y, ⟨rest, h⟩) := by
  have hne : t.token ≠ .openBracket := by
    rintro ht
    rw [ht] at hop
    cases hop
  exact ⟨hx.parse_eq _ (.cons (.of_compare hcompares hop) _) (.cons hne _),
    hy.parse_eq rest (hstops.of_reach_le (by decide)) hindex⟩

/-- Two numbers compared:
`Level.comparison.Completes s e' (us ++ t :: vs) (.value .boolean (.compare op a b))`. -/
theorem compare {op : CompareOp} {a b : Expr .number}
    (hx : (Level.chain .sum).Completes s e us x) (hcompares : e.compares = false)
    (hop : CompareOp.ofToken? t.token = some op) (hy : (Level.chain .sum).Completes s e' vs y)
    (ha : x.ReadsAs .number a) (hb : y.ReadsAs .number b) :
    Level.comparison.Completes s e' (us ++ t :: vs) (.value .boolean (.compare op a b)) := by
  intro rest hstops hindex
  obtain ⟨⟨h', hparse'⟩, h, hparse⟩ := hx.operands_parse_eq hcompares hop hy hstops hindex
  rw [List.append_assoc, List.cons_append]
  refine ⟨by simp at h h' ⊢; omega, ?_⟩
  change Formula.comparison s _ = _
  rw [Formula.comparison, hparse']
  simp only [bind, Except.bind, hop]
  have hleft := ha.coerce_eq .comparison
  cases ha <;> simp only [hleft, hparse, hb.coerce_eq, pure, Except.pure]

/-- Two texts compared:
`Level.comparison.Completes s e' (us ++ t :: vs) (.value .boolean (.sameText equal a b))`. -/
theorem sameText {equal : Bool} {a b : Expr .text}
    (hx : (Level.chain .sum).Completes s e us (.value .text a)) (hcompares : e.compares = false)
    (hop : CompareOp.ofToken? t.token = some (if equal then .equal else .unequal))
    (hy : (Level.chain .sum).Completes s e' vs (.value .text b)) :
    Level.comparison.Completes s e' (us ++ t :: vs) (.value .boolean (.sameText equal a b)) := by
  intro rest hstops hindex
  obtain ⟨⟨h', hparse'⟩, h, hparse⟩ := hx.operands_parse_eq hcompares hop hy hstops hindex
  rw [List.append_assoc, List.cons_append]
  refine ⟨by simp at h h' ⊢; omega, ?_⟩
  change Formula.comparison s _ = _
  rw [Formula.comparison, hparse']
  simp only [bind, Except.bind, hop, hparse]
  cases equal <;> rfl

/-- No sign: `Level.signed.Completes s e (t :: us) x`. -/
theorem unsigned (hfirst : t.token ≠ .minus ∧ t.token ≠ .plus)
    (hx : Level.power.Completes s e (t :: us) x) : Level.signed.Completes s e (t :: us) x := by
  intro rest hstops hindex
  obtain ⟨h, hparse⟩ := hx.parse_eq rest (hstops.of_reach_le (by decide)) hindex
  refine ⟨h, ?_⟩
  obtain ⟨token, start, stop⟩ := t
  change Formula.signed s (⟨token, start, stop⟩ :: (us ++ rest)) = _
  obtain ⟨hminus, hplus⟩ := hfirst
  rw [Formula.signed.eq_def]
  cases token <;> first | exact hparse | exact absurd rfl hminus | exact absurd rfl hplus

/-- A minus: `Level.signed.Completes s e (t :: us) (.value .number (.negate a))`. -/
theorem minus {a : Expr .number} (ht : t.token = .minus) (hx : Level.signed.Completes s e us x)
    (ha : x.ReadsAs .number a) :
    Level.signed.Completes s e (t :: us) (.value .number (.negate a)) := by
  intro rest hstops hindex
  obtain ⟨h, hparse⟩ := hx.parse_eq rest hstops hindex
  change Formula.signed s _ = _ at hparse
  obtain ⟨token, start, stop⟩ := t
  obtain rfl : token = .minus := ht
  refine ⟨Nat.lt_succ_of_lt h, ?_⟩
  change Formula.signed s (⟨.minus, start, stop⟩ :: (us ++ rest)) = _
  rw [Formula.signed]
  simp only [hparse, ha.coerce_eq, bind, Except.bind, pure, Except.pure]

/-- A plus: `Level.signed.Completes s e (t :: us) (.value .number a)`. -/
theorem plus {a : Expr .number} (ht : t.token = .plus) (hx : Level.signed.Completes s e us x)
    (ha : x.ReadsAs .number a) : Level.signed.Completes s e (t :: us) (.value .number a) := by
  intro rest hstops hindex
  obtain ⟨h, hparse⟩ := hx.parse_eq rest hstops hindex
  change Formula.signed s _ = _ at hparse
  obtain ⟨token, start, stop⟩ := t
  obtain rfl : token = .plus := ht
  refine ⟨Nat.lt_succ_of_lt h, ?_⟩
  change Formula.signed s (⟨.plus, start, stop⟩ :: (us ++ rest)) = _
  rw [Formula.signed]
  simp only [hparse, ha.coerce_eq, bind, Except.bind, pure, Except.pure]

/-- No power: `Level.power.Completes s e us x`. -/
theorem base (hx : Level.primary.Completes s e us x) : Level.power.Completes s e us x := by
  intro rest hstops hindex
  have hprimary : Stops .primary e rest := hstops.of_reach_le (by decide)
  obtain ⟨h, hparse⟩ := hx.parse_eq rest hprimary hindex
  refine ⟨h, ?_⟩
  change Formula.primary s _ = _ at hparse
  change Formula.power s _ = _
  rw [Formula.power, hparse]
  cases rest with
  | nil => rfl
  | cons t rest =>
    obtain ⟨token, start, stop⟩ := t
    have hcaret : token ≠ .caret := (hstops _ rest rfl).caret (.inr (by decide))
    cases token <;> first | rfl | exact absurd rfl hcaret

/-- A power: `Level.power.Completes s e' (us ++ t :: vs) (.value .number (.arith .pow a b))`. -/
theorem power {a b : Expr .number} (hx : Level.primary.Completes s e us x)
    (hbranch : e.branch = false) (ht : t.token = .caret) (hy : Level.signed.Completes s e' vs y)
    (ha : x.ReadsAs .number a) (hb : y.ReadsAs .number b) :
    Level.power.Completes s e' (us ++ t :: vs) (.value .number (.arith .pow a b)) := by
  intro rest hstops hindex
  obtain ⟨h, hparse⟩ := hy.parse_eq rest (hstops.of_reach_le (by decide)) hindex
  obtain ⟨token, start, stop⟩ := t
  obtain rfl : token = .caret := ht
  obtain ⟨h', hparse'⟩ := hx.parse_eq (⟨.caret, start, stop⟩ :: (vs ++ rest))
    (.cons (.of_caret hbranch) _) (.cons (by simp) _)
  change Formula.signed s _ = _ at hparse
  change Formula.primary s _ = _ at hparse'
  rw [List.append_assoc, List.cons_append]
  refine ⟨by simp at h h' ⊢; omega, ?_⟩
  change Formula.power s _ = _
  rw [Formula.power, hparse']
  simp only [hparse, ha.coerce_eq, hb.coerce_eq, bind, Except.bind, pure, Except.pure]

/-- A number: `Level.primary.Completes s .closed [t] (.value .number (.number n))`. -/
theorem number {n : Float} (ht : t.token = .number n) :
    Level.primary.Completes s .closed [t] (.value .number (.number n)) := by
  intro rest _ _
  refine ⟨by simp, ?_⟩
  change Formula.primary s (t :: rest) = _
  rw [Formula.primary, ht]

/-- Text: `Level.primary.Completes s .closed [t] (.value .text (.text content))`. -/
theorem text {content : String} (ht : t.token = .text content) :
    Level.primary.Completes s .closed [t] (.value .text (.text content)) := by
  intro rest _ _
  refine ⟨by simp, ?_⟩
  change Formula.primary s (t :: rest) = _
  rw [Formula.primary, ht]

/-- A formula in parentheses:
`Level.primary.Completes s .closed (opening :: (us ++ [closing])) x`. -/
theorem parens {opening closing : Lexeme} (hopening : opening.token = .openParen)
    (hx : (Level.chain .disjunction).Completes s e us x) (hclosing : closing.token = .closeParen) :
    Level.primary.Completes s .closed (opening :: (us ++ [closing])) x := by
  intro rest _ _
  have hplain := Token.IsPlain.of_separator (.inl hclosing)
  obtain ⟨h, hparse⟩ := hx.parse_eq (closing :: rest) (.cons (hplain.leaves _ _) rest)
    (.cons hplain.bracket rest)
  change chained s .disjunction _ = _ at hparse
  rw [List.cons_append, List.append_assoc, List.singleton_append]
  refine ⟨by simp at h ⊢; omega, ?_⟩
  change Formula.primary s _ = _
  rw [Formula.primary, hopening]
  simp only [hparse, s.expectToken_cons hclosing, bind, Except.bind, pure, Except.pure]

/-- A constant: `Level.primary.Completes s .closed [t] (.value .boolean (.truth b))`. -/
theorem truth {b : Bool} (ht : t.token.isKeyword (if b then "true" else "false") = true) :
    Level.primary.Completes s .closed [t] (.value .boolean (.truth b)) := by
  intro rest _ _
  obtain ⟨raw, hraw, hname⟩ := Token.isKeyword_iff.1 ht
  refine ⟨by simp, ?_⟩
  change Formula.primary s (t :: rest) = _
  rw [primary_word s hraw, named, hname]
  cases b <;> rfl

/-- The position under evaluation:
`Level.primary.Completes s .closed [t] (.value .number .position)`. -/
theorem position (ht : t.token.isKeyword "t" = true) :
    Level.primary.Completes s .closed [t] (.value .number .position) := by
  intro rest _ _
  obtain ⟨raw, hraw, hname⟩ := Token.isKeyword_iff.1 ht
  refine ⟨by simp, ?_⟩
  change Formula.primary s (t :: rest) = _
  rw [primary_word s hraw, named, hname]
  rfl

/-- The category at one position:
`Level.primary.Completes s .closed (t :: us) (.value .text (.category b))`. -/
theorem category {index : Option Index} {b : Bound} (ht : t.token.isKeyword "category" = true)
    (hsuffix : Suffix us index) (hb : index.getD (.point .current) = .point b) :
    Level.primary.Completes s .closed (t :: us) (.value .text (.category b)) := by
  intro rest _ hindex
  obtain ⟨raw, hraw, hname⟩ := Token.isKeyword_iff.1 ht
  obtain ⟨h, hsuffix⟩ := hsuffix.indexSuffix?_eq s hindex
  refine ⟨Nat.lt_succ_of_le h, ?_⟩
  change Formula.primary s (t :: (us ++ rest)) = _
  rw [primary_word s hraw, named, hname]
  change (s.categoryOperand (us ++ rest) >>= _) = _
  rw [Scope.categoryOperand, hsuffix]
  cases index with
  | none =>
    cases hb
    rfl
  | some index =>
    cases hb
    rfl

/-- A series at one position:
`Level.primary.Completes s .closed (t :: us) (.value .number (.point reference b))`. -/
theorem point {raw : String} {reference : Reference} {index : Option Index} {b : Bound}
    (hs : s.inCall = false) (ht : t.token = .word raw)
    (href : Reference.ofName? (Text.asciiLower raw) = some reference) (hsuffix : Suffix us index)
    (hb : index.getD (.point .current) = .point b) :
    Level.primary.Completes s .closed (t :: us) (.value .number (.point reference b)) := by
  intro rest _ hindex
  obtain ⟨h, hsuffix⟩ := hsuffix.indexSuffix?_eq s hindex
  refine ⟨Nat.lt_succ_of_le h, ?_⟩
  change Formula.primary s (t :: (us ++ rest)) = _
  rw [primary_word s ht, named_reference s href, Scope.referenceOperand, hsuffix]
  simp only [bind, Except.bind, hs, hb]
  rfl

/-- A stretch of a series: `Level.primary.Completes s .closed (t :: us) (.stretch ⟨reference,
index.getD (.range .first .last)⟩)`. -/
theorem stretch {raw : String} {reference : Reference} {index : Option Index}
    (hs : s.inCall = true) (ht : t.token = .word raw)
    (href : Reference.ofName? (Text.asciiLower raw) = some reference)
    (hsuffix : Suffix us index) :
    Level.primary.Completes s .closed (t :: us)
      (.stretch ⟨reference, index.getD (.range .first .last)⟩) := by
  intro rest _ hindex
  obtain ⟨h, hsuffix⟩ := hsuffix.indexSuffix?_eq s hindex
  refine ⟨Nat.lt_succ_of_le h, ?_⟩
  change Formula.primary s (t :: (us ++ rest)) = _
  rw [primary_word s ht, named_reference s href, Scope.referenceOperand, hsuffix]
  simp only [bind, Except.bind, hs]
  rfl

/-- A function of one stretch: `Level.primary.Completes s .closed (t :: opening :: (us ++
[closing])) (.value .number (.fold f a))`. -/
theorem fold {raw : String} {f : Fold} {opening closing : Lexeme} {a : Stretch}
    (ht : t.token = .word raw) (hf : Fold.ofName? (Text.asciiLower raw) = some f)
    (hopening : opening.token = .openParen)
    (ha : (Level.chain .disjunction).Completes { s with inCall := true } e us (.stretch a))
    (hclosing : closing.token = .closeParen) :
    Level.primary.Completes s .closed (t :: opening :: (us ++ [closing]))
      (.value .number (.fold f a)) := by
  intro rest _ _
  obtain ⟨hreserved, href⟩ := Fold.of_ofName? hf
  obtain ⟨h, hargument⟩ := argument_eq ha hopening (.of_separator (.inl hclosing)) rest
  rw [List.cons_append, List.cons_append, List.append_assoc, List.singleton_append]
  refine ⟨by simp at h ⊢; omega, ?_⟩
  change Formula.primary s _ = _
  rw [primary_word s ht, named_call s hreserved href (opensParen_cons hopening _), hf]
  simp only [hargument, s.expectToken_cons hclosing, bind, Except.bind, pure, Except.pure]

/-- A function of two stretches: `Level.primary.Completes s .closed (t :: opening :: (us ++ comma ::
(vs ++ [closing]))) (.value .number (.pairFold f a b))`. -/
theorem pairFold {raw : String} {f : PairFold} {opening comma closing : Lexeme} {a b : Stretch}
    (ht : t.token = .word raw) (hf : PairFold.ofName? (Text.asciiLower raw) = some f)
    (hopening : opening.token = .openParen)
    (ha : (Level.chain .disjunction).Completes { s with inCall := true } e us (.stretch a))
    (hcomma : comma.token = .comma)
    (hb : (Level.chain .disjunction).Completes { s with inCall := true } e' vs (.stretch b))
    (hclosing : closing.token = .closeParen) :
    Level.primary.Completes s .closed (t :: opening :: (us ++ comma :: (vs ++ [closing])))
      (.value .number (.pairFold f a b)) := by
  intro rest _ _
  obtain ⟨hreserved, href, hfold⟩ := PairFold.of_ofName? hf
  obtain ⟨h, hfirst⟩ := argument_eq ha hopening (.of_separator (.inr hcomma))
    (vs ++ closing :: rest)
  obtain ⟨h', hsecond⟩ := argument_eq hb hcomma (.of_separator (.inl hclosing)) rest
  rw [List.cons_append, List.cons_append, List.append_assoc, List.cons_append,
    List.append_assoc, List.singleton_append]
  refine ⟨by simp at h h' ⊢; omega, ?_⟩
  change Formula.primary s _ = _
  rw [primary_word s ht, named_call s hreserved href (opensParen_cons hopening _), hfold, hf]
  simp only [hfirst, hsecond, s.expectToken_cons hclosing, bind, Except.bind, pure, Except.pure]

/-- A conditional: `Level.primary.Completes s ⟨true, e''.compares⟩ (t :: (us ++ atThen :: (vs ++
atElse :: ws))) z`. -/
theorem conditional {atThen atElse : Lexeme} {e'' : Ending} {ws : List Lexeme}
    {test yes no z : Operand} {condition : Expr .boolean} (hif : t.token.isKeyword "if" = true)
    (htest : (Level.chain .disjunction).Completes s e us test)
    (hcondition : test.ReadsAs .boolean condition) (hthen : atThen.token.isKeyword "then" = true)
    (hyes : (Level.chain .disjunction).Completes s e' vs yes)
    (helse : atElse.token.isKeyword "else" = true)
    (hno : (Level.chain .disjunction).Completes s e'' ws no)
    (hz : Operand.Joins condition yes no z) :
    Level.primary.Completes s ⟨true, e''.compares⟩
      (t :: (us ++ atThen :: (vs ++ atElse :: ws))) z := by
  intro rest hstops hindex
  obtain ⟨raw, hraw, hname⟩ := Token.isKeyword_iff.1 hif
  have hplain : atThen.token.IsPlain := .of_isKeyword hthen (by decide) (by decide)
  have hplain' : atElse.token.IsPlain := .of_isKeyword helse (by decide) (by decide)
  obtain ⟨h, htest⟩ := htest.parse_eq (atThen :: (vs ++ atElse :: (ws ++ rest)))
    (.cons (hplain.leaves _ _) _) (.cons hplain.bracket _)
  obtain ⟨h', hyes⟩ := hyes.parse_eq (atElse :: (ws ++ rest))
    (.cons (hplain'.leaves _ _) _) (.cons hplain'.bracket _)
  -- the last branch leaves what the whole leaves
  have hlast : Stops (.chain .disjunction) e'' rest := fun u us' hrest =>
    have hleaves := hstops u us' hrest
    ⟨hleaves.compare, fun _ => hleaves.caret (.inl rfl), fun l _ => hleaves.chain l (.inl rfl)⟩
  obtain ⟨h'', hno⟩ := hno.parse_eq rest hlast hindex
  change chained s .disjunction _ = _ at htest hyes hno
  rw [List.cons_append, List.append_assoc, List.cons_append, List.append_assoc, List.cons_append]
  refine ⟨by simp at h h' h'' ⊢; omega, ?_⟩
  change Formula.primary s _ = _
  rw [primary_word s hraw, named, if_pos hname, Formula.conditional, htest]
  simp only [bind, Except.bind, hcondition.coerce_eq, s.expectKeyword_cons hthen, hyes,
    s.expectKeyword_cons helse, hno, Operand.branches_eq_ok_iff.2 hz, pure, Except.pure]

end Level.Completes

/-- **Every derivation fixes what the parser answers**: `level.Completes s e us x`. -/
theorem Derives.completes {c : Bool} {level : Level} {e : Ending} {us : List Lexeme} {x : Operand}
    (hx : Derives c level e us x) (s : Scope) (hs : s.inCall = c) : level.Completes s e us x := by
  -- arguments of functions are read in a scope of their own
  induction hx generalizing s with
  | operand _ ih => exact (ih s hs).operand
  | chain _ hbranch hop _ ha hb ihx ihy => exact (ihx s hs).chain hbranch hop (ihy s hs) ha hb
  | affirmed hx ih =>
    obtain ⟨t, rest, rfl, hnot, -⟩ := hx.first
    exact .affirmed (hnot rfl) (ih s hs)
  | complement ht _ ha ih => exact .complement ht (ih s hs) ha
  | alone _ ih => exact (ih s hs).alone
  | compare _ hcompares hop _ ha hb ihx ihy =>
    exact (ihx s hs).compare hcompares hop (ihy s hs) ha hb
  | sameText _ hcompares hop _ ihx ihy => exact (ihx s hs).sameText hcompares hop (ihy s hs)
  | unsigned hx ih =>
    obtain ⟨t, rest, rfl, -, hsign⟩ := hx.first
    exact .unsigned (hsign rfl) (ih s hs)
  | minus ht _ ha ih => exact .minus ht (ih s hs) ha
  | plus ht _ ha ih => exact .plus ht (ih s hs) ha
  | base _ ih => exact (ih s hs).base
  | power _ hbranch ht _ ha hb ihx ihy => exact (ihx s hs).power hbranch ht (ihy s hs) ha hb
  | number ht => exact .number ht
  | text ht => exact .text ht
  | parens hopening _ hclosing ih => exact .parens hopening (ih s hs) hclosing
  | truth ht => exact .truth ht
  | position ht => exact .position ht
  | category ht hsuffix hb => exact .category ht hsuffix hb
  | point ht href hsuffix hb => exact .point hs ht href hsuffix hb
  | stretch ht href hsuffix => exact .stretch hs ht href hsuffix
  | fold ht hf hopening _ hclosing ih =>
    exact .fold ht hf hopening (ih { s with inCall := true } rfl) hclosing
  | pairFold ht hf hopening _ hcomma _ hclosing iha ihb =>
    exact .pairFold ht hf hopening (iha { s with inCall := true } rfl) hcomma
      (ihb { s with inCall := true } rfl) hclosing
  | conditional hif _ hcondition hthen _ helse _ hz iht ihy ihn =>
    exact .conditional hif (iht s hs) hcondition hthen (ihy s hs) helse (ihn s hs) hz

/-! ## (4) Formulas -/

/-- `x.asResult = .ok e ↔ x.ReadsAs .number e`: a formula is read as a number, or there is an
error. -/
theorem Operand.asResult_eq_ok_iff {x : Operand} {e : Expr .number} :
    x.asResult = .ok e ↔ x.ReadsAs .number e := by
  constructor
  · intro h
    cases x with
    | stretch a => cases h
    | value τ a => cases τ <;> cases h <;> constructor
  · intro h
    cases h <;> rfl

/-- A whole phrase is read to its end: `∃ h, chained s .disjunction ts = .ok (x, ⟨[], h⟩)`. -/
theorem Derives.parse_whole {s : Scope} {e : Ending} {ts : List Lexeme} {x : Operand}
    (hx : Derives s.inCall (.chain .disjunction) e ts x) :
    ∃ h, chained s .disjunction ts = .ok (x, ⟨[], h⟩) := by
  have hread := (hx.completes s rfl).parse_eq [] nofun nofun
  rw [List.append_nil] at hread
  exact hread

/-- **A formula has one tree**: `e = e'`. -/
theorem IsFormula.unique {ts : List Lexeme} {e e' : Expr .number} (h : IsFormula ts e)
    (h' : IsFormula ts e') : e = e' := by
  obtain ⟨ending, x, hx, he⟩ := h
  obtain ⟨ending', x', hx', he'⟩ := h'
  obtain ⟨_, hparse⟩ := hx.parse_whole (s := ⟨0, false⟩)
  obtain ⟨_, hparse'⟩ := hx'.parse_whole (s := ⟨0, false⟩)
  -- both derivations tell what the one parser answers
  obtain rfl : x = x' := by
    have hsame := Except.ok.inj (hparse.symm.trans hparse')
    exact congrArg Prod.fst hsame
  exact Except.ok.inj ((Operand.asResult_eq_ok_iff.2 he).symm.trans
    (Operand.asResult_eq_ok_iff.2 he'))

/-- **The tree of a formula.** The parser answers with a tree just when the lexemes of the text are
a formula with that tree:
`parse source = .ok e ↔ ∃ ts, tokenize source = .ok ts ∧ IsFormula ts e`. -/
theorem parse_eq_ok_iff {source : String} {e : Expr .number} :
    parse source = .ok e ↔ ∃ ts, tokenize source = .ok ts ∧ IsFormula ts e := by
  constructor
  · intro h
    suffices hmeets : Meets (parse source)
        (fun e => ∃ ts, tokenize source = .ok ts ∧ IsFormula ts e) (fun _ => True) from
      hmeets.of_ok h
    unfold parse
    cases htokens : tokenize source with
    | error err => trivial
    | ok ts =>
      change Meets (chained _ _ ts >>= _) _ _
      refine Meets.bind (Level.parse_sound ⟨source.utf8ByteSize, false⟩ (.chain .disjunction) ts) ?_
      rintro ⟨x, rest, h⟩ ⟨ending, us, hus, hx, _⟩
      cases rest with
      | cons t rest => trivial
      | nil =>
        dsimp only at hus hx ⊢
        obtain rfl : ts = us := by rw [hus, List.append_nil]
        cases hresult : x.asResult with
        | error err => trivial
        | ok e => exact ⟨ts, rfl, ending, x, hx, Operand.asResult_eq_ok_iff.1 hresult⟩
  · rintro ⟨ts, htokens, ending, x, hx, hresult⟩
    obtain ⟨h, hparse⟩ := hx.parse_whole (s := ⟨source.utf8ByteSize, false⟩)
    unfold parse
    rw [htokens]
    simp only [bind, Except.bind, hparse]
    exact Operand.asResult_eq_ok_iff.2 hresult

end PanelQuery.Formula
