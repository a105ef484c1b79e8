import PanelQuery.Proofs.Formula.Compilation
import PanelQuery.Proofs.Formula.Spelling
import PanelQuery.Proofs.Formula.Surface
import PanelQuery.Proofs.Number.Digits

/-! # Written formulas are accepted

Every formula that makes sense is derived from the tokens that it is written in, however these are
spelled, by an expression with the code of the formula. The parentheses that are left out are never
missed: a phrase whose level is tight enough is a phrase of every looser level, and since
conditionals are always in parentheses when they are operands, no operand ends in a branch that
could take the operator after it.

* **`Phrase`, `Phrase.loosen`** — phrases that can be operands;
* **`exists_readsAs`, `exists_joins`** — conversions of operands and branches;
* **`Spells`** — lexemes that spell tokens;
* **`exists_suffix`, `Reading.exists_reference`** — series and indices;
* **`Phrase.unary`, `Phrase.binary`** — operators;
* **`Tree.accepted_of_wellTyped`** — formulas;
* **`Tree.compile_of_spells`** — their programs. -/

namespace PanelQuery.Formula

/-! ## (1) Phrases that operators may follow -/

/-- `Phrase level us x`: a phrase of a level outside of calls that no conditional ends, so that it
can be an operand, and that has not been compared as long as its level is too tight for that. -/
def Phrase (level : Level) (us : List Lexeme) (x : Operand) : Prop :=
  ∃ e, Derives false level e us x ∧ e.branch = false ∧ (level.rank ≤ 4 → e.compares = false)

/-- The next looser level. -/
def Level.looser : Level → Level
  | .primary => .power
  | .power => .signed
  | .signed => .chain .product
  | .chain .product => .chain .sum
  | .chain .sum => .comparison
  | .comparison => .complement
  | .complement => .chain .conjunction
  | .chain _ => .chain .disjunction

/-- `level.looser.rank = level.rank + 1`: it is one step looser, except for the loosest. -/
theorem Level.rank_looser (level : Level) (h : level.rank < 8) :
    level.looser.rank = level.rank + 1 := by
  cases level with
  | chain l => cases l <;> first | rfl | exact absurd h (by decide)
  | _ => rfl

/-- Levels are told apart by how loose they are: `Function.Injective Level.rank`. -/
theorem Level.rank_injective : Function.Injective Level.rank := by
  intro level level' h
  rcases level with (_ | _ | _ | _) | _ | _ | _ | _ | _ <;>
    rcases level' with (_ | _ | _ | _) | _ | _ | _ | _ | _ <;>
    first | rfl | exact absurd h (by decide)

/-- The levels go up to the loosest: `level.rank ≤ 8`. -/
theorem Level.rank_le (level : Level) : level.rank ≤ 8 := by
  cases level with
  | chain l => cases l <;> decide
  | _ => decide

namespace Phrase

variable {level wanted : Level} {us vs : List Lexeme} {t : Lexeme} {x y : Operand}

/-- A primary: `Phrase .primary us x`. -/
theorem primary (h : Derives false .primary .closed us x) : Phrase .primary us x :=
  ⟨_, h, rfl, fun _ => rfl⟩

/-- A phrase of a level is one of the next looser level: `Phrase level.looser us x`. -/
theorem looser (h : Phrase level us x) : Phrase level.looser us x := by
  obtain ⟨e, h, hbranch, hcompares⟩ := h
  cases level with
  | primary => exact ⟨e, .base h, hbranch, fun _ => hcompares (by decide)⟩
  | power => exact ⟨e, .unsigned h, hbranch, fun _ => hcompares (by decide)⟩
  | signed => exact ⟨e, .operand h, hbranch, fun _ => hcompares (by decide)⟩
  | comparison => exact ⟨e, .affirmed h, hbranch, fun hle => absurd hle (by decide)⟩
  | complement => exact ⟨e, .operand h, hbranch, fun hle => absurd hle (by decide)⟩
  | chain l =>
    cases l with
    | product => exact ⟨e, .operand h, hbranch, fun _ => hcompares (by decide)⟩
    | sum => exact ⟨_, .alone h, hbranch, fun hle => absurd hle (by decide)⟩
    | conjunction => exact ⟨e, .operand h, hbranch, fun hle => absurd hle (by decide)⟩
    | disjunction => exact ⟨e, h, hbranch, fun hle => absurd hle (by decide)⟩

/-- **Tight phrases are loose phrases**: `Phrase wanted us x`. -/
theorem loosen (h : Phrase level us x) (hle : level.rank ≤ wanted.rank) : Phrase wanted us x := by
  -- on the number of levels in between
  obtain ⟨n, hn⟩ := Nat.exists_eq_add_of_le hle
  induction n generalizing level with
  | zero => exact Level.rank_injective hn.symm ▸ h
  | succ n ih =>
    have hloosest := wanted.rank_le
    have hrank := level.rank_looser (by omega)
    exact ih h.looser (by omega) (by omega)

/-- Whatever is enclosed in parentheses is a primary:
`Phrase .primary (opening :: (us ++ [closing])) x`. -/
theorem parens {opening closing : Lexeme} {e : Ending} (hopening : opening.token = .openParen)
    (h : Derives false (.chain .disjunction) e us x) (hclosing : closing.token = .closeParen) :
    Phrase .primary (opening :: (us ++ [closing])) x :=
  primary (.parens hopening h hclosing)

/-- Operands of an operator that groups to the left:
`Phrase (.chain l) (us ++ t :: vs) (.value op.ty (op.apply a b))`. -/
theorem chain {l : Chain} {op : LeftOp} {a b : Expr op.ty} (hx : Phrase (.chain l) us x)
    (ht : l.operator? t.token = some op) (hy : Phrase (.operand l) vs y)
    (ha : x.ReadsAs op.ty a) (hb : y.ReadsAs op.ty b) :
    Phrase (.chain l) (us ++ t :: vs) (.value op.ty (op.apply a b)) := by
  obtain ⟨e, hx, hbranch, -⟩ := hx
  obtain ⟨e', hy, hbranch', hcompares'⟩ := hy
  refine ⟨e', .chain hx hbranch ht hy ha hb, hbranch', fun hle => hcompares' ?_⟩
  exact Nat.le_trans (by cases l <;> decide) hle

/-- Operands of a power: `Phrase .power (us ++ t :: vs) (.value .number (.arith .pow a b))`. -/
theorem power {a b : Expr .number} (hx : Phrase .primary us x) (ht : t.token = .caret)
    (hy : Phrase .signed vs y) (ha : x.ReadsAs .number a) (hb : y.ReadsAs .number b) :
    Phrase .power (us ++ t :: vs) (.value .number (.arith .pow a b)) := by
  obtain ⟨e, hx, hbranch, -⟩ := hx
  obtain ⟨e', hy, hbranch', hcompares'⟩ := hy
  exact ⟨e', .power hx hbranch ht hy ha hb, hbranch', fun _ => hcompares' (by decide)⟩

end Phrase

/-! ## (2) Conversions -/

section Conversions

variable {σ τ : Ty}

/-- A value that can be used as one of a type is converted to it:
`∃ a : Expr τ, (Operand.value σ x).ReadsAs τ a ∧ a.fragment = x.fragment.convert σ τ`. -/
theorem exists_readsAs (x : Expr σ) (h : σ.ReadsAs τ) :
    ∃ a : Expr τ, (Operand.value σ x).ReadsAs τ a ∧ a.fragment = x.fragment.convert σ τ := by
  cases σ with
  | number =>
    cases τ with
    | number => exact ⟨x, .same x, rfl⟩
    | boolean => exact ⟨.toBoolean x, .toBoolean x, rfl⟩
    | text => cases h.2 rfl
  | boolean =>
    cases τ with
    | number => exact ⟨.toNumber x, .toNumber x, rfl⟩
    | boolean => exact ⟨x, .same x, rfl⟩
    | text => cases h.2 rfl
  | text =>
    obtain rfl := h.1 rfl
    exact ⟨x, .same x, rfl⟩

/-- Branches that go together are joined. -/
theorem exists_joins (condition : Expr .boolean) (x : Expr σ) (y : Expr τ) (h : σ.ReadsAs τ) :
    ∃ z : Expr (σ.join τ), Operand.Joins condition (.value σ x) (.value τ y) (.value _ z) ∧
      z.fragment = .choose condition.fragment (x.fragment.convert σ (σ.join τ))
        (y.fragment.convert τ (σ.join τ)) := by
  cases σ with
  | number =>
    cases τ with
    | number => exact ⟨_, .same x y, rfl⟩
    | boolean => exact ⟨_, .second x y, rfl⟩
    | text => cases h.2 rfl
  | boolean =>
    cases τ with
    | number => exact ⟨_, .first x y, rfl⟩
    | boolean => exact ⟨_, .same x y, rfl⟩
    | text => cases h.2 rfl
  | text =>
    obtain rfl := h.1 rfl
    exact ⟨_, .same x y, rfl⟩

end Conversions

/-! ## (3) Lexemes of tokens -/

/-- `Spells us ts`: lexemes that spell tokens, each in one of its spellings. -/
def Spells (us : List Lexeme) (ts : List Token) : Prop := us.map (fun u => u.token.canonical) = ts

section Lexemes

variable {us : List Lexeme} {t : Token} {ts ts' : List Token}

/-- `Spells us (t :: ts) ↔ ∃ u vs, us = u :: vs ∧ u.token.canonical = t ∧ Spells vs ts`: lexemes of
a token and others. -/
theorem spells_cons : Spells us (t :: ts) ↔
    ∃ u vs, us = u :: vs ∧ u.token.canonical = t ∧ Spells vs ts :=
  List.map_eq_cons_iff

/-- `Spells us (ts ++ ts') ↔ ∃ vs ws, us = vs ++ ws ∧ Spells vs ts ∧ Spells ws ts'`: lexemes of
tokens and more tokens. -/
theorem spells_append : Spells us (ts ++ ts') ↔
    ∃ vs ws, us = vs ++ ws ∧ Spells vs ts ∧ Spells ws ts' :=
  List.map_eq_append_iff

/-- `Spells us [] ↔ us = []`: no lexemes of no tokens. -/
theorem spells_nil : Spells us [] ↔ us = [] := List.map_eq_nil_iff

/-- `Spells us [t] ↔ ∃ u, us = [u] ∧ u.token.canonical = t`: a lexeme of a token. -/
theorem spells_singleton : Spells us [t] ↔ ∃ u, us = [u] ∧ u.token.canonical = t :=
  List.map_eq_singleton_iff

/-- Lexemes of tokens between two others: `Spells us (t :: (ts ++ [t']))` just when there are `u`,
`vs` and `w` with
`us = u :: (vs ++ [w]) ∧ u.token.canonical = t ∧ Spells vs ts ∧ w.token.canonical = t'`. -/
theorem spells_between {t' : Token} : Spells us (t :: (ts ++ [t'])) ↔
    ∃ u vs w, us = u :: (vs ++ [w]) ∧ u.token.canonical = t ∧ Spells vs ts ∧
      w.token.canonical = t' := by
  constructor
  · intro h
    obtain ⟨u, _, rfl, hu, h⟩ := spells_cons.1 h
    obtain ⟨vs, _, rfl, hvs, h⟩ := spells_append.1 h
    obtain ⟨w, rfl, hw⟩ := spells_singleton.1 h
    exact ⟨u, vs, w, rfl, hu, hvs, hw⟩
  · rintro ⟨u, vs, w, rfl, hu, hvs, hw⟩
    exact spells_cons.2 ⟨u, _, rfl, hu, spells_append.2 ⟨vs, [w], rfl, hvs,
      spells_singleton.2 ⟨w, rfl, hw⟩⟩⟩

end Lexemes

/-! ## (4) Series and indices -/

section Indices

variable {us vs : List Lexeme}

/-- A term of a position: `∃ b, Term us b ∧ b.code = [s.op]`. -/
theorem IndexTerm.exists_term (s : IndexTerm) (hs : s.IsWhole) (h : Spells us s.tokens) :
    ∃ b, Term us b ∧ b.code = [s.op] := by
  have hname : ∀ {name : String} {b : Bound}, Spells us [.word name] → name ≠ "average" →
      Bound.ofName? name = some b → Term us b := by
    intro name b h hne hb
    obtain ⟨u, rfl, hu⟩ := spells_singleton.1 h
    obtain ⟨raw, hraw, hlower⟩ := Token.asciiLower_of_canonical hu hne
    exact .name hraw (hlower ▸ hb)
  cases s with
  | first => exact ⟨_, hname h (by decide) rfl, rfl⟩
  | last => exact ⟨_, hname h (by decide) rfl, rfl⟩
  | current => exact ⟨_, hname h (by decide) rfl, rfl⟩
  | whole negative x =>
    obtain ⟨n, hn⟩ := Option.isSome_iff_exists.1 hs
    cases negative with
    | false =>
      obtain ⟨u, rfl, hu⟩ := spells_singleton.1 h
      refine ⟨_, .number (Token.eq_of_canonical hu rfl) hn, ?_⟩
      rw [IndexTerm.op, hn]
      rfl
    | true =>
      obtain ⟨sign, vs, rfl, hsign, h⟩ := spells_cons.1 h
      obtain ⟨u, rfl, hu⟩ := spells_singleton.1 h
      refine ⟨_, .negative (Token.eq_of_canonical hsign rfl) (Token.eq_of_canonical hu rfl) hn, ?_⟩
      rw [IndexTerm.op, hn]
      rfl

/-- Further terms of a position: there is `b'` with `Position (us ++ vs) b'` and
`b'.code = b.code ++ more.flatMap fun u => [u.2.op, if u.1 then .sub else .add]`. -/
theorem exists_position_append {b : Bound} (hb : Position us b) (more : List (Bool × IndexTerm))
    (hmore : ∀ u ∈ more, u.2.IsWhole)
    (h : Spells vs (more.flatMap fun u => (if u.1 then .minus else .plus) :: u.2.tokens)) :
    ∃ b', Position (us ++ vs) b' ∧
      b'.code = b.code ++ more.flatMap fun u => [u.2.op, if u.1 then .sub else .add] := by
  -- on the terms; the next one joins the position so far, since terms group to the left
  induction more generalizing us vs b with
  | nil =>
    obtain rfl := spells_nil.1 h
    rw [List.append_nil, List.flatMap_nil, List.append_nil]
    exact ⟨b, hb, rfl⟩
  | cons u more ih =>
    obtain ⟨negative, s⟩ := u
    obtain ⟨hs, hmore⟩ := List.forall_mem_cons.1 hmore
    rw [List.flatMap_cons, List.cons_append] at h
    obtain ⟨sign, _, rfl, hsign, h⟩ := spells_cons.1 h
    obtain ⟨ws, vs, rfl, hws, hvs⟩ := spells_append.1 h
    obtain ⟨c, hc, hcode⟩ := s.exists_term hs hws
    have hnext : ∃ b', Position (us ++ sign :: ws) b' ∧
        b'.code = b.code ++ [s.op, if negative then .sub else .add] := by
      cases negative with
      | false =>
        refine ⟨_, .add hb (Token.eq_of_canonical hsign rfl) hc, ?_⟩
        rw [Bound.code, hcode, List.append_assoc]
        rfl
      | true =>
        refine ⟨_, .sub hb (Token.eq_of_canonical hsign rfl) hc, ?_⟩
        rw [Bound.code, hcode, List.append_assoc]
        rfl
    obtain ⟨b', hb', hcode'⟩ := hnext
    obtain ⟨b'', hb'', hcode''⟩ := ih hb' hmore hvs
    refine ⟨b'', ?_, ?_⟩
    · rwa [List.append_assoc, List.cons_append] at hb''
    · rw [hcode'', hcode', List.append_assoc, List.flatMap_cons]

/-- A position: `∃ b, Position us b ∧ b.code = s.code`. -/
theorem IndexSum.exists_position (s : IndexSum) (hs : s.IsWhole) (h : Spells us s.tokens) :
    ∃ b, Position us b ∧ b.code = s.code := by
  obtain ⟨vs, ws, rfl, hvs, hws⟩ := spells_append.1 h
  obtain ⟨b, hb, hcode⟩ := s.head.exists_term hs.1 hvs
  obtain ⟨b', hb', hcode'⟩ := exists_position_append (.term hb) s.more hs.2 hws
  exact ⟨b', hb', by rw [hcode', hcode]; rfl⟩

/-- An index in brackets:
`∃ index, Suffix us (some index) ∧ index.spec = i.spec ∧ (i.isPoint → ∃ b, index = .point b)`. -/
theorem Pick.exists_suffix (i : Pick) (hi : i.IsWhole) (h : Spells us i.tokens) :
    ∃ index, Suffix us (some index) ∧ index.spec = i.spec ∧
      (i.isPoint → ∃ b, index = .point b) := by
  cases i with
  | point s =>
    obtain ⟨u, vs, w, rfl, hu, hvs, hw⟩ := spells_between.1 h
    obtain ⟨b, hb, hcode⟩ := s.exists_position hi hvs
    refine ⟨.point b, .point (Token.eq_of_canonical hu rfl) hb (Token.eq_of_canonical hw rfl), ?_,
      fun _ => ⟨b, rfl⟩⟩
    rw [Index.spec, hcode, Pick.spec]
  | range low high =>
    obtain ⟨u, _, rfl, hu, h⟩ := spells_cons.1 h
    obtain ⟨vs, _, rfl, hvs, h⟩ := spells_append.1 h
    obtain ⟨colon, ws, w, rfl, hcolon, hws, hw⟩ := spells_between.1 h
    obtain ⟨a, ha, hlow⟩ := low.exists_position hi.1 hvs
    obtain ⟨b, hb, hhigh⟩ := high.exists_position hi.2 hws
    refine ⟨.range a b, .range (Token.eq_of_canonical hu rfl) ha (Token.eq_of_canonical hcolon rfl)
      hb (Token.eq_of_canonical hw rfl), ?_, fun hpoint => (by cases hpoint)⟩
    rw [Index.spec, hlow, hhigh, Pick.spec]

/-- The index after a series or the category, if there is one, and what it picks. -/
theorem exists_suffix (index : Option Pick) (hindex : ∀ i ∈ index, i.IsWhole)
    (h : Spells us (index.elim [] Pick.tokens)) :
    ∃ i, Suffix us i ∧ (i.getD (.range .first .last)).spec = Reading.stretchSpec index ∧
      ((∀ i ∈ index, i.isPoint) →
        ∃ b, i.getD (.point .current) = .point b ∧ .point b.code = Reading.pointSpec index) := by
  cases index with
  | none =>
    obtain rfl := spells_nil.1 h
    exact ⟨none, .none, rfl, fun _ => ⟨.current, rfl, rfl⟩⟩
  | some i =>
    obtain ⟨j, hj, hspec, hpoint⟩ := i.exists_suffix (hindex i rfl) h
    refine ⟨some j, hj, hspec, fun hall => ?_⟩
    obtain ⟨b, rfl⟩ := hpoint (hall i rfl)
    exact ⟨b, rfl, hspec⟩

/-- `(Reference.field n).name.toList = 'v' :: 'a' :: 'l' :: Nat.toDigits 10 (n + 1)`: the characters
of the name of a field. -/
theorem Reference.toList_name (n : Nat) :
    (Reference.field n).name.toList = 'v' :: 'a' :: 'l' :: Nat.toDigits 10 (n + 1) := by
  rw [Reference.name, String.toList_append, Nat.toString_eq_ofList_toDigits]
  exact congrArg (['v', 'a', 'l'] ++ ·) String.toList_ofList

/-- `readCount? (String.ofList (Nat.toDigits 10 m)) = some m`: the digits of a count are read as the
count. -/
theorem readCount?_toDigits {m : Nat} (hm : m < twoPow 64) :
    readCount? (String.ofList (Nat.toDigits 10 m)) = some m := by
  have hall : ∀ c ∈ Nat.toDigits 10 m, isDigit c = true := fun c => isDigit_of_mem_toDigits
  -- a digit is no plus
  have hunsigned : ∀ rest, Nat.toDigits 10 m ≠ '+' :: rest := fun rest heq =>
    absurd (hall '+' (heq ▸ List.mem_cons_self)) (by decide)
  have hdigits : ¬((Nat.toDigits 10 m).isEmpty || !(Nat.toDigits 10 m).all isDigit) = true := by
    rw [List.all_eq_true.2 hall]
    simp [Nat.toDigits_ne_nil]
  unfold readCount?
  rw [String.toList_ofList]
  split
  · rename_i rest heq
    exact absurd heq (hunsigned rest)
  · rw [if_neg hdigits, digitsValue_toDigits]
    exact if_pos hm

/-- `ofName? r.name = some r`: a series whose number can be read is found by its name. -/
theorem Reference.ofName?_name {r : Reference} (h : r.IsNamed) : ofName? r.name = some r := by
  cases r with
  | broadcast => rfl
  | output => rfl
  | field n =>
    have hval : (field n).name ≠ "val" := fun heq => by
      have hlist := congrArg String.toList heq
      rw [toList_name] at hlist
      exact Nat.toDigits_ne_nil (List.cons.inj (List.cons.inj (List.cons.inj hlist).2).2).2
    have hthis : (field n).name ≠ "this" := fun heq => by
      have hlist := congrArg String.toList heq
      rw [toList_name] at hlist
      exact absurd (List.cons.inj hlist).1 (by decide)
    simp only [ofName?, if_neg hval, if_neg hthis, toList_name, readCount?_toDigits h]

/-- A function of one stretch is found by its name:
`∃ raw, t = .word raw ∧ Fold.ofName? (Text.asciiLower raw) = some f`. -/
theorem Fold.exists_ofName? {t : Token} {f : Fold} (h : t.canonical = .word f.name) :
    ∃ raw, t = .word raw ∧ Fold.ofName? (Text.asciiLower raw) = some f := by
  obtain ⟨raw, rfl, hraw | ⟨hmean, haverage⟩⟩ := Token.exists_word_of_canonical h
  · refine ⟨raw, rfl, ?_⟩
    rw [hraw]
    cases f <;> rfl
  · refine ⟨raw, rfl, ?_⟩
    rw [hmean]
    cases f <;> first | rfl | exact absurd haverage (by decide)

/-- A function of two stretches is found by its name:
`∃ raw, t = .word raw ∧ PairFold.ofName? (Text.asciiLower raw) = some f`. -/
theorem PairFold.exists_ofName? {t : Token} {f : PairFold} (h : t.canonical = .word f.name) :
    ∃ raw, t = .word raw ∧ PairFold.ofName? (Text.asciiLower raw) = some f := by
  obtain ⟨raw, rfl, hraw⟩ := Token.asciiLower_of_canonical h (by cases f <;> decide)
  refine ⟨raw, rfl, ?_⟩
  rw [hraw]
  cases f <;> rfl

/-- A series in tokens: its name, and the index after it. -/
theorem Reading.exists_reference (r : Reading) (hr : r.IsWhole) (h : Spells us r.tokens) :
    ∃ u vs raw, us = u :: vs ∧ u.token = .word raw ∧
      Reference.ofName? (Text.asciiLower raw) = some r.reference ∧
      Spells vs (r.index.elim [] Pick.tokens) := by
  obtain ⟨u, vs, rfl, hu, hvs⟩ := spells_cons.1 h
  have haverage : r.reference.name ≠ "average" := by
    intro heq
    have hfound := Reference.ofName?_name hr.1
    rw [heq] at hfound
    cases hfound
  obtain ⟨raw, hraw, hlower⟩ := Token.asciiLower_of_canonical hu haverage
  exact ⟨u, vs, raw, rfl, hraw, hlower ▸ Reference.ofName?_name hr.1, hvs⟩

/-- A series in a call is a stretch: there are `e` and `i` with
`Derives true (.chain .disjunction) e us (.stretch ⟨r.reference, i⟩)` and
`i.spec = Reading.stretchSpec r.index`. -/
theorem Reading.exists_stretch (r : Reading) (hr : r.IsWhole) (h : Spells us r.tokens) :
    ∃ e i, Derives true (.chain .disjunction) e us (.stretch ⟨r.reference, i⟩) ∧
      i.spec = Reading.stretchSpec r.index := by
  obtain ⟨u, vs, raw, rfl, hraw, hname, hvs⟩ := r.exists_reference hr h
  obtain ⟨i, hi, hspec, -⟩ := exists_suffix r.index hr.2 hvs
  exact ⟨_, _, .operand (.operand (.affirmed (.alone (.operand (.operand (.unsigned
    (.base (.stretch hraw hname hi)))))))), hspec⟩

end Indices

/-! ## (5) Operators -/

section Operators

variable {us vs : List Lexeme} {t : Lexeme} {σ τ : Ty} {x : Expr σ} {y : Expr τ}

/-- An operator before an operand: for some `z : Expr op.ty`,
`Phrase op.level (t :: us) (.value op.ty z)` and
`z.fragment = op.code (x.fragment.convert σ op.ty)`. -/
theorem Phrase.unary {op : UnaryOp} (ht : t.token.canonical = op.token)
    (hx : Phrase op.level.right us (.value σ x)) (hσ : σ.ReadsAs op.ty) :
    ∃ z : Expr op.ty, Phrase op.level (t :: us) (.value op.ty z) ∧
      z.fragment = op.code (x.fragment.convert σ op.ty) := by
  obtain ⟨a, ha, hcode⟩ := exists_readsAs x hσ
  obtain ⟨e, hx, hbranch, hcompares⟩ := hx
  cases op with
  | negate =>
    exact ⟨.negate a, ⟨e, .minus (Token.eq_of_canonical ht rfl) hx ha, hbranch, hcompares⟩,
      congrArg (· ++ Fragment.op .negate) hcode⟩
  | keep =>
    exact ⟨a, ⟨e, .plus (Token.eq_of_canonical ht rfl) hx ha, hbranch, hcompares⟩, hcode⟩
  | complement =>
    exact ⟨.complement a, ⟨e, .complement (Token.isNot_of_canonical ht) hx ha, hbranch, hcompares⟩,
      congrArg (· ++ Fragment.op .complement) hcode⟩

/-- `CompareOp.ofToken? t.token = some op`: the sign of a comparison stands for it. -/
theorem CompareOp.ofToken?_of_canonical {op : CompareOp} (h : t.token.canonical = op.token) :
    CompareOp.ofToken? t.token = some op := by
  rw [Token.eq_of_canonical h (by cases op <;> rfl)]
  cases op <;> rfl

/-- A comparison of two numbers or of two texts. -/
theorem Phrase.compare {op : CompareOp} (ht : t.token.canonical = op.token)
    (hx : Phrase (.chain .sum) us (.value σ x)) (hy : Phrase (.chain .sum) vs (.value τ y))
    (hσ : σ.ReadsAs ((BinaryOp.compare op).operands σ))
    (hτ : τ.ReadsAs ((BinaryOp.compare op).operands σ)) (hop : (BinaryOp.compare op).Allows σ) :
    ∃ z : Expr .boolean, Phrase .comparison (us ++ t :: vs) (.value .boolean z) ∧
      z.fragment = x.fragment.convert σ ((BinaryOp.compare op).operands σ) ++
        y.fragment.convert τ ((BinaryOp.compare op).operands σ) ++
          .op ((BinaryOp.compare op).op σ) := by
  have hoperator := CompareOp.ofToken?_of_canonical ht
  by_cases htext : σ = .text
  · -- two texts
    subst htext
    obtain rfl : τ = .text := hτ.2 rfl
    obtain ⟨e, hx, -, hcompares⟩ := hx
    obtain ⟨e', hy, hbranch', hcompares'⟩ := hy
    have hequal : CompareOp.ofToken? t.token =
        some (if op == .equal then .equal else .unequal) := by
      rw [hoperator]
      rcases hop with rfl | rfl <;> rfl
    exact ⟨.sameText (op == .equal) x y, ⟨e', .sameText hx (hcompares (by decide)) hequal hy,
      hbranch', fun hle => absurd hle (by decide)⟩, rfl⟩
  · -- two numbers
    have hnumber : (BinaryOp.compare op).operands σ = .number := by
      cases σ <;> first | rfl | exact absurd rfl htext
    have hsame : (BinaryOp.compare op).op σ = .compare op := by
      cases σ <;> first | rfl | exact absurd rfl htext
    rw [hnumber] at hσ hτ ⊢
    rw [hsame]
    obtain ⟨a, ha, hcode⟩ := exists_readsAs x hσ
    obtain ⟨b, hb, hcode'⟩ := exists_readsAs y hτ
    obtain ⟨e, hx, -, hcompares⟩ := hx
    obtain ⟨e', hy, hbranch', hcompares'⟩ := hy
    exact ⟨.compare op a b, ⟨e', .compare hx (hcompares (by decide)) hoperator hy ha hb,
      hbranch', fun hle => absurd hle (by decide)⟩,
      congrArg₂ (fun f g => f ++ g ++ Fragment.op (.compare op)) hcode hcode'⟩

/-- An operator on numbers is one of those that group to the left, or a power:
`Phrase op.level (us ++ t :: vs) (.value .number (.arith op a b))`. -/
theorem Phrase.arith {op : ArithOp} {a b : Expr .number} (ht : t.token.canonical = op.token)
    (hx : Phrase op.level.left us (.value σ x)) (hy : Phrase op.level.right vs (.value τ y))
    (ha : (Operand.value σ x).ReadsAs .number a) (hb : (Operand.value τ y).ReadsAs .number b) :
    Phrase op.level (us ++ t :: vs) (.value .number (.arith op a b)) := by
  have htoken : t.token = op.token := Token.eq_of_canonical ht (by cases op <;> rfl)
  cases op with
  | pow => exact hx.power htoken hy ha hb
  | add =>
    have hoperator : Chain.sum.operator? t.token = some (.arith .add) := by rw [htoken]; rfl
    exact hx.chain hoperator hy ha hb
  | sub =>
    have hoperator : Chain.sum.operator? t.token = some (.arith .sub) := by rw [htoken]; rfl
    exact hx.chain hoperator hy ha hb
  | mul =>
    have hoperator : Chain.product.operator? t.token = some (.arith .mul) := by rw [htoken]; rfl
    exact hx.chain hoperator hy ha hb
  | div =>
    have hoperator : Chain.product.operator? t.token = some (.arith .div) := by rw [htoken]; rfl
    exact hx.chain hoperator hy ha hb
  | mod =>
    have hoperator : Chain.product.operator? t.token = some (.arith .mod) := by rw [htoken]; rfl
    exact hx.chain hoperator hy ha hb

/-- An operator between operands. -/
theorem Phrase.binary {op : BinaryOp} (ht : t.token.canonical = op.token)
    (hx : Phrase op.level.left us (.value σ x)) (hy : Phrase op.level.right vs (.value τ y))
    (hσ : σ.ReadsAs (op.operands σ)) (hτ : τ.ReadsAs (op.operands σ)) (hop : op.Allows σ) :
    ∃ z : Expr op.ty, Phrase op.level (us ++ t :: vs) (.value op.ty z) ∧
      z.fragment = x.fragment.convert σ (op.operands σ) ++
        y.fragment.convert τ (op.operands σ) ++ .op (op.op σ) := by
  obtain ⟨a, ha, hcode⟩ := exists_readsAs x hσ
  obtain ⟨b, hb, hcode'⟩ := exists_readsAs y hτ
  cases op with
  | compare op => exact Phrase.compare ht hx hy hσ hτ hop
  | either =>
    exact ⟨.either a b, hx.chain (Token.operator?_of_canonical_eitherOr ht) hy ha hb,
      congrArg₂ (fun f g => f ++ g ++ Fragment.op .either) hcode hcode'⟩
  | both =>
    exact ⟨.both a b, hx.chain (Token.operator?_of_canonical_bothAnd ht) hy ha hb,
      congrArg₂ (fun f g => f ++ g ++ Fragment.op .both) hcode hcode'⟩
  | arith op =>
    exact ⟨.arith op a b, Phrase.arith ht hx hy ha hb,
      congrArg₂ (fun f g => f ++ g ++ Fragment.op (.arith op)) hcode hcode'⟩

end Operators

/-! ## (6) Formulas -/

namespace Tree

variable {us : List Lexeme} {t a b condition yes no : Tree}

/-- Lexemes that derive an expression with the code of a formula: as a phrase of the level of the
formula, if it has one, and as a whole. -/
structure Derived (t : Tree) (us : List Lexeme) (x : Expr t.ty) : Prop where
  /-- The code is that of the formula. -/
  code : x.fragment = t.code
  /-- It can be an operand. -/
  phrase : ∀ level, t.level? = some level → Phrase level us (.value t.ty x)
  /-- It can stand wherever a whole formula can. -/
  whole : ∃ e, Derives false (.chain .disjunction) e us (.value t.ty x)

/-- Whatever spells a formula derives it. -/
def Accepted (t : Tree) : Prop := ∀ us, Spells us t.tokens → ∃ x, t.Derived us x

/-- A phrase of the level of a formula: `t.Derived us x`. -/
theorem Derived.of_phrase {level : Level} {x : Expr t.ty} (hlevel : t.level? = some level)
    (h : Phrase level us (.value t.ty x)) (hcode : x.fragment = t.code) : t.Derived us x where
  code := hcode
  phrase := fun _ hlevel' => Option.some.inj (hlevel.symm.trans hlevel') ▸ h
  whole := by
    have hloose : Phrase (.chain .disjunction) us (.value t.ty x) := h.loosen level.rank_le
    obtain ⟨e, h, -⟩ := hloose
    exact ⟨e, h⟩

/-- **An operand**, in parentheses or without, is a phrase that is tight enough:
`∃ x : Expr t.ty, Phrase wanted us (.value t.ty x) ∧ x.fragment = t.code`. -/
theorem Accepted.operand (h : t.Accepted) {wanted : Level}
    (hs : Spells us (enclosed wanted t.level? t.tokens)) :
    ∃ x : Expr t.ty, Phrase wanted us (.value t.ty x) ∧ x.fragment = t.code := by
  unfold enclosed at hs
  split at hs
  · -- without parentheses the level is known, since no conditional fits
    rename_i hfits
    obtain ⟨x, hx⟩ := h us hs
    cases hlevel : t.level? with
    | none => rw [hlevel] at hfits; cases hfits
    | some level =>
      rw [hlevel] at hfits
      exact ⟨x, (hx.phrase level hlevel).loosen (of_decide_eq_true hfits), hx.code⟩
  · -- in parentheses anything is a primary
    obtain ⟨opening, vs, closing, rfl, hopening, hvs, hclosing⟩ := spells_between.1 hs
    obtain ⟨x, hx⟩ := h vs hvs
    obtain ⟨e, hwhole⟩ := hx.whole
    have hparens := Phrase.parens (Token.eq_of_canonical hopening rfl) hwhole
      (Token.eq_of_canonical hclosing rfl)
    exact ⟨x, hparens.loosen (Nat.zero_le _), hx.code⟩

/-- A constant or another formula of one token: `t.Accepted`. -/
theorem accepted_of_token {token : Token} {x : Expr t.ty} (htokens : t.tokens = [token])
    (hlevel : t.level? = some .primary) (hcode : x.fragment = t.code)
    (h : ∀ u : Lexeme, u.token.canonical = token →
      Derives false .primary .closed [u] (.value t.ty x)) : t.Accepted := by
  intro us hs
  obtain ⟨u, rfl, hu⟩ := spells_singleton.1 (htokens ▸ hs)
  exact ⟨x, .of_phrase hlevel (.primary (h u hu)) hcode⟩

/-- A series at one position: `(series r).Accepted`. -/
theorem accepted_series {r : Reading} (h : (series r).WellTyped) : (series r).Accepted := by
  intro us hs
  obtain ⟨hr, hpoint⟩ := h
  obtain ⟨u, vs, raw, rfl, hraw, hname, hvs⟩ := r.exists_reference hr hs
  obtain ⟨i, hi, -, hone⟩ := exists_suffix r.index hr.2 hvs
  obtain ⟨b, hb, hspec⟩ := hone hpoint
  exact ⟨.point r.reference b, .of_phrase rfl (.primary (.point hraw hname hi hb))
    (congrArg (Fragment.load · (.load r.reference)) hspec)⟩

/-- The category at one position: `(category index).Accepted`. -/
theorem accepted_category {index : Option Pick} (h : (category index).WellTyped) :
    (category index).Accepted := by
  intro us hs
  obtain ⟨u, vs, rfl, hu, hvs⟩ := spells_cons.1 hs
  obtain ⟨i, hi, -, hone⟩ := exists_suffix index (fun i hi => (h i hi).1) hvs
  obtain ⟨b, hb, hspec⟩ := hone fun i hi => (h i hi).2
  have hkeyword := Token.isKeyword_of_canonical hu (by decide)
  exact ⟨.category b, .of_phrase rfl (.primary (.category hkeyword hi hb))
    (congrArg (Fragment.load · .loadCategory) hspec)⟩

/-- An operator before an operand: `(Tree.unary op a).Accepted`. -/
theorem Accepted.unary {op : UnaryOp} (ha : a.Accepted) (hty : a.ty.ReadsAs op.ty) :
    (Tree.unary op a).Accepted := by
  intro us hs
  obtain ⟨u, vs, rfl, hu, hvs⟩ := spells_cons.1 hs
  obtain ⟨x, hx, hcode⟩ := ha.operand hvs
  obtain ⟨z, hz, hzcode⟩ := Phrase.unary hu hx hty
  rw [hcode] at hzcode
  exact ⟨z, .of_phrase rfl hz hzcode⟩

/-- An operator between operands: `(Tree.binary op a b).Accepted`. -/
theorem Accepted.binary {op : BinaryOp} (ha : a.Accepted) (hb : b.Accepted)
    (htya : a.ty.ReadsAs (op.operands a.ty)) (htyb : b.ty.ReadsAs (op.operands a.ty))
    (hop : op.Allows a.ty) : (Tree.binary op a b).Accepted := by
  intro us hs
  obtain ⟨vs, _, rfl, hvs, hs⟩ := spells_append.1 hs
  obtain ⟨u, ws, rfl, hu, hws⟩ := spells_cons.1 hs
  obtain ⟨x, hx, hxcode⟩ := ha.operand hvs
  obtain ⟨y, hy, hycode⟩ := hb.operand hws
  obtain ⟨z, hz, hzcode⟩ := Phrase.binary hu hx hy htya htyb hop
  rw [hxcode, hycode] at hzcode
  exact ⟨z, .of_phrase rfl hz hzcode⟩

/-- A function of one stretch: `(fold f r).Accepted`. -/
theorem accepted_fold {f : Fold} {r : Reading} (h : r.IsWhole) : (fold f r).Accepted := by
  intro us hs
  obtain ⟨u, _, rfl, hu, hs⟩ := spells_cons.1 hs
  obtain ⟨opening, vs, closing, rfl, hopening, hvs, hclosing⟩ := spells_between.1 hs
  obtain ⟨raw, hraw, hf⟩ := Fold.exists_ofName? hu
  obtain ⟨e, i, hi, hspec⟩ := r.exists_stretch h hvs
  exact ⟨.fold f ⟨r.reference, i⟩, .of_phrase rfl (.primary (.fold hraw hf
    (Token.eq_of_canonical hopening rfl) hi (Token.eq_of_canonical hclosing rfl)))
    (congrArg (Fragment.load · (.loadStretch r.reference) ++ .op (.fold f)) hspec)⟩

/-- A function of two stretches: `(pairFold f r s).Accepted`. -/
theorem accepted_pairFold {f : PairFold} {r s : Reading} (hr : r.IsWhole) (hs : s.IsWhole) :
    (pairFold f r s).Accepted := by
  intro us h
  obtain ⟨u, _, rfl, hu, h⟩ := spells_cons.1 h
  obtain ⟨opening, _, rfl, hopening, h⟩ := spells_cons.1 h
  obtain ⟨vs, _, rfl, hvs, h⟩ := spells_append.1 h
  obtain ⟨comma, ws, closing, rfl, hcomma, hws, hclosing⟩ := spells_between.1 h
  obtain ⟨raw, hraw, hf⟩ := PairFold.exists_ofName? hu
  obtain ⟨e, i, hi, hspec⟩ := r.exists_stretch hr hvs
  obtain ⟨e', j, hj, hspec'⟩ := s.exists_stretch hs hws
  refine ⟨.pairFold f ⟨r.reference, i⟩ ⟨s.reference, j⟩, .of_phrase rfl (.primary (.pairFold hraw hf
    (Token.eq_of_canonical hopening rfl) hi (Token.eq_of_canonical hcomma rfl) hj
    (Token.eq_of_canonical hclosing rfl))) ?_⟩
  exact congrArg₂ (fun first second => .load first (.loadStretch r.reference) ++
    .load second (.loadStretch s.reference) ++ Fragment.op (.pairFold f)) hspec hspec'

/-- A conditional, which can be no operand: `(Tree.choose condition yes no).Accepted`. -/
theorem Accepted.choose (hcondition : condition.Accepted) (hyes : yes.Accepted)
    (hno : no.Accepted) (htest : condition.ty.ReadsAs .boolean) (hty : yes.ty.ReadsAs no.ty) :
    (Tree.choose condition yes no).Accepted := by
  intro us hs
  obtain ⟨u, _, rfl, hu, hs⟩ := spells_cons.1 hs
  obtain ⟨vs, _, rfl, hvs, hs⟩ := spells_append.1 hs
  obtain ⟨u', _, rfl, hu', hs⟩ := spells_cons.1 hs
  obtain ⟨ws, _, rfl, hws, hs⟩ := spells_append.1 hs
  obtain ⟨u'', us, rfl, hu'', hus⟩ := spells_cons.1 hs
  obtain ⟨x, hx⟩ := hcondition vs hvs
  obtain ⟨y, hy⟩ := hyes ws hws
  obtain ⟨z, hz⟩ := hno us hus
  obtain ⟨test, hreads, htestcode⟩ := exists_readsAs x htest
  obtain ⟨result, hjoins, hcode⟩ := exists_joins test y z hty
  obtain ⟨e, hwhole⟩ := hx.whole
  obtain ⟨e', hwhole'⟩ := hy.whole
  obtain ⟨e'', hwhole''⟩ := hz.whole
  have hchoose := Derives.conditional (Token.isKeyword_of_canonical hu (by decide)) hwhole hreads
    (Token.isKeyword_of_canonical hu' (by decide)) hwhole'
    (Token.isKeyword_of_canonical hu'' (by decide)) hwhole'' hjoins
  rw [htestcode, hx.code, hy.code, hz.code] at hcode
  exact ⟨result, hcode, fun _ hlevel => (by cases hlevel), _, .operand (.operand (.affirmed
    (.alone (.operand (.operand (.unsigned (.base hchoose)))))))⟩

/-- **Formulas that make sense are accepted** in every spelling: `t.Accepted`. -/
theorem accepted_of_wellTyped (h : t.WellTyped) : t.Accepted := by
  induction t with
  | number x =>
    exact accepted_of_token (x := .number x) rfl rfl rfl fun u hu =>
      .number (Token.eq_of_canonical hu rfl)
  | text s =>
    exact accepted_of_token (x := .text s) rfl rfl rfl fun u hu =>
      .text (Token.eq_of_canonical hu rfl)
  | truth b =>
    exact accepted_of_token (x := .truth b) rfl rfl rfl fun u hu =>
      .truth (Token.isKeyword_of_canonical hu (by cases b <;> decide))
  | position =>
    exact accepted_of_token (x := .position) rfl rfl rfl fun u hu =>
      .position (Token.isKeyword_of_canonical hu (by decide))
  | series r => exact accepted_series h
  | category index => exact accepted_category h
  | unary op a ih => exact (ih h.1).unary h.2
  | binary op a b iha ihb =>
    obtain ⟨ha, hb, htya, htyb, hop⟩ := h
    exact (iha ha).binary (ihb hb) htya htyb hop
  | fold f r => exact accepted_fold h
  | pairFold f r s => exact accepted_pairFold h.1 h.2
  | choose condition yes no ihc ihy ihn =>
    obtain ⟨hcondition, hyes, hno, htest, hty⟩ := h
    exact (ihc hcondition).choose (ihy hyes) (ihn hno) htest hty

/-- `compile source = .ok (t.program source)`: a formula in any spelling compiles to its program. -/
theorem compile_of_spells {source : String} (h : t.WellTyped) (hty : t.ty.ReadsAs .number)
    (htokens : tokenize source = .ok us) (hs : Spells us t.tokens) :
    compile source = .ok (t.program source) := by
  obtain ⟨x, hx⟩ := accepted_of_wellTyped h us hs
  obtain ⟨e, hwhole⟩ := hx.whole
  obtain ⟨y, hy, hcode⟩ := exists_readsAs x hty
  refine compile_eq_ok_iff.2 ⟨us, y, htokens, ⟨e, _, hwhole, hy⟩, ?_⟩
  -- the code of the expression is that of the formula, and so is all of the program
  rw [t.program_eq, Program.ofExpr_eq, hcode, hx.code]

end Tree

end PanelQuery.Formula
