import Mathlib.Data.List.Nodup
import Mathlib.Tactic.SplitIfs
import PanelQuery.Formula.Token
import PanelQuery.Proofs.Formula.Patterns
import PanelQuery.Proofs.Number.Digits

/-! # The tokens of formulas

What the tokens of formulas look like, said apart from how a text is scanned for them.

* **`rules`, `Written`** — a pattern for each kind of token, and the texts that are a token;
* **`IsLongest`** — the longest token at the start of a text;
* **`isSome_token`** — what matches a rule is a token, so that every numeral is a number;
* **`rule_unique`, `Written.unique`** — a text matches one rule, and is one token;
* **`IsLongest.unique`** — a text begins with one longest token at most;
* **`Matched.not_append_blank`, `IsLongest.append`** — no token goes on with a blank, so that a
  blank ends it. -/

namespace PanelQuery.Formula

open Pattern

/-! ## (1) The patterns of tokens -/

namespace Pattern

/-- One digit or more. -/
def digits : Pattern := .seq (.one isDigit) (.many isDigit)

/-- A mark, an optional sign and digits. -/
def exponent : Pattern :=
  .seq (.one fun c => c == 'e' || c == 'E')
    (.seq (.optional (.one fun c => c == '+' || c == '-')) digits)

/-- A point and the digits after it, if any. -/
def fraction : Pattern := .seq (.exactly ['.']) (.many isDigit)

end Pattern

/-- A pattern, and the token that each of its matches is. -/
structure Rule where
  /-- The pattern. -/
  pattern : Pattern
  /-- The token that a match is; none where its text has no value. -/
  token : List Char → Option Token

namespace Rule

/-- The number that a numeral stands for. -/
def numberOf (us : List Char) : Option Token :=
  (readDecimal? us).map fun d => .number d.toFloat

/-- A number that begins with a digit. -/
def numeral : Rule := ⟨.seq digits (.seq (.optional fraction) (.optional exponent)), numberOf⟩

/-- A number that begins with a point. -/
def pointNumeral : Rule := ⟨.seq (.exactly ['.']) (.seq digits (.optional exponent)), numberOf⟩

/-- Text between two quotes that does not hold one of them. -/
def quoted (quote : Char) : Rule :=
  ⟨.seq (.exactly [quote]) (.seq (.many (· != quote)) (.exactly [quote])),
    fun us => some (.text (String.ofList us.tail.dropLast))⟩

/-- A name or keyword. -/
def word : Rule :=
  ⟨.seq (.one Token.startsWord) (.many Token.continuesWord),
    fun us => some (.word (String.ofList us))⟩

/-- A sign. -/
def sign (s : List Char × Token) : Rule := ⟨.exactly s.1, fun _ => some s.2⟩

end Rule

/-- The signs and the tokens that they are. -/
def signs : List (List Char × Token) :=
  [(['+'], .plus), (['-'], .minus), (['*'], .star), (['/'], .slash), (['%'], .percent),
    (['^'], .caret), (['('], .openParen), ([')'], .closeParen), (['['], .openBracket),
    ([']'], .closeBracket), ([':'], .colon), ([','], .comma), (['<'], .less),
    (['<', '='], .lessEqual), (['>'], .greater), (['>', '='], .greaterEqual),
    (['=', '='], .equal), (['='], .equal), (['!', '='], .unequal), (['<', '>'], .unequal),
    (['&', '&'], .bothAnd), (['|', '|'], .eitherOr), (['!'], .bang)]

/-- **The rules for tokens.** -/
def rules : List Rule :=
  [.numeral, .pointNumeral, .quoted '"', .quoted '\'', .word] ++ signs.map .sign

/-- Whether some rule matches a text. -/
def Matched (us : List Char) : Prop := ∃ r ∈ rules, r.pattern.Matches us

/-- **Whether a text is a token** by some rule. -/
def Written (us : List Char) (t : Token) : Prop :=
  ∃ r ∈ rules, r.pattern.Matches us ∧ r.token us = some t

/-- **The longest match**: `us` is the token `t`, and no longer beginning of `text` matches. -/
structure IsLongest (text us : List Char) (t : Token) : Prop where
  begins : us <+: text
  written : Written us t
  longest : ∀ vs, vs <+: text → Matched vs → vs.length ≤ us.length

/-! ## (2) Numerals -/

section Numerals

variable {us e whole ds : List Char}

/-- `us ≠ [] ∧ ∀ c ∈ us, isDigit c = true`: digits are some, and nothing else. -/
theorem digits_matches (h : digits.Matches us) : us ≠ [] ∧ ∀ c ∈ us, isDigit c = true := by
  obtain ⟨vs, ws, rfl, ⟨c, rfl, hc⟩, hws⟩ := h
  exact ⟨List.cons_ne_nil c ws, List.forall_mem_cons.2 ⟨hc, hws⟩⟩

/-- `(readExponent? e).isSome = true`: an exponent is read, and so is none. -/
theorem isSome_readExponent? (h : (optional exponent).Matches e) :
    (readExponent? e).isSome = true := by
  obtain rfl | ⟨_, _, rfl, ⟨mark, rfl, hmark⟩, sign, ds, rfl, hsign, hds⟩ := h
  · rfl
  · obtain ⟨hne, hall⟩ := digits_matches hds
    have hmark : mark = 'e' ∨ mark = 'E' := by simpa using hmark
    have hsplit : (splitSign (sign ++ ds)).2 = ds := by
      obtain rfl | ⟨c, rfl, hc⟩ := hsign
      · obtain ⟨d, ds, rfl⟩ := List.exists_cons_of_ne_nil hne
        have hd := hall d List.mem_cons_self
        rw [List.nil_append]
        unfold splitSign
        split
        · rename_i heq
          obtain ⟨rfl, -⟩ := List.cons.inj heq
          exact absurd hd (by decide)
        · rename_i heq
          obtain ⟨rfl, -⟩ := List.cons.inj heq
          exact absurd hd (by decide)
        · rfl
      · have hc : c = '+' ∨ c = '-' := by simpa using hc
        rcases hc with rfl | rfl <;> rfl
    rw [List.singleton_append, readExponent?, if_pos hmark]
    dsimp only
    rw [hsplit, if_neg]
    · rfl
    · simpa [hne] using hall

/-- An exponent begins with its mark: `∀ c ∈ e.head?, c = 'e' ∨ c = 'E'`. -/
theorem head?_exponent (h : (optional exponent).Matches e) : ∀ c ∈ e.head?, c = 'e' ∨ c = 'E' := by
  obtain rfl | ⟨_, _, rfl, ⟨mark, rfl, hmark⟩, -⟩ := h
  · nofun
  · intro c hc
    obtain rfl := Option.some.inj hc
    simpa using hmark

/-- An exponent ends the digits before it: `NoDigit e`. -/
theorem noDigit_exponent (h : (optional exponent).Matches e) : NoDigit e := by
  intro c hc
  obtain rfl | rfl := head?_exponent h c hc <;> rfl

/-- `(readDecimal? (whole ++ e)).isSome = true`: digits without a point are read, with their
exponent. -/
theorem isSome_readDecimal? (hne : whole ≠ []) (hwhole : ∀ c ∈ whole, isDigit c = true)
    (he : (optional exponent).Matches e) : (readDecimal? (whole ++ e)).isSome = true := by
  have hnoDigit := noDigit_exponent he
  have hread := isSome_readExponent? he
  have hhead := head?_exponent he
  unfold readDecimal?
  rw [hnoDigit.takeWhile_append hwhole, hnoDigit.dropWhile_append hwhole]
  dsimp only
  split
  · exact absurd (hhead '.' rfl) (by decide)
  · rw [if_neg (by simpa using hne), Option.isSome_map]
    exact hread

/-- `(readDecimal? (whole ++ '.' :: (ds ++ e))).isSome = true`: digits beside a point are read, with
their exponent. -/
theorem isSome_readDecimal?_point (hne : whole ≠ [] ∨ ds ≠ [])
    (hwhole : ∀ c ∈ whole, isDigit c = true) (hds : ∀ c ∈ ds, isDigit c = true)
    (he : (optional exponent).Matches e) :
    (readDecimal? (whole ++ '.' :: (ds ++ e))).isSome = true := by
  have hnoDigit := noDigit_exponent he
  have hpoint : NoDigit ('.' :: (ds ++ e)) := noDigit_cons rfl _
  unfold readDecimal?
  rw [hpoint.takeWhile_append hwhole, hpoint.dropWhile_append hwhole]
  show Option.isSome (if (whole.isEmpty && ((ds ++ e).takeWhile isDigit).isEmpty) = true then none
    else (readExponent? ((ds ++ e).dropWhile isDigit)).map _) = true
  rw [hnoDigit.takeWhile_append hds, hnoDigit.dropWhile_append hds, if_neg, Option.isSome_map]
  · exact isSome_readExponent? he
  · simpa [or_iff_not_imp_left] using hne

/-- **Every numeral is a number**: `(Rule.numberOf us).isSome = true`. -/
theorem isSome_numberOf
    (h : Rule.numeral.pattern.Matches us ∨ Rule.pointNumeral.pattern.Matches us) :
    (Rule.numberOf us).isSome = true := by
  rw [Rule.numberOf, Option.isSome_map]
  rcases h with h | h
  · obtain ⟨whole, _, rfl, hwhole, point, e, rfl, hpoint, he⟩ := h
    obtain ⟨hne, hall⟩ := digits_matches hwhole
    obtain rfl | ⟨_, ds, rfl, rfl, hds⟩ := hpoint
    · exact isSome_readDecimal? hne hall he
    · exact isSome_readDecimal?_point (.inl hne) hall hds he
  · obtain ⟨_, _, rfl, rfl, ds, e, rfl, hds, he⟩ := h
    obtain ⟨hne, hall⟩ := digits_matches hds
    exact isSome_readDecimal?_point (.inr hne) (List.forall_mem_nil _) hall he

end Numerals

/-! ## (3) Where the rules apply -/

/-- The only rule for texts that begin with a character, unless that begins a sign. -/
def ruleAt (c : Char) : Option Rule :=
  if isDigit c then some .numeral
  else if c = '.' then some .pointNumeral
  else if Token.startsWord c then some .word
  else if Token.isQuote c then some (.quoted c)
  else none

section Rules

variable {r r' : Rule} {us ws : List Char} {b c : Char} {t t' : Token}

/-- The rules one by one: `r = .numeral`, `r = .pointNumeral`,
`(∃ quote, Token.isQuote quote = true ∧ r = .quoted quote)`, `r = .word` or
`∃ s ∈ signs, r = .sign s`. -/
theorem rule_cases (hr : r ∈ rules) : r = .numeral ∨ r = .pointNumeral ∨
    (∃ quote, Token.isQuote quote = true ∧ r = .quoted quote) ∨ r = .word ∨
    ∃ s ∈ signs, r = .sign s := by
  simp only [rules, List.mem_append, List.mem_cons, List.not_mem_nil, or_false, List.mem_map] at hr
  rcases hr with (rfl | rfl | rfl | rfl | rfl) | ⟨s, hs, rfl⟩
  · exact .inl rfl
  · exact .inr (.inl rfl)
  · exact .inr (.inr (.inl ⟨_, rfl, rfl⟩))
  · exact .inr (.inr (.inl ⟨_, rfl, rfl⟩))
  · exact .inr (.inr (.inr (.inl rfl)))
  · exact .inr (.inr (.inr (.inr ⟨s, hs, rfl⟩)))

/-- The rule for a character is one of the rules: `r ∈ rules`. -/
theorem mem_rules_of_ruleAt (h : ruleAt c = some r) : r ∈ rules := by
  unfold ruleAt at h
  split_ifs at h with hdigit hpoint hword hquote
  all_goals obtain rfl := Option.some.inj h
  · simp [rules]
  · simp [rules]
  · simp [rules]
  · simp only [Token.isQuote, Bool.or_eq_true, beq_iff_eq] at hquote
    rcases hquote with rfl | rfl <;> simp [rules]

/-- `isDigit c = false`: words begin with no digit. -/
theorem isDigit_of_startsWord (h : Token.startsWord c = true) : isDigit c = false := by
  rw [Token.startsWord, Bool.or_eq_true, beq_iff_eq] at h
  rcases h with h | rfl
  · refine Bool.eq_false_iff.2 fun hdigit => ?_
    obtain ⟨-, hnine⟩ := Bool.and_eq_true_iff.1 hdigit
    -- letters come after the digits
    have hletter : 'A' ≤ c := by
      obtain h | h := Bool.or_eq_true_iff.1 h
      · exact (of_decide_eq_true h).1
      · exact UInt32.le_trans (by decide) (of_decide_eq_true (Bool.and_eq_true_iff.1 h).1)
    exact absurd (UInt32.le_trans hletter (of_decide_eq_true hnine)) (by decide)
  · rfl

/-- No other rule is for a character that begins a sign:
`∀ s ∈ signs, s.1.head?.all (fun c => (ruleAt c).isNone) = true`. -/
theorem head?_signs : ∀ s ∈ signs, s.1.head?.all (fun c => (ruleAt c).isNone) = true := by decide

/-- Signs are some characters: `∀ s ∈ signs, s.1 ≠ []`. -/
theorem ne_nil_of_mem_signs : ∀ s ∈ signs, s.1 ≠ [] := by decide

/-- Signs hold no blanks: `∀ s ∈ signs, s.1.any Token.isBlank = false`. -/
theorem not_any_isBlank_signs : ∀ s ∈ signs, s.1.any Token.isBlank = false := by decide

/-- `¬ Token.isBlank c = true`: no character of a sign is a blank. -/
theorem not_isBlank_of_mem_sign {s : List Char × Token} (hs : s ∈ signs) (hc : c ∈ s.1) :
    ¬ Token.isBlank c = true :=
  List.any_eq_false.1 (not_any_isBlank_signs s hs) c hc

/-- No sign is listed twice: `(signs.map Prod.fst).Nodup`. -/
theorem nodup_signs : (signs.map Prod.fst).Nodup := by decide

/-- **Where a rule applies**: its matches begin with a character that the rule is for, or it is a
sign. `ruleAt c = some r ∨ ruleAt c = none ∧ ∃ s ∈ signs, r = .sign s`. -/
theorem ruleAt_of_starts (hr : r ∈ rules) (h : r.pattern.Starts c) :
    ruleAt c = some r ∨ ruleAt c = none ∧ ∃ s ∈ signs, r = .sign s := by
  obtain rfl | rfl | ⟨quote, hquote, rfl⟩ | rfl | ⟨s, hs, rfl⟩ := rule_cases hr
  · have hdigit : isDigit c = true := by
      simpa [Rule.numeral, digits, Starts, Nullable] using h
    exact .inl (if_pos hdigit)
  · have hpoint : '.' = c := by simpa [Rule.pointNumeral, Starts, Nullable] using h
    exact .inl (hpoint ▸ rfl)
  · have hc : quote = c := by simpa [Rule.quoted, Starts, Nullable] using h
    subst hc
    simp only [Token.isQuote, Bool.or_eq_true, beq_iff_eq] at hquote
    rcases hquote with rfl | rfl <;> exact .inl rfl
  · have hword : Token.startsWord c = true := by simpa [Rule.word, Starts, Nullable] using h
    have hpoint : c ≠ '.' := by
      rintro rfl
      exact absurd hword (by decide)
    left
    rw [ruleAt, if_neg (by rw [isDigit_of_startsWord hword]; decide), if_neg hpoint, if_pos hword]
  · have hnone := head?_signs s hs
    rw [show s.1.head? = some c from h] at hnone
    exact .inr ⟨Option.isNone_iff_eq_none.1 hnone, s, hs, rfl⟩

/-- `r = r'`: what begins with a character matches no other rule than the one for it. -/
theorem eq_of_ruleAt (hr : r ∈ rules) (h : r.pattern.Matches (c :: us)) (hc : ruleAt c = some r') :
    r = r' := by
  obtain hc' | ⟨hc', -⟩ := ruleAt_of_starts hr h.starts
  · exact Option.some.inj (hc'.symm.trans hc)
  · cases hc'.symm.trans hc

/-- Where there is no such rule, what matches is a sign:
`∃ s ∈ signs, r = .sign s ∧ s.1 = c :: us`. -/
theorem exists_sign_of_ruleAt (hr : r ∈ rules) (h : r.pattern.Matches (c :: us))
    (hc : ruleAt c = none) : ∃ s ∈ signs, r = .sign s ∧ s.1 = c :: us := by
  obtain hc' | ⟨-, s, hs, rfl⟩ := ruleAt_of_starts hr h.starts
  · cases hc'.symm.trans hc
  · exact ⟨s, hs, rfl, Eq.symm h⟩

/-! ### What follows from the patterns -/

/-- No rule matches nothing: `¬ r.pattern.Nullable`. -/
theorem not_nullable (hr : r ∈ rules) : ¬ r.pattern.Nullable := by
  obtain rfl | rfl | ⟨quote, -, rfl⟩ | rfl | ⟨s, hs, rfl⟩ := rule_cases hr
  · simp [Rule.numeral, digits, Nullable]
  · simp [Rule.pointNumeral, Nullable]
  · simp [Rule.quoted, Nullable]
  · simp [Rule.word, Nullable]
  · exact ne_nil_of_mem_signs s hs

/-- A digit is none of the characters that go on with a numeral after its digits:
`c ≠ '.' ∧ c ≠ 'e' ∧ c ≠ 'E'`. -/
theorem ne_of_isDigit (hc : isDigit c = true) : c ≠ '.' ∧ c ≠ 'e' ∧ c ≠ 'E' := by
  refine ⟨?_, ?_, ?_⟩ <;> rintro rfl <;> exact absurd hc (by decide)

/-- **No rule leaves a choice**: a reading never has to go back. `r.pattern.Deterministic`. -/
theorem deterministic (hr : r ∈ rules) : r.pattern.Deterministic := by
  have hapart : ∀ c, isDigit c = true → ¬c = 'e' ∧ ¬c = 'E' := fun c hc => (ne_of_isDigit hc).2
  obtain rfl | rfl | ⟨quote, -, rfl⟩ | rfl | ⟨s, -, rfl⟩ := rule_cases hr
  · have hfraction : ∀ c, '.' = c ∨ isDigit c = true → ¬c = 'e' ∧ ¬c = 'E' := by
      rintro c (rfl | hc)
      · decide
      · exact hapart c hc
    have hwhole : ∀ c, isDigit c = true → '.' ≠ c ∧ ¬c = 'e' ∧ ¬c = 'E' := fun c hc =>
      ⟨Ne.symm (ne_of_isDigit hc).1, hapart c hc⟩
    simpa [Rule.numeral, digits, fraction, exponent, Deterministic, GoesOn, Starts, Nullable]
      using ⟨⟨by decide, hfraction⟩, hwhole⟩
  · simpa [Rule.pointNumeral, digits, exponent, Deterministic, GoesOn, Starts, Nullable]
      using ⟨by decide, hapart⟩
  · simpa [Rule.quoted, Deterministic, GoesOn, Starts, Nullable] using fun c => Ne.symm
  · simp [Rule.word, Deterministic, GoesOn]
  · trivial

/-- A blank is none of the characters of numbers and words, and no rule is for it:
`(ruleAt b).isNone = true`, `isDigit b = false`, `Token.continuesWord b = false`, `b ≠ '.'`,
`b ≠ 'e'` and `b ≠ 'E'`. -/
theorem apart_of_isBlank (hb : Token.isBlank b = true) : (ruleAt b).isNone = true ∧
    isDigit b = false ∧ Token.continuesWord b = false ∧ b ≠ '.' ∧ b ≠ 'e' ∧ b ≠ 'E' := by
  have hkinds : b = ' ' ∨ b = '\t' ∨ b = '\r' ∨ b = '\n' ∨ b = '\x0c' := by
    simpa [Token.isBlank, or_assoc] using hb
  obtain rfl | rfl | rfl | rfl | rfl := hkinds <;> decide

/-- No match goes on with a blank to a longer one: `¬ r.pattern.GoesOn b`. -/
theorem not_goesOn_of_isBlank (hr : r ∈ rules) (hb : Token.isBlank b = true) :
    ¬ r.pattern.GoesOn b := by
  obtain ⟨-, hdigit, hword, hpoint, he⟩ := apart_of_isBlank hb
  obtain rfl | rfl | ⟨quote, -, rfl⟩ | rfl | ⟨s, -, rfl⟩ := rule_cases hr
  · simp [Rule.numeral, digits, fraction, exponent, GoesOn, Starts, Nullable, hdigit, hpoint.symm,
      he]
  · simp [Rule.pointNumeral, digits, exponent, GoesOn, Starts, Nullable, hdigit, he]
  · simp [Rule.quoted, GoesOn, Nullable]
  · simp [Rule.word, GoesOn, Nullable, hword]
  · exact id

/-- **What a rule matches is a token**: `(r.token us).isSome = true`. -/
theorem isSome_token (hr : r ∈ rules) (h : r.pattern.Matches us) : (r.token us).isSome = true := by
  obtain rfl | rfl | ⟨quote, -, rfl⟩ | rfl | ⟨s, -, rfl⟩ := rule_cases hr
  · exact isSome_numberOf (.inl h)
  · exact isSome_numberOf (.inr h)
  all_goals rfl

/-! ## (4) Texts that are tokens -/

/-- A match is not empty: `∃ c vs, us = c :: vs`. -/
theorem Matched.exists_cons (h : Matched us) : ∃ c vs, us = c :: vs := by
  obtain ⟨r, hr, hmatch⟩ := h
  cases us with
  | nil => exact absurd hmatch.nullable (not_nullable hr)
  | cons c vs => exact ⟨c, vs, rfl⟩

/-- **No two rules match one text**: `r = r'`. -/
theorem rule_unique (hr : r ∈ rules) (hr' : r' ∈ rules) (h : r.pattern.Matches us)
    (h' : r'.pattern.Matches us) : r = r' := by
  obtain ⟨c, vs, rfl⟩ := Matched.exists_cons ⟨r, hr, h⟩
  cases hc : ruleAt c with
  | some r₀ => rw [eq_of_ruleAt hr h hc, eq_of_ruleAt hr' h' hc]
  | none =>
    obtain ⟨s, hs, rfl, htext⟩ := exists_sign_of_ruleAt hr h hc
    obtain ⟨s', hs', rfl, htext'⟩ := exists_sign_of_ruleAt hr' h' hc
    rw [List.inj_on_of_nodup_map nodup_signs hs hs' (htext.trans htext'.symm)]

/-- Some rule matches a token: `Matched us`. -/
theorem Written.matched (h : Written us t) : Matched us := by
  obtain ⟨r, hr, hmatch, -⟩ := h
  exact ⟨r, hr, hmatch⟩

/-- **A text is at most one token**: `t = t'`. -/
theorem Written.unique (h : Written us t) (h' : Written us t') : t = t' := by
  obtain ⟨r, hr, hmatch, ht⟩ := h
  obtain ⟨r', hr', hmatch', ht'⟩ := h'
  obtain rfl := rule_unique hr hr' hmatch hmatch'
  exact Option.some.inj (ht.symm.trans ht')

/-- `Token.isBlank c = false`: no token begins with a blank. -/
theorem Matched.not_isBlank (h : Matched (c :: us)) : Token.isBlank c = false := by
  refine Bool.eq_false_iff.2 fun hb => ?_
  obtain ⟨r, hr, hmatch⟩ := h
  have hc := Option.isNone_iff_eq_none.1 (apart_of_isBlank hb).1
  obtain ⟨s, hs, -, htext⟩ := exists_sign_of_ruleAt hr hmatch hc
  exact not_isBlank_of_mem_sign hs (htext ▸ List.mem_cons_self) hb

/-- **No token goes on with a blank**: what is a token is none with a blank and more behind.
`¬ Matched (us ++ b :: ws)`. -/
theorem Matched.not_append_blank (h : Matched us) (hb : Token.isBlank b = true) :
    ¬ Matched (us ++ b :: ws) := by
  rintro ⟨r', hr', hmore⟩
  obtain ⟨c, vs, rfl⟩ := h.exists_cons
  obtain ⟨r, hr, hmatch⟩ := h
  cases hc : ruleAt c with
  | some r₀ =>
    obtain rfl := eq_of_ruleAt hr hmatch hc
    obtain rfl := eq_of_ruleAt hr' hmore hc
    exact not_goesOn_of_isBlank hr hb (hmatch.goesOn (deterministic hr) hmore)
  | none =>
    obtain ⟨s, hs, -, htext⟩ := exists_sign_of_ruleAt hr' hmore hc
    exact not_isBlank_of_mem_sign hs (by rw [htext]; simp) hb

/-! ## (5) Longest tokens -/

variable {us' text text' : List Char}

/-- **A text begins with one longest token** at most: `us = us' ∧ t = t'`. -/
theorem IsLongest.unique (h : IsLongest text us t) (h' : IsLongest text us' t') :
    us = us' ∧ t = t' := by
  have hlength : us.length = us'.length :=
    Nat.le_antisymm (h'.longest us h.begins h.written.matched)
      (h.longest us' h'.begins h'.written.matched)
  obtain rfl := (List.prefix_of_prefix_length_le h.begins h'.begins hlength.le).eq_of_length hlength
  exact ⟨rfl, h.written.unique h'.written⟩

/-- What is longest in a text is so in a beginning of the text that it fits in:
`IsLongest text' us t`. -/
theorem IsLongest.of_begins (h : IsLongest text us t) (htext : text' <+: text)
    (hus : us <+: text') : IsLongest text' us t :=
  ⟨hus, h.written, fun vs hvs => h.longest vs (hvs.trans htext)⟩

/-- What is longest is all of its own text: `IsLongest us us t`. -/
theorem IsLongest.alone (h : IsLongest text us t) : IsLongest us us t :=
  h.of_begins h.begins (List.prefix_refl us)

/-- **A blank ends a token**: with a blank and more behind, a token is still the longest.
`IsLongest (us ++ ws) us t`. -/
theorem IsLongest.append (h : IsLongest us us t) (hws : ∀ c ∈ ws.head?, Token.isBlank c = true) :
    IsLongest (us ++ ws) us t := by
  refine ⟨List.prefix_append us ws, h.written, fun vs hvs hmatched => ?_⟩
  by_contra hlt
  obtain ⟨xs, rfl⟩ := List.prefix_of_prefix_length_le (List.prefix_append us ws) hvs
    (Nat.le_of_not_le hlt)
  cases xs with
  | nil => exact hlt (by rw [List.append_nil])
  | cons b xs =>
    obtain ⟨rest, hrest⟩ := hvs
    rw [List.append_assoc, List.append_cancel_left_eq] at hrest
    exact h.written.matched.not_append_blank (hws b (hrest ▸ rfl)) hmatched

end Rules

end PanelQuery.Formula
