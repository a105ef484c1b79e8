import Mathlib.Tactic.FinCases
import PanelQuery.Proofs.Formula.Rules

/-! # Scanning for tokens

A scan finds the longest token at the start of a text, and none only where none begins.

* **`scan_of_ruleAt`** — a scan reads the pattern of the rule for the first character;
* **`mem_signs_of_scanSign`, `length_le_of_scanSign`** — where there is none, the longest sign;
* **`isLongest_of_scan`, `not_matched_of_scan`** — what a scan finds;
* **`IsLongest.scan`** — the longest token is found. -/

namespace PanelQuery.Formula

open Pattern

/-! ## (1) How much a numeral takes -/

section Numerals

variable {us : List Char} {c : Char}

/-- `Rule.numberOf us = some (Token.ofNumeral us)`: a numeral that is a number is that number. -/
theorem numberOf_eq (h : (Rule.numberOf us).isSome = true) :
    Rule.numberOf us = some (Token.ofNumeral us) := by
  unfold Rule.numberOf Token.ofNumeral at *
  cases hd : readDecimal? us with
  | none => rw [hd] at h; cases h
  | some d => rfl

/-- Digits in front of a text, of which there has to be one: `digits.munch cs` is
`if (cs.takeWhile isDigit).length = 0 then none else some (cs.takeWhile isDigit).length`. -/
theorem munch_digits (cs : List Char) : digits.munch cs =
    if (cs.takeWhile isDigit).length = 0 then none else some (cs.takeWhile isDigit).length := by
  cases cs with
  | nil => rfl
  | cons c cs =>
    by_cases hc : isDigit c = true
    · simp [digits, munch, hc, Nat.add_comm]
    · simp [digits, munch, hc]

/-- `(optional fraction).munch cs = some (Token.fractionLength cs)`: a fraction, if any. -/
theorem munch_fraction (cs : List Char) :
    (optional fraction).munch cs = some (Token.fractionLength cs) := by
  unfold Token.fractionLength
  split
  · simp [fraction, munch, Nat.add_comm]
  · rename_i hpoint
    cases cs with
    | nil => rfl
    | cons c cs =>
      have hc : '.' ≠ c := fun hc => hpoint cs (hc ▸ rfl)
      simp [fraction, munch, hc]

/-- `(optional (.one kind)).munch (c :: cs) = some (if kind c then 1 else 0)`: an optional character
of a kind is taken where it stands. -/
theorem munch_optional_one (kind : Char → Bool) (c : Char) (cs : List Char) :
    (optional (.one kind)).munch (c :: cs) = some (if kind c then 1 else 0) := by
  rw [munch, munch]
  split <;> rfl

/-- `(optional exponent).munch cs = some (Token.exponentLength cs)`: an exponent, if any. -/
theorem munch_exponent (cs : List Char) :
    (optional exponent).munch cs = some (Token.exponentLength cs) := by
  unfold Token.exponentLength
  split
  · rename_i mark rest
    split_ifs with hmark
    · have hmark : (one fun c => c == 'e' || c == 'E').munch (mark :: rest) = some 1 :=
        if_pos (by simpa using hmark)
      rw [munch, exponent, munch_seq, hmark, Option.bind_some, List.drop_succ_cons, List.drop_zero,
        munch_seq]
      split
      · rename_i sign more
        rw [munch_optional_one, Option.bind_some, munch_digits]
        by_cases hsign : sign = '+' ∨ sign = '-'
        · rw [if_pos (by simpa using hsign), if_pos hsign, List.drop_succ_cons, List.drop_zero]
          dsimp only
          split_ifs
          · rfl
          · rw [Option.map_some, Option.map_some, Option.getD_some, ← Nat.add_assoc, Nat.add_comm]
        · rw [if_neg (by simpa using hsign), if_neg hsign, List.drop_zero]
          dsimp only
          split_ifs
          · rfl
          · rw [Option.map_some, Option.map_some, Option.getD_some, Nat.zero_add, Nat.add_comm]
      · rfl
    · have hmark : (one fun c => c == 'e' || c == 'E').munch (mark :: rest) = none :=
        if_neg (by simpa using hmark)
      rw [munch, exponent, munch_seq, hmark]
      rfl
  · rfl

/-- `Rule.numeral.pattern.munch (c :: rest) = some (Token.numberLength rest + 1)`: a number that
begins with a digit. -/
theorem munch_numeral (hc : isDigit c = true) (rest : List Char) :
    Rule.numeral.pattern.munch (c :: rest) = some (Token.numberLength rest + 1) := by
  rw [Rule.numeral, munch_seq, munch_digits, List.takeWhile_cons_of_pos hc, List.length_cons,
    if_neg (Nat.succ_ne_zero _), Option.bind_some, List.drop_succ_cons, munch_seq, munch_fraction,
    Option.bind_some, munch_exponent, List.drop_drop, Option.map_some, Option.map_some,
    Token.numberLength]
  exact congrArg some (by omega)

/-- A number that begins with a point:
`Rule.pointNumeral.pattern.munch ('.' :: rest) = (Token.pointNumberLength? rest).map (· + 1)`. -/
theorem munch_pointNumeral (rest : List Char) : Rule.pointNumeral.pattern.munch ('.' :: rest) =
    (Token.pointNumberLength? rest).map (· + 1) := by
  have hpoint : (exactly ['.']).munch ('.' :: rest) = some 1 := if_pos ⟨rest, rfl⟩
  rw [Rule.pointNumeral, munch_seq, hpoint, Option.bind_some, List.drop_succ_cons, List.drop_zero,
    munch_seq, munch_digits, Token.pointNumberLength?]
  split_ifs
  · rfl
  · rw [Option.bind_some, munch_exponent, Option.map_some, Option.map_some, Option.map_some,
      Nat.add_comm]

end Numerals

section Scan

variable {r : Rule} {us rest : List Char} {c d : Char} {t : Token} {n : Nat}

/-! ## (2) Scanning by the rules -/

/-- `(body ++ quote :: more).takeWhile (· != quote) = body`: the first quote ends what it does not
belong to. -/
theorem takeWhile_bne_append {quote : Char} {body : List Char} (h : quote ∉ body)
    (more : List Char) : (body ++ quote :: more).takeWhile (· != quote) = body := by
  rw [List.takeWhile_append_of_pos fun c hc => bne_iff_ne.2 fun heq : c = quote => h (heq ▸ hc),
    List.takeWhile_cons_of_neg (by simp), List.append_nil]

/-- Text in quotes ends at the first quote of its kind. -/
theorem scan_quoted (quote : Char) (rest : List Char) : Token.scanQuoted quote rest =
    ((Rule.quoted quote).pattern.munch (quote :: rest)).bind fun n =>
      ((Rule.quoted quote).token ((quote :: rest).take n)).map fun t => (t, n - 1) := by
  have hopen : (exactly [quote]).munch (quote :: rest) = some 1 := if_pos ⟨rest, rfl⟩
  rw [Token.scanQuoted, Rule.quoted, munch_seq, hopen, Option.bind_some, List.drop_succ_cons,
    List.drop_zero, munch_seq, munch, Option.bind_some]
  by_cases hmem : quote ∈ rest
  · obtain ⟨body, more, rfl, hbody⟩ := List.eq_append_cons_of_mem hmem
    have hclose : (exactly [quote]).munch (quote :: more) = some 1 := if_pos ⟨more, rfl⟩
    rw [takeWhile_bne_append hbody, List.drop_left, hclose, if_pos (by simp)]
    have hall : body.take (body.length + 1) = body := List.take_of_length_le (Nat.le_succ _)
    simp [List.take_append, Nat.add_comm 1, hall]
  · have htake : rest.takeWhile (· != quote) = rest :=
      List.takeWhile_eq_self_iff.2 fun c hc => bne_iff_ne.2 fun heq : c = quote => hmem (heq ▸ hc)
    rw [htake, List.drop_length, if_neg (Nat.lt_irrefl _)]
    rfl

/-- **A scan reads the pattern of the rule** for the first character: `Token.scan c rest =
(r.pattern.munch (c :: rest)).bind fun n => (r.token ((c :: rest).take n)).map fun t => (t, n - 1)`.
-/
theorem scan_of_ruleAt (h : ruleAt c = some r) (rest : List Char) :
    Token.scan c rest = (r.pattern.munch (c :: rest)).bind fun n =>
      (r.token ((c :: rest).take n)).map fun t => (t, n - 1) := by
  unfold ruleAt at h
  unfold Token.scan
  split_ifs at h ⊢ with hdigit hpoint hword hquote
  all_goals obtain rfl := Option.some.inj h
  · have hmunch := munch_numeral hdigit rest
    have hnumber := numberOf_eq (isSome_numberOf (.inl (matches_of_munch hmunch).2))
    rw [hmunch, Option.bind_some]
    exact (congrArg (Option.map fun t => (t, Token.numberLength rest)) hnumber).symm
  · subst hpoint
    have hmunch := munch_pointNumeral rest
    rw [hmunch]
    cases hlength : Token.pointNumberLength? rest with
    | none => rfl
    | some n =>
      rw [hlength] at hmunch
      have hnumber := numberOf_eq (isSome_numberOf (.inr (matches_of_munch hmunch).2))
      rw [Option.map_some, Option.map_some, Option.bind_some]
      exact (congrArg (Option.map fun t => (t, n)) hnumber).symm
  · have hfirst : (one Token.startsWord).munch (c :: rest) = some 1 := if_pos hword
    have htail := List.takeWhile_prefix (l := rest) Token.continuesWord
    rw [Rule.word, munch_seq, hfirst, Option.bind_some, List.drop_succ_cons, List.drop_zero, munch,
      Option.map_some, Option.bind_some, Nat.add_comm, List.take_succ_cons,
      ← List.prefix_iff_eq_take.1 htail]
    rfl
  · exact scan_quoted c rest

/-- `Token.scan c rest = Token.scanSign c rest`: where no other rule is for a character, signs are
looked for. -/
theorem scan_of_ruleAt_none (h : ruleAt c = none) (rest : List Char) :
    Token.scan c rest = Token.scanSign c rest := by
  unfold ruleAt at h
  unfold Token.scan
  split_ifs at h ⊢
  rfl

/-! ## (3) Scanning for signs -/

variable {s : List Char × Token}

/-- Signs have one character or two: `∀ s ∈ signs, s.1.length ≤ 2`. -/
theorem length_le_of_mem_signs : ∀ s ∈ signs, s.1.length ≤ 2 := by decide

/-- `s.1 = [c] ∨ ∃ d tail, rest = d :: tail ∧ s.1 = [c, d]`: what begins a text and is a sign is its
first character or its first two. -/
theorem sign_begins (hs : s ∈ signs) (h : s.1 <+: c :: rest) :
    s.1 = [c] ∨ ∃ d tail, rest = d :: tail ∧ s.1 = [c, d] := by
  have hne := ne_nil_of_mem_signs s hs
  have hlength := length_le_of_mem_signs s hs
  match hsign : s.1, h with
  | [], _ => exact absurd hsign hne
  | [_], h => exact .inl (by rw [(List.cons_prefix_cons.1 h).1])
  | [_, d], h =>
    obtain ⟨rfl, tail, rfl⟩ := List.cons_prefix_cons.1 h
    exact .inr ⟨d, tail, rfl, rfl⟩
  | _ :: _ :: _ :: _, _ =>
    rw [hsign, List.length_cons, List.length_cons, List.length_cons] at hlength
    omega

/-- `Token.scanSign c (d :: tail) = some (s.2, 1)`: signs of two characters are scanned. -/
theorem scanSign_double (hs : s ∈ signs) (h : s.1 = [c, d]) (tail : List Char) :
    Token.scanSign c (d :: tail) = some (s.2, 1) := by
  fin_cases hs <;> cases h <;> rfl

/-- `(Token.scanSign c rest).isSome = true`: signs of one character are scanned, or longer ones that
begin with them. -/
theorem isSome_scanSign (hs : s ∈ signs) (h : s.1 = [c]) (rest : List Char) :
    (Token.scanSign c rest).isSome = true := by
  fin_cases hs <;> cases h <;> unfold Token.scanSign <;> split <;> simp_all

/-- What is scanned as a sign is one: `n ≤ rest.length ∧ (c :: rest.take n, t) ∈ signs`. -/
theorem mem_signs_of_scanSign (h : Token.scanSign c rest = some (t, n)) :
    n ≤ rest.length ∧ (c :: rest.take n, t) ∈ signs := by
  unfold Token.scanSign at h
  split at h
  all_goals
    cases h <;> exact ⟨by simp, by simp [signs]⟩

/-- A scanned sign is the longest one: `s.1.length ≤ n + 1`. -/
theorem length_le_of_scanSign (h : Token.scanSign c rest = some (t, n)) (hs : s ∈ signs)
    (hbegins : s.1 <+: c :: rest) : s.1.length ≤ n + 1 := by
  obtain hone | ⟨d, tail, rfl, htwo⟩ := sign_begins hs hbegins
  · rw [hone]
    exact Nat.le_add_left 1 n
  · rw [scanSign_double hs htwo] at h
    obtain ⟨-, rfl⟩ := Prod.mk.inj (Option.some.inj h)
    rw [htwo]
    exact Nat.le_refl 2

/-- Where no sign is scanned none begins: `¬ s.1 <+: c :: rest`. -/
theorem not_mem_signs_of_scanSign (h : Token.scanSign c rest = none) (hs : s ∈ signs) :
    ¬ s.1 <+: c :: rest := by
  intro hbegins
  obtain hone | ⟨d, tail, rfl, htwo⟩ := sign_begins hs hbegins
  · have hsome := isSome_scanSign hs hone rest
    rw [h] at hsome
    cases hsome
  · rw [scanSign_double hs htwo] at h
    cases h

/-! ## (4) What is scanned -/

/-- What begins a text and is a token begins with the text's first character:
`∃ vs, us = c :: vs`. -/
theorem Matched.cons_of_begins (h : Matched us) (hus : us <+: c :: rest) : ∃ vs, us = c :: vs := by
  obtain ⟨d, vs, rfl⟩ := h.exists_cons
  obtain ⟨rfl, -⟩ := List.cons_prefix_cons.1 hus
  exact ⟨vs, rfl⟩

/-- A token is the longest where no token at the start of the text takes more:
`IsLongest (c :: rest) (c :: rest.take n) t`. -/
theorem isLongest_take (hn : n ≤ rest.length) (hwritten : Written (c :: rest.take n) t)
    (hle : ∀ vs, c :: vs <+: c :: rest → Matched (c :: vs) → (c :: vs).length ≤ n + 1) :
    IsLongest (c :: rest) (c :: rest.take n) t := by
  refine ⟨List.cons_prefix_cons.2 ⟨rfl, List.take_prefix n rest⟩, hwritten,
    fun vs hvs hmatched => ?_⟩
  obtain ⟨ws, rfl⟩ := hmatched.cons_of_begins hvs
  rw [@List.length_cons _ c (rest.take n), List.length_take_of_le hn]
  exact hle ws hvs hmatched

/-- **What is scanned is the longest token** at the start of a text:
`n ≤ rest.length ∧ IsLongest (c :: rest) (c :: rest.take n) t`. -/
theorem isLongest_of_scan (h : Token.scan c rest = some (t, n)) :
    n ≤ rest.length ∧ IsLongest (c :: rest) (c :: rest.take n) t := by
  cases hrule : ruleAt c with
  | some r =>
    have hr := mem_rules_of_ruleAt hrule
    rw [scan_of_ruleAt hrule] at h
    obtain ⟨m, hm, htoken⟩ := Option.bind_eq_some_iff.1 h
    obtain ⟨t, ht, hn⟩ := Option.map_eq_some_iff.1 htoken
    obtain ⟨rfl, rfl⟩ := Prod.mk.inj hn
    obtain ⟨hle, hmatch⟩ := matches_of_munch hm
    cases m with
    | zero => exact absurd hmatch.nullable (not_nullable hr)
    | succ n =>
      have hn : n ≤ rest.length := Nat.le_of_succ_le_succ hle
      refine ⟨hn, isLongest_take hn ⟨r, hr, hmatch, ht⟩ fun vs hvs ⟨r', hr', hmatch'⟩ => ?_⟩
      obtain rfl := eq_of_ruleAt hr' hmatch' hrule
      obtain ⟨k, hk, hle⟩ := hmatch'.le_munch (deterministic hr) hvs
      obtain rfl := Option.some.inj (hm.symm.trans hk)
      exact hle
  | none =>
    -- no rule but those for signs begins here
    rw [scan_of_ruleAt_none hrule] at h
    obtain ⟨hn, hmem⟩ := mem_signs_of_scanSign h
    have hwritten : Written (c :: rest.take n) t :=
      ⟨.sign (c :: rest.take n, t), List.mem_append_right _ (List.mem_map_of_mem hmem), rfl, rfl⟩
    refine ⟨hn, isLongest_take hn hwritten fun vs hvs ⟨r, hr, hmatch⟩ => ?_⟩
    obtain ⟨s, hs, -, hsign⟩ := exists_sign_of_ruleAt hr hmatch hrule
    rw [← hsign] at hvs ⊢
    exact length_le_of_scanSign h hs hvs

/-- **Where nothing is scanned no token begins**: `¬ Matched us`. -/
theorem not_matched_of_scan (h : Token.scan c rest = none) (hus : us <+: c :: rest) :
    ¬ Matched us := by
  intro hmatched
  obtain ⟨ws, rfl⟩ := hmatched.cons_of_begins hus
  obtain ⟨r, hr, hmatch⟩ := hmatched
  cases hrule : ruleAt c with
  | some r₀ =>
    obtain rfl := eq_of_ruleAt hr hmatch hrule
    obtain ⟨n, hn, -⟩ := hmatch.le_munch (deterministic hr) hus
    obtain ⟨t, ht⟩ := Option.isSome_iff_exists.1 (isSome_token hr (matches_of_munch hn).2)
    rw [scan_of_ruleAt hrule, hn, Option.bind_some, ht] at h
    cases h
  | none =>
    obtain ⟨s, hs, -, hsign⟩ := exists_sign_of_ruleAt hr hmatch hrule
    rw [scan_of_ruleAt_none hrule] at h
    exact not_mem_signs_of_scanSign h hs (hsign ▸ hus)

/-- **The longest token at the start of a text is scanned**: there are `c` and `vs` with
`us = c :: vs ∧ Token.isBlank c = false ∧ Token.scan c (vs ++ rest) = some (t, vs.length)`. -/
theorem IsLongest.scan (h : IsLongest (us ++ rest) us t) :
    ∃ c vs, us = c :: vs ∧ Token.isBlank c = false ∧
      Token.scan c (vs ++ rest) = some (t, vs.length) := by
  obtain ⟨c, vs, rfl⟩ := h.written.matched.exists_cons
  refine ⟨c, vs, rfl, h.written.matched.not_isBlank, ?_⟩
  cases hscan : Token.scan c (vs ++ rest) with
  | none => exact absurd h.written.matched (not_matched_of_scan hscan h.begins)
  | some found =>
    obtain ⟨t', n⟩ := found
    obtain ⟨hn, hfound⟩ := isLongest_of_scan hscan
    obtain ⟨hus, rfl⟩ := h.unique hfound
    have hlength := congrArg List.length hus
    rw [List.length_cons, List.length_cons, List.length_take_of_le hn] at hlength
    rw [Nat.succ.inj hlength]

end Scan

end PanelQuery.Formula
