import PanelQuery.Json.Reading
import PanelQuery.Proofs.Number.Digits

/-! # Numbers and texts read back

A number that is read from a text by itself is read from it as well when more of a document follows,
and the characters after it are those after both. The digits of an integer that fits a word are read
as that integer, and a text in quotes as that text.

* **`Closing`** — what may follow a value in a document without spaces;
* **`number?_append`** — a number with more behind it;
* **`number?_toDigits`** — the digits of a count;
* **`textBody?_quoted`** — a text in quotes. -/

namespace PanelQuery.Json

/-- The text is empty or goes on with what may follow a value. -/
def Closing (cs : List Char) : Prop := ∀ c ∈ cs.head?, c ∈ [',', ']', '\x7d']

variable {cs r rest : List Char}

/-- A comma or a closing bracket may follow a value: `Closing (c :: cs)`. -/
theorem closing_cons (c : Char) (hc : c ∈ [',', ']', '\x7d']) (cs : List Char) :
    Closing (c :: cs) :=
  fun _ hd => Option.some.inj hd ▸ hc

/-- What holds of a comma and of the closing brackets holds of what follows a value:
`∀ c ∈ rest.head?, P c`. -/
theorem Closing.forall_head? (h : Closing rest) {P : Char → Prop} (hcomma : P ',')
    (hbracket : P ']') (hbrace : P '\x7d') : ∀ c ∈ rest.head?, P c := by
  intro c hc
  have hmem := h c hc
  simp only [List.mem_cons, List.not_mem_nil, or_false] at hmem
  rcases hmem with rfl | rfl | rfl
  · exact hcomma
  · exact hbracket
  · exact hbrace

/-- A value is not followed by a digit: `NoDigit rest`. -/
theorem Closing.noDigit (h : Closing rest) : NoDigit rest :=
  h.forall_head? (by decide) (by decide) (by decide)

/-! ## (1) Numbers with more behind them -/

/-- `splitSign (cs ++ rest) = ((splitSign cs).1, (splitSign cs).2 ++ rest)`: a sign in front of a
text stays in front when more follows. -/
theorem splitSign_append (hcs : cs ≠ []) (rest : List Char) :
    splitSign (cs ++ rest) = ((splitSign cs).1, (splitSign cs).2 ++ rest) := by
  obtain ⟨c, cs, rfl⟩ := List.exists_cons_of_ne_nil hcs
  unfold splitSign
  grind

/-- `exponent? (cs ++ rest) = some (e.1, e.2.1, e.2.2 ++ rest)`: an exponent that is read by itself
is read with more behind it. -/
theorem exponent?_append {e : Bool × List Char × List Char} (h : exponent? cs = some e)
    (hrest : NoDigit rest) : exponent? (cs ++ rest) = some (e.1, e.2.1, e.2.2 ++ rest) := by
  have hcs : cs ≠ [] := by
    rintro rfl
    cases h
  unfold exponent? at h ⊢
  rw [splitSign_append hcs]
  dsimp only at h ⊢
  rw [takeWhile_isDigit_append _ hrest, dropWhile_isDigit_append _ hrest]
  split at h
  · cases h
  · rename_i hdigits
    rw [if_neg hdigits]
    cases h
    rfl

/-- What ends a number: an exponent, which makes it the value of `scaled`, or nothing, which makes
it `plain`. -/
def exponentOr? (plain : Json) (scaled : Bool → List Char → Json) :
    List Char → Option (Json × List Char)
  | [] => some (plain, [])
  | c :: cs =>
      if c == 'e' || c == 'E' then (exponent? cs).bind fun e => some (scaled e.1 e.2.1, e.2.2)
      else some (plain, c :: cs)

/-- `exponentOr? plain scaled (cs ++ rest) = some (j, r ++ rest)`: the end of a number stays its
end. -/
theorem exponentOr?_append {plain j : Json} {scaled : Bool → List Char → Json}
    (h : exponentOr? plain scaled cs = some (j, r)) (hrest : Closing rest) :
    exponentOr? plain scaled (cs ++ rest) = some (j, r ++ rest) := by
  cases cs with
  | nil =>
    cases h
    cases rest with
    | nil => rfl
    | cons c more =>
      have hmark : ¬(c == 'e' || c == 'E') = true :=
        hrest.forall_head? (P := fun c => ¬(c == 'e' || c == 'E') = true)
          (by decide) (by decide) (by decide) c rfl
      exact if_neg hmark
  | cons c cs =>
    rw [List.cons_append]
    rw [exponentOr?] at h ⊢
    by_cases hmark : (c == 'e' || c == 'E') = true
    · rw [if_pos hmark] at h ⊢
      obtain ⟨e, he, heq⟩ := Option.bind_eq_some_iff.1 h
      cases heq
      rw [exponent?_append he hrest.noDigit]
      rfl
    · rw [if_neg hmark] at h ⊢
      cases h
      rfl

/-- A float with its sign, where there is one. -/
def signedReal (negative : Bool) : Option Float → Json
  | some x => real (if negative then -x else x)
  | none => unreadable

/-- What follows the digits before the point: a fraction, an exponent, both or neither. -/
def numberEnd? (negative : Bool) (n : Numeral) : List Char → Option (Json × List Char)
  | '.' :: more =>
      if (more.takeWhile isDigit).isEmpty then none
      else
        let n := n.fraction (more.takeWhile isDigit)
        exponentOr? (signedReal negative n.toFloat?)
          (fun down digits => signedReal negative (n.withExponent down digits))
          (more.dropWhile isDigit)
  | rest => exponentOr? (n.plain negative)
      (fun down digits => signedReal negative (n.withExponent down digits)) rest

/-- Without a point there is no fraction: `numberEnd? negative n cs = exponentOr? (n.plain negative)
(fun down digits => signedReal negative (n.withExponent down digits)) cs`. -/
theorem numberEnd?_of_ne_point (negative : Bool) (n : Numeral) (h : ∀ more, cs ≠ '.' :: more) :
    numberEnd? negative n cs = exponentOr? (n.plain negative)
      (fun down digits => signedReal negative (n.withExponent down digits)) cs :=
  numberEnd?.eq_2 _ _ _ h

/-- **A number, by its parts.** -/
theorem number?_eq (negative : Bool) (cs : List Char) :
    number? negative cs =
      if (cs.takeWhile isDigit).isEmpty ||
          ((cs.takeWhile isDigit).head? == some '0' && (cs.takeWhile isDigit).length != 1) then none
      else numberEnd? negative (Numeral.whole ⟨0, 0⟩ (cs.takeWhile isDigit))
        (cs.dropWhile isDigit) := by
  unfold number?
  dsimp only
  split
  · rfl
  · generalize cs.dropWhile isDigit = after
    generalize cs.takeWhile isDigit = whole
    split
    · rename_i more
      rw [numberEnd?]
      dsimp only
      split
      · rfl
      · unfold exponentOr?
        generalize more.dropWhile isDigit = after
        cases after <;> rfl
    · rename_i c more hpoint
      rw [numberEnd?_of_ne_point _ _ fun rest heq => hpoint (List.cons.inj heq).1]
      rfl
    · rfl

/-- `numberEnd? negative n (cs ++ rest) = some (j, r ++ rest)`: what follows the digits before the
point stays so. -/
theorem numberEnd?_append {negative : Bool} {n : Numeral} {j : Json}
    (h : numberEnd? negative n cs = some (j, r)) (hrest : Closing rest) :
    numberEnd? negative n (cs ++ rest) = some (j, r ++ rest) := by
  unfold numberEnd? at h
  split at h
  · rename_i more
    rw [List.cons_append, numberEnd?, takeWhile_isDigit_append _ hrest.noDigit,
      dropWhile_isDigit_append _ hrest.noDigit]
    split at h
    · cases h
    · rename_i hdigits
      rw [if_neg hdigits]
      exact exponentOr?_append h hrest
  · rename_i hpoint
    rw [numberEnd?_of_ne_point]
    · exact exponentOr?_append h hrest
    · intro more heq
      cases cs with
      | nil =>
        have hhead : rest.head? = some '.' := by
          rw [← List.nil_append rest, heq]
          rfl
        exact absurd (hrest '.' hhead) (by decide)
      | cons c cs => exact hpoint cs (by rw [(List.cons.inj heq).1])

/-- **A number that is read by itself is read with more behind it**, as the same number:
`number? negative (cs ++ rest) = some (j, r ++ rest)`. -/
theorem number?_append {negative : Bool} {j : Json} (h : number? negative cs = some (j, r))
    (hrest : Closing rest) : number? negative (cs ++ rest) = some (j, r ++ rest) := by
  rw [number?_eq] at h ⊢
  rw [takeWhile_isDigit_append _ hrest.noDigit, dropWhile_isDigit_append _ hrest.noDigit]
  split at h
  · cases h
  · rename_i hwhole
    rw [if_neg hwhole]
    exact numberEnd?_append h hrest

/-- `number? negative (c :: cs) = none`: no number begins with another character than a digit. -/
theorem number?_of_not_isDigit {negative : Bool} {c : Char} (hc : isDigit c = false) :
    number? negative (c :: cs) = none := by
  rw [number?_eq, List.takeWhile_cons_of_neg (by simp [hc])]
  rfl

/-! ## (2) Integers -/

/-- An integer that a 64-bit word can hold, with or without sign. -/
def FitsWord (n : Int) : Prop := -(twoPow 63 : Int) ≤ n ∧ n < (twoPow 64 : Int)

/-- `Numeral.whole ⟨acc, 0⟩ digits = ⟨digitsValue acc digits, 0⟩`: all digits count as long as their
value fits a word. -/
theorem Numeral.whole_of_lt {acc : Nat} {digits : List Char}
    (h : digitsValue acc digits < wordLimit) :
    Numeral.whole ⟨acc, 0⟩ digits = ⟨digitsValue acc digits, 0⟩ := by
  induction digits generalizing acc with
  | nil => rfl
  | cons c rest ih =>
    have hnext : 10 * acc + (c.toNat - '0'.toNat) < wordLimit :=
      Nat.lt_of_le_of_lt (le_digitsValue _ rest) h
    rw [Numeral.whole, if_pos ⟨rfl, hnext⟩, ih h]
    rfl

/-- `Numeral.plain ⟨n, 0⟩ true = integer (-(n : Int))`: a numeral with a minus is a negative
integer. -/
theorem Numeral.plain_negative {n : Nat} (hpos : 0 < n) (hn : n ≤ twoPow 63) :
    Numeral.plain ⟨n, 0⟩ true = integer (-(n : Int)) := by
  have hnot : ¬(n = 0 ∨ twoPow 63 < n) := by omega
  exact if_neg hnot

/-- **The digits of a count are read as the count**:
`number? negative (Nat.toDigits 10 n) = some (Numeral.plain ⟨n, 0⟩ negative, [])`. -/
theorem number?_toDigits {n : Nat} (hn : n < wordLimit) (negative : Bool) :
    number? negative (Nat.toDigits 10 n) = some (Numeral.plain ⟨n, 0⟩ negative, []) := by
  have hall : ∀ c ∈ Nat.toDigits 10 n, isDigit c = true := fun c => isDigit_of_mem_toDigits
  have hdigits : (Nat.toDigits 10 n).takeWhile isDigit = Nat.toDigits 10 n := by
    simpa using noDigit_nil.takeWhile_append hall
  have hrest : (Nat.toDigits 10 n).dropWhile isDigit = [] := by
    simpa using noDigit_nil.dropWhile_append hall
  have hwhole : ¬((Nat.toDigits 10 n).isEmpty ||
      ((Nat.toDigits 10 n).head? == some '0' && (Nat.toDigits 10 n).length != 1)) = true := by
    rcases Nat.eq_zero_or_pos n with rfl | hpos
    · decide
    · simp [Nat.toDigits_ne_nil, head?_toDigits_ne_zero hpos]
  rw [number?_eq, hdigits, hrest, if_neg hwhole,
    Numeral.whole_of_lt (by rwa [digitsValue_toDigits]), digitsValue_toDigits]
  rfl

/-! ## (3) Texts -/

/-- `textBody? (.whole cs) (escaped c ++ rest) = textBody? (.whole (c :: cs)) rest`: a character in
quotes is read as that character. -/
theorem textBody?_escaped (c : Char) (cs rest : List Char) :
    textBody? (.whole cs) (escaped c ++ rest) = textBody? (.whole (c :: cs)) rest := by
  unfold escaped
  -- the seven characters that a backslash marks with one letter
  iterate 7
    split
    · next h => subst h; rfl
  split
  · -- four hexadecimal digits, of which two are zeros
    rename_i hcontrol
    have hall : ∀ n : Fin 32, hexWord? ['0', '0', Nat.digitChar (n.val / 16),
        Nat.digitChar (n.val % 16)] = some n.val := by decide
    have hword := hall ⟨c.toNat, hcontrol⟩
    have hunit : Draft.addUnit c.toNat (.whole cs) = .whole (c :: cs) := by
      rw [Draft.addUnit, if_pos (.inl (by omega)), Char.ofNat_toNat]
    have hstep : textBody? (.whole cs) (['\\', 'u', '0', '0', Nat.digitChar (c.toNat / 16),
        Nat.digitChar (c.toNat % 16)] ++ rest) =
          (hexWord? ['0', '0', Nat.digitChar (c.toNat / 16), Nat.digitChar (c.toNat % 16)]).bind
            fun unit => textBody? (Draft.addUnit unit (.whole cs)) rest := rfl
    rw [hstep, hword, Option.bind_some, hunit]
  · -- the character itself
    rename_i hquote hbackslash _ _ _ _ _ hcontrol
    rw [List.singleton_append, textBody?.eq_5, if_neg hcontrol]
    · rfl
    · exact hquote
    · exact fun _ _ _ _ _ heq => absurd heq hbackslash
    · exact fun _ _ heq => absurd heq hbackslash

/-- Characters in quotes are read up to the closing quote:
`textBody? (.whole cs) (s.flatMap escaped ++ '"' :: rest)` is
`some (.whole (s.reverse ++ cs), rest)`. -/
theorem textBody?_flatMap_escaped (s cs rest : List Char) :
    textBody? (.whole cs) (s.flatMap escaped ++ '"' :: rest) =
      some (.whole (s.reverse ++ cs), rest) := by
  induction s generalizing cs with
  | nil => rfl
  | cons c s ih =>
    rw [List.flatMap_cons, List.append_assoc, textBody?_escaped, ih, List.reverse_cons,
      List.append_assoc]
    rfl

/-- **A text in quotes is read as the text**: there is `draft` with
`quoted s ++ rest = '"' :: (s.toList.flatMap escaped ++ '"' :: rest)`,
`textBody? (.whole []) (s.toList.flatMap escaped ++ '"' :: rest) = some (draft, rest)` and
`draft.text? = some s`. -/
theorem textBody?_quoted (s : String) (rest : List Char) :
    ∃ draft, quoted s ++ rest = '"' :: (s.toList.flatMap escaped ++ '"' :: rest) ∧
      textBody? (.whole []) (s.toList.flatMap escaped ++ '"' :: rest) = some (draft, rest) ∧
      draft.text? = some s := by
  refine ⟨_, ?_, textBody?_flatMap_escaped s.toList [] rest, ?_⟩
  · rw [quoted, List.cons_append, List.cons_append, List.append_assoc]
    rfl
  · rw [Draft.text?, List.append_nil, List.reverse_reverse, String.ofList_toList]

end PanelQuery.Json
