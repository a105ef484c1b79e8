import PanelQuery.Number.Reading

/-! # Decimal digits

What is written in decimal digits is read as the same count, whatever follows the digits, as long as
it is no digit itself.

* **`digitsValue_toDigits`** — the digits of a count have its value;
* **`head?_toDigits_ne_zero`** — and no zero in front;
* **`takeWhile_isDigit_append`, `dropWhile_isDigit_append`** — digits in front of a text that does
  not begin with one (`NoDigit`). -/

namespace PanelQuery

/-! ## (1) The digits of a count -/

/-- `isDigit c = true`: the digits of a count are digits. -/
theorem isDigit_of_mem_toDigits {n : Nat} {c : Char} (hc : c ∈ Nat.toDigits 10 n) :
    isDigit c = true := by
  have hdigit := Nat.isDigit_of_mem_toDigits (by decide) (by decide) hc
  unfold isDigit
  rw [Char.isDigit, Bool.and_eq_true, decide_eq_true_eq, decide_eq_true_eq] at hdigit
  exact Bool.and_eq_true_iff.2 ⟨decide_eq_true hdigit.1, decide_eq_true hdigit.2⟩

/-- **The digits of a count have its value**: `digitsValue 0 (Nat.toDigits 10 n) = n`. -/
theorem digitsValue_toDigits (n : Nat) : digitsValue 0 (Nat.toDigits 10 n) = n :=
  Nat.ofDigitChars_ten_toDigits

/-- `digitsValue 0 (List.replicate k '0' ++ digits) = digitsValue 0 digits`: zeros in front do not
change the value. -/
theorem digitsValue_replicate_append (k : Nat) (digits : List Char) :
    digitsValue 0 (List.replicate k '0' ++ digits) = digitsValue 0 digits := by
  have hzero : digitsValue 0 (List.replicate k '0') = 0 := Nat.ofDigitChars_replicate_zero
  rw [digitsValue, List.foldl_append]
  exact congrArg (fun n => digitsValue n digits) hzero

/-- More digits make no smaller value: `acc ≤ digitsValue acc digits`. -/
theorem le_digitsValue (acc : Nat) (digits : List Char) : acc ≤ digitsValue acc digits := by
  induction digits generalizing acc with
  | nil => exact Nat.le_refl acc
  | cons c rest ih =>
    have hle := ih (10 * acc + (c.toNat - '0'.toNat))
    rw [digitsValue, List.foldl_cons]
    exact Nat.le_trans (by omega) hle

/-- **No zero stands in front** of the digits of a positive count:
`(Nat.toDigits 10 n).head? ≠ some '0'`. -/
theorem head?_toDigits_ne_zero {n : Nat} (hn : 0 < n) : (Nat.toDigits 10 n).head? ≠ some '0' := by
  induction n using Nat.strongRecOn with
  | ind n ih =>
    by_cases hsmall : n < 10
    · have hall : ∀ m : Fin 10, 0 < m.val → Nat.digitChar m.val ≠ '0' := by decide
      rw [Nat.toDigits_of_lt_base hsmall]
      exact fun hzero => hall ⟨n, hsmall⟩ hn (Option.some.inj hzero)
    · -- the first digit is that of the count without its last one
      have hfirst := ih (n / 10) (by omega) (by omega)
      rw [Nat.toDigits_of_base_le (by decide) (Nat.not_lt.1 hsmall)]
      obtain ⟨c, cs, hdigits⟩ := List.exists_cons_of_ne_nil (Nat.toDigits_ne_nil (n := n / 10))
      rw [hdigits] at hfirst ⊢
      exact hfirst

/-! ## (2) Digits in front of a text -/

/-- The text does not begin with a digit. -/
def NoDigit (cs : List Char) : Prop := ∀ c ∈ cs.head?, isDigit c = false

/-- Nothing begins with no digit: `NoDigit []`. -/
theorem noDigit_nil : NoDigit [] := nofun

/-- A character that is no digit, before others: `NoDigit (c :: cs)`. -/
theorem noDigit_cons {c : Char} (hc : isDigit c = false) (cs : List Char) : NoDigit (c :: cs) :=
  fun _ hd => Option.some.inj hd ▸ hc

variable {rest : List Char}

/-- `rest.takeWhile isDigit = []`: the digits in front of such a text are none. -/
theorem NoDigit.takeWhile (h : NoDigit rest) : rest.takeWhile isDigit = [] := by
  cases rest with
  | nil => rfl
  | cons c rest => exact List.takeWhile_cons_of_neg (by simp [h c rfl])

/-- `rest.dropWhile isDigit = rest`: all of such a text comes after its digits. -/
theorem NoDigit.dropWhile (h : NoDigit rest) : rest.dropWhile isDigit = rest := by
  cases rest with
  | nil => rfl
  | cons c rest => exact List.dropWhile_cons_of_neg (by simp [h c rfl])

/-- `(digits ++ rest).takeWhile isDigit = digits`: digits are all that stands in front of such a
text. -/
theorem NoDigit.takeWhile_append {digits : List Char} (h : NoDigit rest)
    (hdigits : ∀ c ∈ digits, isDigit c = true) : (digits ++ rest).takeWhile isDigit = digits := by
  rw [List.takeWhile_append_of_pos hdigits, h.takeWhile, List.append_nil]

/-- `(digits ++ rest).dropWhile isDigit = rest`: after digits comes all of such a text. -/
theorem NoDigit.dropWhile_append {digits : List Char} (h : NoDigit rest)
    (hdigits : ∀ c ∈ digits, isDigit c = true) : (digits ++ rest).dropWhile isDigit = rest := by
  rw [List.dropWhile_append_of_pos hdigits, h.dropWhile]

/-- **The digits in front** of a text stay what they are when more follows that is no digit:
`(cs ++ rest).takeWhile isDigit = cs.takeWhile isDigit`. -/
theorem takeWhile_isDigit_append (cs : List Char) (h : NoDigit rest) :
    (cs ++ rest).takeWhile isDigit = cs.takeWhile isDigit := by
  induction cs with
  | nil => exact h.takeWhile
  | cons c cs ih =>
    rw [List.cons_append, List.takeWhile_cons, List.takeWhile_cons, ih]

/-- **What comes after the digits** is followed by what follows the text:
`(cs ++ rest).dropWhile isDigit = cs.dropWhile isDigit ++ rest`. -/
theorem dropWhile_isDigit_append (cs : List Char) (h : NoDigit rest) :
    (cs ++ rest).dropWhile isDigit = cs.dropWhile isDigit ++ rest := by
  induction cs with
  | nil => exact h.dropWhile
  | cons c cs ih =>
    rw [List.cons_append, List.dropWhile_cons, List.dropWhile_cons, ih]
    split <;> rfl

end PanelQuery
