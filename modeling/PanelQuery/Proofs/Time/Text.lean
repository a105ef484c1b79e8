import PanelQuery.Proofs.Number.Digits
import PanelQuery.Proofs.Time.Civil
import PanelQuery.Time.Text

/-! # Instants read back

The text of an instant is read as that instant, to the nanosecond, as long as a date may have its
year. Each part of the text is read up to where the next one begins.

* **`takeCount?_digits`, `takeField?_padded`** — digits at the start of a text;
* **`takeYear?_yearText`** — a year with or without sign;
* **`takeFraction?_fractionText`** — the nanoseconds of a second;
* **`dayOf?_civil`** — a day by its numbers;
* **`readInstant?_text`** — the whole text. -/

namespace PanelQuery

variable {n width : Nat} {rest : List Char}

/-! ## (1) Counts with zeros in front -/

/-- The characters of a count with zeros in front: `(padded width n).toList` is
`List.replicate (width - (Nat.toDigits 10 n).length) '0' ++ Nat.toDigits 10 n`. -/
theorem toList_padded (width n : Nat) :
    (padded width n).toList =
      List.replicate (width - (Nat.toDigits 10 n).length) '0' ++ Nat.toDigits 10 n :=
  String.toList_ofList

/-- They are digits: `∀ c ∈ (padded width n).toList, isDigit c = true`. -/
theorem isDigit_padded (width n : Nat) : ∀ c ∈ (padded width n).toList, isDigit c = true := by
  intro c hc
  rw [toList_padded] at hc
  rcases List.mem_append.1 hc with hc | hc
  · rw [List.eq_of_mem_replicate hc]
    decide
  · exact isDigit_of_mem_toDigits hc

/-- `digitsValue 0 (padded width n).toList = n`: they have the value of the count. -/
theorem digitsValue_padded (width n : Nat) : digitsValue 0 (padded width n).toList = n := by
  rw [toList_padded, digitsValue_replicate_append, digitsValue_toDigits]

/-- There is at least one: `(padded width n).toList ≠ []`. -/
theorem toList_padded_ne_nil (width n : Nat) : (padded width n).toList ≠ [] := by
  rw [toList_padded]
  exact List.append_ne_nil_of_right_ne_nil _ Nat.toDigits_ne_nil

/-- `(padded width n).toList.length = width`: they are as many as they should be, as long as the
count has no more digits. -/
theorem length_padded (hwidth : 0 < width) (hn : n < tenPow width) :
    (padded width n).toList.length = width := by
  have hlength : (Nat.toDigits 10 n).length ≤ width :=
    (Nat.length_toDigits_le_iff (by decide) hwidth).2 hn
  rw [toList_padded, List.length_append, List.length_replicate]
  omega

/-! ## (2) Counts at the start of a text -/

/-- `Text.isBlank c = false`: a digit is not blank. -/
theorem not_isBlank_of_isDigit {c : Char} (hc : isDigit c = true) : Text.isBlank c = false := by
  obtain ⟨hlow, hhigh⟩ := Bool.and_eq_true_iff.1 hc
  have hlow : 48 ≤ c.toNat := Char.le_def.1 (of_decide_eq_true hlow)
  have hhigh : c.toNat ≤ 57 := Char.le_def.1 (of_decide_eq_true hhigh)
  have hall : ∀ r ∈ Text.blankRanges, r.2 < 48 ∨ 57 < r.1 := by decide
  refine List.any_eq_false.2 fun r hr hmem => ?_
  rw [Bool.and_eq_true, decide_eq_true_eq, decide_eq_true_eq] at hmem
  have hout := hall r hr
  omega

/-- `Text.trimStart (digits ++ rest) = digits ++ rest`: no blanks are in front of digits. -/
theorem trimStart_digits {digits : List Char} (hne : digits ≠ [])
    (hdigits : ∀ c ∈ digits, isDigit c = true) (rest : List Char) :
    Text.trimStart (digits ++ rest) = digits ++ rest := by
  obtain ⟨c, cs, rfl⟩ := List.exists_cons_of_ne_nil hne
  have hc := not_isBlank_of_isDigit (hdigits c List.mem_cons_self)
  exact List.dropWhile_cons_of_neg (by simp [hc])

/-- **Digits at the start of a text** are read up to what is no digit, or up to the width:
`takeCount? width (digits ++ rest) = some (digitsValue 0 digits, rest)`. -/
theorem takeCount?_digits {digits : List Char} (hne : digits ≠ [])
    (hdigits : ∀ c ∈ digits, isDigit c = true) (hwidth : digits.length ≤ width)
    (hrest : NoDigit (rest.take (width - digits.length))) :
    takeCount? width (digits ++ rest) = some (digitsValue 0 digits, rest) := by
  have htake : ((digits ++ rest).take width).takeWhile isDigit = digits := by
    rw [List.take_append, List.take_of_length_le hwidth]
    exact hrest.takeWhile_append hdigits
  have hempty : ¬digits.isEmpty = true := by simpa using hne
  unfold takeCount?
  dsimp only
  rw [htake, if_neg hempty, List.drop_left]

/-- **A field of full width** is read whatever follows it:
`takeField? width ((padded width n).toList ++ rest) = some (n, rest)`. -/
theorem takeField?_padded (hwidth : 0 < width) (hn : n < tenPow width) (rest : List Char) :
    takeField? width ((padded width n).toList ++ rest) = some (n, rest) := by
  have hne := toList_padded_ne_nil width n
  have hlength := length_padded hwidth hn
  have hnone : NoDigit (rest.take (width - (padded width n).toList.length)) := by
    rw [hlength, Nat.sub_self, List.take_zero]
    exact noDigit_nil
  rw [takeField?, trimStart_digits hne (isDigit_padded _ _),
    takeCount?_digits hne (isDigit_padded _ _) (Nat.le_of_eq hlength) hnone,
    digitsValue_padded]

/-- A text that does not begin with a digit does not when it is cut: `NoDigit (rest.take k)`. -/
theorem NoDigit.take (h : NoDigit rest) (k : Nat) : NoDigit (rest.take k) := by
  cases rest with
  | nil => rwa [List.take_nil]
  | cons c cs =>
    cases k with
    | zero => exact noDigit_nil
    | succ k => exact noDigit_cons (h c rfl) _

/-- A field of any width is read up to what is no digit:
`takeCount? ((padded width n).toList ++ rest).length ((padded width n).toList ++ rest)` is
`some (n, rest)`. -/
theorem takeCount?_padded (width n : Nat) (hrest : NoDigit rest) :
    takeCount? ((padded width n).toList ++ rest).length ((padded width n).toList ++ rest) =
      some (n, rest) := by
  rw [takeCount?_digits (toList_padded_ne_nil width n) (isDigit_padded _ _)
    (by rw [List.length_append]; exact Nat.le_add_right _ _) (hrest.take _), digitsValue_padded]

/-- `takeYear? ((padded 4 n).toList ++ rest) = some ((n : Int), rest)`: a year of four digits is
read whatever follows it. -/
theorem takeYear?_padded (hn : n < tenPow 4) (rest : List Char) :
    takeYear? ((padded 4 n).toList ++ rest) = some ((n : Int), rest) := by
  have hne := toList_padded_ne_nil 4 n
  have hfield := takeField?_padded (by decide) hn rest
  rw [takeField?, trimStart_digits hne (isDigit_padded _ _)] at hfield
  -- the first digit is no sign
  obtain ⟨c, cs, hcs⟩ := List.exists_cons_of_ne_nil hne
  have hc : isDigit c = true := isDigit_padded 4 n c (hcs ▸ List.mem_cons_self)
  unfold takeYear?
  rw [trimStart_digits hne (isDigit_padded _ _)]
  split
  · rename_i heq
    rw [hcs] at heq
    rw [(List.cons.inj heq).1] at hc
    exact absurd hc (by decide)
  · rename_i heq
    rw [hcs] at heq
    rw [(List.cons.inj heq).1] at hc
    exact absurd hc (by decide)
  · rw [hfield]
    rfl

/-- **A year** is read with its sign, or with four digits:
`takeYear? ((yearText year).toList ++ rest) = some (year, rest)`. -/
theorem takeYear?_yearText (year : Int) (hrest : NoDigit rest) :
    takeYear? ((yearText year).toList ++ rest) = some (year, rest) := by
  have hsigned := takeCount?_padded 4 year.natAbs hrest
  unfold yearText
  dsimp only
  split
  · -- before the year zero
    have hyear : -(year.natAbs : Int) = year := by omega
    have hdef : takeYear? ("-".toList ++ ((padded 4 year.natAbs).toList ++ rest)) =
        (takeCount? ((padded 4 year.natAbs).toList ++ rest).length
          ((padded 4 year.natAbs).toList ++ rest)).map fun e => (-(e.1 : Int), e.2) := rfl
    rw [String.toList_append, List.append_assoc, hdef, hsigned, Option.map_some, hyear]
  have hyear : (year.natAbs : Int) = year := by omega
  split
  · -- more than four digits
    have hdef : takeYear? ("+".toList ++ ((padded 4 year.natAbs).toList ++ rest)) =
        (takeCount? ((padded 4 year.natAbs).toList ++ rest).length
          ((padded 4 year.natAbs).toList ++ rest)).map fun e => ((e.1 : Int), e.2) := rfl
    rw [String.toList_append, List.append_assoc, hdef, hsigned, Option.map_some, hyear]
  · have hsmall : year.natAbs < tenPow 4 := by
      have hfour : tenPow 4 = 10000 := rfl
      omega
    rw [takeYear?_padded hsmall, hyear]

/-! ## (3) Fractions of a second -/

/-- The digits after a point are read as what they are of a second:
`takeFraction? ('.' :: ((padded width n).toList ++ rest))` is
`some (n * tenPow (9 - width), rest)`. -/
theorem takeFraction?_padded (hwidth : 0 < width) (hle : width ≤ 9) (hn : n < tenPow width)
    (hrest : NoDigit rest) :
    takeFraction? ('.' :: ((padded width n).toList ++ rest)) =
      some (n * tenPow (9 - width), rest) := by
  have hlength := length_padded hwidth hn
  have hdigits := hrest.takeWhile_append (isDigit_padded width n)
  have hafter := hrest.dropWhile_append (isDigit_padded width n)
  have hcounted : (padded width n).toList.take 9 = (padded width n).toList :=
    List.take_of_length_le (by omega)
  have hempty : ¬(padded width n).toList.isEmpty = true := by
    simpa using toList_padded_ne_nil width n
  rw [takeFraction?, hdigits, hafter, if_neg hempty, hcounted, digitsValue_padded, hlength]

/-- **The nanoseconds of a second** are read, in three, six or nine digits or none:
`takeFraction? ((fractionText nanos).toList ++ ['Z']) = some (nanos, ['Z'])`. -/
theorem takeFraction?_fractionText {nanos : Nat} (h : nanos < 1000000000) :
    takeFraction? ((fractionText nanos).toList ++ ['Z']) = some (nanos, ['Z']) := by
  have hrest : NoDigit ['Z'] := noDigit_cons (by decide) []
  have hpoint : ∀ {width n : Nat}, 0 < width → width ≤ 9 → n < tenPow width →
      takeFraction? (("." ++ padded width n).toList ++ ['Z']) =
        some (n * tenPow (9 - width), ['Z']) := by
    intro width n hwidth hle hn
    rw [String.toList_append, List.append_assoc]
    exact takeFraction?_padded hwidth hle hn hrest
  have hthree : tenPow 3 = 1000 := rfl
  have hsix : tenPow 6 = 1000000 := rfl
  unfold fractionText
  split
  · rename_i hzero
    rw [hzero]
    rfl
  split
  · have hnanos : nanos / 1000000 * tenPow (9 - 3) = nanos := by
      rw [hsix]
      omega
    rw [hpoint (by decide) (by decide) (by omega), hnanos]
  split
  · have hnanos : nanos / 1000 * tenPow (9 - 6) = nanos := by
      rw [hthree]
      omega
    rw [hpoint (by decide) (by decide) (by omega), hnanos]
  · have hnanos : nanos * tenPow (9 - 9) = nanos := Nat.mul_one nanos
    rw [hpoint (by decide) (by decide) h, hnanos]

/-! ## (4) Days by their numbers -/

namespace Day

/-- A month has at most 31 days: `d < Month.firstDay (Day.month d) + 31`. -/
theorem lt_firstDay_month_add (d : Day) : d < Month.firstDay (Day.month d) + 31 := by
  obtain ⟨year, day, hday, hlt, hd, -, hmonth⟩ := exists_march d
  obtain ⟨hlow, hhigh, -, hend⟩ := marchMonth_bounds hday hlt
  have hlength : marchMonthStart ((5 * day + 2) / 153 + 1) ≤
      marchMonthStart ((5 * day + 2) / 153) + 31 := by
    unfold marchMonthStart
    lia
  rw [hmonth, Month.firstDay_eq year hlow hhigh, hd]
  lia

/-- Months and their days are counted from one, and have at most two digits:
`1 ≤ (Day.civil d).month`, `(Day.civil d).month ≤ 12`, `1 ≤ (Day.civil d).day` and
`(Day.civil d).day ≤ 31`. -/
theorem civil_bounds (d : Day) :
    1 ≤ (Day.civil d).month ∧ (Day.civil d).month ≤ 12 ∧ 1 ≤ (Day.civil d).day ∧
      (Day.civil d).day ≤ 31 := by
  have hle := firstDay_month_le d
  have hlt := lt_firstDay_month_add d
  unfold Day.civil
  dsimp only
  lia

end Day

/-- **The numbers of a day name it**, in the years that a date may have:
`dayOf? (Day.civil d).year (Day.civil d).month.toNat (Day.civil d).day.toNat = some d`. -/
theorem dayOf?_civil {d : Day} (h : isCalendarYear (Day.civil d).year = true) :
    dayOf? (Day.civil d).year (Day.civil d).month.toNat (Day.civil d).day.toNat = some d := by
  obtain ⟨hmonth, hmonth', hday, hday'⟩ := Day.civil_bounds d
  have hle := Day.firstDay_month_le d
  have hlt := Day.lt_firstDay_month_succ d
  have hm : Month.ofYear (Day.civil d).year (Day.civil d).month = Day.month d := by
    unfold Month.ofYear Day.civil
    dsimp only
    lia
  have hd : Month.firstDay (Day.month d) + (Day.civil d).day - 1 = d := by
    unfold Day.civil
    dsimp only
    lia
  have hlast : d ≤ Month.lastDay (Day.month d) := by
    unfold Month.lastDay
    lia
  rw [dayOf?, if_pos h, CivilDate.day?]
  dsimp only
  rw [Int.toNat_of_nonneg (by lia), Int.toNat_of_nonneg (by lia), hm, hd,
    if_pos ⟨hmonth, hmonth', hday, hlast⟩]

/-! ## (5) Instants -/

namespace Instant

/-- The instants of the years that a date may have. -/
def IsDated (t : Instant) : Prop := isCalendarYear (Day.civil (Instant.day t)).year = true

instance (t : Instant) : Decidable t.IsDated :=
  inferInstanceAs (Decidable (isCalendarYear (Day.civil (Instant.day t)).year = true))

/-- The second of the day. -/
def second (t : Instant) : Nat := (Instant.timeOfDay t / nanosPerSecond).toNat

/-- The day has 86400 seconds: `t.second < 86400`. -/
theorem second_lt (t : Instant) : t.second < 86400 := by
  unfold second timeOfDay nanosPerDay nanosPerSecond
  omega

/-- The parts of an instant make it up:
`Day.midnight (Instant.day t) + Instant.ofSeconds t.second (Instant.subsecond t).toNat = t`. -/
theorem eq_parts (t : Instant) :
    Day.midnight (Instant.day t) + Instant.ofSeconds t.second (Instant.subsecond t).toNat = t := by
  unfold second timeOfDay subsecond ofSeconds Day.midnight day nanosPerDay nanosPerSecond
  lia

/-- The characters of an instant. -/
theorem toList_text (t : Instant) :
    (Instant.text t).toList =
      (yearText (Day.civil (Instant.day t)).year).toList ++ '-' ::
        ((padded 2 (Day.civil (Instant.day t)).month.toNat).toList ++ '-' ::
          ((padded 2 (Day.civil (Instant.day t)).day.toNat).toList ++ 'T' ::
            ((padded 2 (t.second / 3600)).toList ++ ':' ::
              ((padded 2 (t.second / 60 % 60)).toList ++ ':' ::
                ((padded 2 (t.second % 60)).toList ++
                  ((fractionText (Instant.subsecond t).toNat).toList ++ ['Z'])))))) := by
  simp [Instant.text, Day.text, second, String.toList_append]

end Instant

/-- `(x >>= f) = y`: what is read after a part that is there. -/
theorem bind_eq_of_eq_some {α β : Type} {x : Option α} {a : α} {f : α → Option β} {y : Option β}
    (hx : x = some a) (hf : f a = y) : (x >>= f) = y := by
  rw [hx]
  exact hf

/-- **The text of an instant is read as the instant**, to the nanosecond:
`readInstant? (Instant.text t) = some t`. -/
theorem readInstant?_text {t : Instant} (h : t.IsDated) :
    readInstant? (Instant.text t) = some t := by
  have hsecond := t.second_lt
  obtain ⟨-, hmonth, -, hday⟩ := Day.civil_bounds (Instant.day t)
  have hnanos : (Instant.subsecond t).toNat < 1000000000 := by
    unfold Instant.subsecond nanosPerSecond
    omega
  have hfield : ∀ n, n < 100 → ∀ rest,
      takeField? 2 ((padded 2 n).toList ++ rest) = some (n, rest) :=
    fun n hn rest => takeField?_padded (by decide) hn rest
  unfold readInstant?
  rw [Instant.toList_text]
  -- the date
  refine bind_eq_of_eq_some (takeYear?_yearText _ (noDigit_cons (by decide) _)) ?_
  refine bind_eq_of_eq_some (a := _ ++ _) rfl ?_
  refine bind_eq_of_eq_some (hfield _ (by omega) _) ?_
  refine bind_eq_of_eq_some (a := _ ++ _) rfl ?_
  refine bind_eq_of_eq_some (hfield _ (by omega) _) ?_
  -- the time of day
  refine bind_eq_of_eq_some (a := _ ++ _) rfl ?_
  refine bind_eq_of_eq_some (hfield _ (by omega) _) ?_
  refine bind_eq_of_eq_some (a := _ ++ _) rfl ?_
  refine bind_eq_of_eq_some (hfield _ (by omega) _) ?_
  refine bind_eq_of_eq_some (a := _ ++ _) rfl ?_
  refine bind_eq_of_eq_some (hfield _ (by omega) _) ?_
  refine bind_eq_of_eq_some (takeFraction?_fractionText hnanos) ?_
  refine bind_eq_of_eq_some (a := (0, [])) rfl ?_
  refine bind_eq_of_eq_some (dayOf?_civil h) ?_
  -- what they make up
  have hbounds : (Text.trimStart []).isEmpty = true ∧ t.second / 3600 < 24 ∧
      t.second / 60 % 60 < 60 ∧ t.second % 60 ≤ 60 := ⟨rfl, by omega, by omega, by omega⟩
  have htotal : ((t.second / 3600 : Nat) : Int) * 3600 + ((t.second / 60 % 60 : Nat) : Int) * 60 +
      ((t.second % 60 : Nat) : Int) - 0 = t.second := by omega
  refine (if_pos hbounds).trans (congrArg some ?_)
  rw [htotal, Instant.eq_parts]

end PanelQuery
