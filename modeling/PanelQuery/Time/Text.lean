import PanelQuery.Number.Power
import PanelQuery.Number.Reading
import PanelQuery.Text.Blank
import PanelQuery.Time.Instant

/-! # Dates and instants as text

* **`Day.text`, `readDay?`** — a day as year, month and day with hyphens;
* **`Instant.text`, `readInstant?`** — an instant with its time of day and zone. -/

namespace PanelQuery

/-! ### Writing -/

/-- A count with at least `width` digits. -/
def padded (width n : Nat) : String :=
  let digits := Nat.toDigits 10 n
  String.ofList (List.replicate (width - digits.length) '0' ++ digits)

/-- A year with four digits; outside 0 to 9999 it has a sign. -/
def yearText (year : Int) : String :=
  let digits := padded 4 year.natAbs
  if year < 0 then "-" ++ digits else if 9999 < year then "+" ++ digits else digits

/-- A day as year, month and day of the month. -/
def Day.text (d : Day) : String :=
  let c := Day.civil d
  yearText c.year ++ "-" ++ padded 2 c.month.toNat ++ "-" ++ padded 2 c.day.toNat

/-- The fraction of a second in three, six or nine digits, as few as tell it. -/
def fractionText (nanos : Nat) : String :=
  if nanos = 0 then ""
  else if nanos % 1000000 = 0 then "." ++ padded 3 (nanos / 1000000)
  else if nanos % 1000 = 0 then "." ++ padded 6 (nanos / 1000)
  else "." ++ padded 9 nanos

/-- An instant as date and time of day, in UTC. -/
def Instant.text (t : Instant) : String :=
  let second := (Instant.timeOfDay t / nanosPerSecond).toNat
  Day.text (Instant.day t) ++ "T" ++ padded 2 (second / 3600) ++ ":"
    ++ padded 2 (second / 60 % 60) ++ ":" ++ padded 2 (second % 60)
    ++ fractionText (Instant.subsecond t).toNat ++ "Z"

/-! ### Reading -/

/-- A count of at most `width` digits at the start of `cs` after any blanks, and the characters
after it. -/
def takeCount? (width : Nat) (cs : List Char) : Option (Nat × List Char) :=
  let digits := (cs.take width).takeWhile isDigit
  if digits.isEmpty then none else some (digitsValue 0 digits, cs.drop digits.length)

/-- `takeField? width cs`: a count after any blanks. -/
def takeField? (width : Nat) (cs : List Char) : Option (Nat × List Char) :=
  takeCount? width (Text.trimStart cs)

/-- A year after any blanks: up to four digits, or any number of them after a sign. -/
def takeYear? (cs : List Char) : Option (Int × List Char) :=
  match Text.trimStart cs with
  | '-' :: rest => (takeCount? rest.length rest).map fun (n, rest) => (-(n : Int), rest)
  | '+' :: rest => (takeCount? rest.length rest).map fun (n, rest) => ((n : Int), rest)
  | rest => (takeCount? 4 rest).map fun (n, rest) => ((n : Int), rest)

/-- The characters after a certain one. -/
def afterChar? (c : Char) : List Char → Option (List Char)
  | d :: rest => if c = d then some rest else none
  | [] => none

/-- The years that a date may have. -/
def isCalendarYear (year : Int) : Bool := decide (-262143 ≤ year) && decide (year ≤ 262142)

/-- `dayOf? year month day`: a day of the calendar by its numbers. -/
def dayOf? (year : Int) (month day : Nat) : Option Day :=
  if isCalendarYear year then CivilDate.day? ⟨year, month, day⟩ else none

/-- A day as year, month and day with hyphens between them. Blanks may stand before a number. -/
def readDay? (s : String) : Option Day := do
  let (year, cs) ← takeYear? s.toList
  let cs ← afterChar? '-' cs
  let (month, cs) ← takeField? 2 cs
  let cs ← afterChar? '-' cs
  let (day, cs) ← takeField? 2 cs
  if cs.isEmpty then dayOf? year month day else none

/-- `afterSpaced? c cs`: the characters after a certain one and any blanks before it. -/
def afterSpaced? (c : Char) (cs : List Char) : Option (List Char) :=
  afterChar? c (Text.trimStart cs)

/-- The nanoseconds of a fraction of a second at the start of `cs`; digits after the ninth do not
count. -/
def takeFraction? : List Char → Option (Nat × List Char)
  | '.' :: rest =>
      let digits := rest.takeWhile isDigit
      let counted := digits.take 9
      if digits.isEmpty then none
      else some (digitsValue 0 counted * tenPow (9 - counted.length), rest.dropWhile isDigit)
  | cs => some (0, cs)

/-- The value of two digits at the start of `cs`. -/
def twoDigits? : List Char → Option (Nat × List Char)
  | a :: b :: rest => if isDigit a && isDigit b then some (digitsValue 0 [a, b], rest) else none
  | _ => none

/-- The seconds that a zone is ahead of UTC: a letter or name for none, or hours and minutes after a
sign. -/
def takeZone? (cs : List Char) : Option (Int × List Char) :=
  match cs with
  | 'Z' :: rest | 'z' :: rest => some (0, rest)
  | sign :: rest =>
      if (cs.take 3).map Char.toLower = ['u', 't', 'c'] then some (0, cs.drop 3)
      else do
        let negative ← if sign = '+' then some false
          else if sign = '-' ∨ sign = '\u2212' then some true else none
        let (hours, rest) ← twoDigits? rest
        let (minutes, rest) ← twoDigits? (rest.dropWhile fun c => c == ':' || Text.isBlank c)
        if minutes < 60 ∧ hours < 24 then
          let size : Int := hours * 3600 + minutes * 60
          return (if negative then -size else size, rest)
        else failure
  | [] => none

/-- An instant: a date, a separator, a time of day and a zone. Blanks may stand between the
parts. -/
def readInstant? (s : String) : Option Instant := do
  let (year, cs) ← takeYear? s.toList
  let cs ← afterSpaced? '-' cs
  let (month, cs) ← takeField? 2 cs
  let cs ← afterSpaced? '-' cs
  let (day, cs) ← takeField? 2 cs
  let cs ← match cs with
    | 'T' :: rest | 't' :: rest | ' ' :: rest => some rest
    | _ => none
  let (hour, cs) ← takeField? 2 cs
  let cs ← afterSpaced? ':' cs
  let (minute, cs) ← takeField? 2 cs
  let cs ← afterSpaced? ':' cs
  let (second, cs) ← takeField? 2 cs
  let (nanos, cs) ← takeFraction? cs
  let (ahead, cs) ← takeZone? (Text.trimStart cs)
  let date ← dayOf? year month day
  if (Text.trimStart cs).isEmpty ∧ hour < 24 ∧ minute < 60 ∧ second ≤ 60 then
    let secondOfDay : Int := hour * 3600 + minute * 60 + second
    return Day.midnight date + Instant.ofSeconds (secondOfDay - ahead) nanos
  else failure

end PanelQuery
