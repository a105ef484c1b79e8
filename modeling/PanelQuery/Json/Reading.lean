import PanelQuery.Json
import PanelQuery.Number.Power
import PanelQuery.Number.Reading

/-! # Reading JSON

* **`Json.Numeral`** — the digits of a number on their way to a value, of which only so many count
  as fit a 64-bit word;
* **`Json.value?`** — a value at the start of a text, and the characters after it;
* **`Json.parse?`** — a whole text as a value.

A number with a fraction, an exponent or too many digits is read quickly: its digits as a float,
scaled by one power of ten. That is exact up to fifteen digits and near powers of ten, and may be
off in the last place otherwise. A container has a value at most 127 deep; what is unreadable may
stand where nothing reads it. -/

namespace PanelQuery.Json

/-! ### Numbers -/

/-- The least number that a 64-bit word cannot hold. -/
def wordLimit : Nat := twoPow 64

/-- How a number has been read so far: its digits as one word, and the power of ten they miss. -/
structure Numeral where
  /-- The digits that count. -/
  significand : Nat
  /-- The power of ten that scales them. -/
  scale : Int

/-- The digits before the point. From the first digit on that the word has no room for, a digit
only raises the scale. -/
def Numeral.whole (n : Numeral) : List Char → Numeral
  | [] => n
  | c :: rest =>
      let next := 10 * n.significand + (c.toNat - '0'.toNat)
      if n.scale = 0 ∧ next < wordLimit then Numeral.whole ⟨next, 0⟩ rest
      else Numeral.whole ⟨n.significand, n.scale + 1⟩ rest

/-- The digits after the point. From the first digit on that the word has no room for, digits do
not count. -/
def Numeral.fraction (n : Numeral) : List Char → Numeral
  | [] => n
  | c :: rest =>
      let next := 10 * n.significand + (c.toNat - '0'.toNat)
      if next < wordLimit then Numeral.fraction ⟨next, n.scale - 1⟩ rest else n

/-- A power of ten as a float. -/
def powerOfTen (n : Nat) : Float := Float.ofScientific 1 false n

/-- A number scaled up or down by a power of ten, in one step within the range of floats and in
steps of `10 ^ 308` below it. What would be infinite is refused. -/
def scaled? : Nat → Float → Int → Option Float
  | 0, _, _ => none
  | fuel + 1, x, scale =>
      if scale.natAbs ≤ 308 then
        if 0 ≤ scale then
          let y := x * powerOfTen scale.natAbs
          if y.isInf then none else some y
        else some (x / powerOfTen scale.natAbs)
      else if x == 0.0 then some x
      else if 0 ≤ scale then none
      else scaled? fuel (x / 1e308) (scale + 308)

/-- The float that a numeral is read as. Three steps down bring any numeral to zero. -/
def Numeral.toFloat? (n : Numeral) : Option Float := scaled? 5 (Float.ofNat n.significand) n.scale

/-- `Numeral.withExponent n negative digits`: the numeral with an exponent. An exponent beyond 32
bits makes a numeral of zero, or is refused when it would make a large one. -/
def Numeral.withExponent (n : Numeral) (negative : Bool) (digits : List Char) : Option Float :=
  let size := digitsValue 0 digits
  if size < twoPow 31 then
    Numeral.toFloat? ⟨n.significand, n.scale + (if negative then -(size : Int) else size)⟩
  else if n.significand ≠ 0 ∧ !negative then none
  else some 0.0

/-- A number without fraction and exponent: an integer where 64 bits hold it. Zero with a minus is
a float, as only floats have such a zero. -/
def Numeral.plain (n : Numeral) (negative : Bool) : Json :=
  if n.scale = 0 then
    if negative then
      if n.significand = 0 ∨ twoPow 63 < n.significand then real (-(Float.ofNat n.significand))
      else integer (-(n.significand : Int))
    else integer n.significand
  else
    match n.toFloat? with
    | some x => real (if negative then -x else x)
    | none => unreadable

/-- An exponent at the start of `cs`, after its mark: its sign, its digits and the rest. -/
def exponent? (cs : List Char) : Option (Bool × List Char × List Char) :=
  let (negative, rest) := splitSign cs
  let digits := rest.takeWhile isDigit
  if digits.isEmpty then none else some (negative, digits, rest.dropWhile isDigit)

/-- A number at the start of `cs`, without its sign, and the characters after it. -/
def number? (negative : Bool) (cs : List Char) : Option (Json × List Char) := do
  let signed := fun (x : Option Float) => match x with
    | some x => real (if negative then -x else x)
    | none => unreadable
  let whole := cs.takeWhile isDigit
  let rest := cs.dropWhile isDigit
  if whole.isEmpty || (whole.head? == some '0' && whole.length != 1) then failure
  let n := Numeral.whole ⟨0, 0⟩ whole
  let isMark := fun (c : Char) => c == 'e' || c == 'E'
  match rest with
  | '.' :: more => do
      let digits := more.takeWhile isDigit
      if digits.isEmpty then failure
      let n := n.fraction digits
      match more.dropWhile isDigit with
      | c :: more =>
          if isMark c then do
            let (negativeExponent, digits, more) ← exponent? more
            return (signed (n.withExponent negativeExponent digits), more)
          else return (signed n.toFloat?, c :: more)
      | [] => return (signed n.toFloat?, [])
  | c :: more =>
      if isMark c then do
        let (negativeExponent, digits, more) ← exponent? more
        return (signed (n.withExponent negativeExponent digits), more)
      else return (n.plain negative, c :: more)
  | [] => return (n.plain negative, [])

/-! ### Text -/

/-- The value of four hexadecimal digits. -/
def hexWord? (cs : List Char) : Option Nat :=
  let digit? := fun (c : Char) =>
    if isDigit c then some (c.toNat - '0'.toNat)
    else if 'a' ≤ c ∧ c ≤ 'f' then some (c.toNat - 'a'.toNat + 10)
    else if 'A' ≤ c ∧ c ≤ 'F' then some (c.toNat - 'A'.toNat + 10)
    else none
  (cs.mapM digit?).map fun digits => digits.foldl (fun n d => 16 * n + d) 0

/-- The character that one letter after a backslash stands for. -/
def simpleEscape? (c : Char) : Option Char :=
  match c with
  | '"' => some '"'
  | '\\' => some '\\'
  | '/' => some '/'
  | 'b' => some '\x08'
  | 'f' => some '\x0c'
  | 'n' => some '\n'
  | 'r' => some '\r'
  | 't' => some '\t'
  | _ => none

/-- `pairedUnit high low`: the character of two 16-bit units. -/
def pairedUnit (high low : Nat) : Char :=
  Char.ofNat (0x10000 + 0x400 * (high - 0xd800) + (low - 0xdc00))

/-- A text on its way, its last character first. -/
inductive Draft where
  | whole (cs : List Char)
  /-- The last character has only its first 16-bit unit so far. -/
  | half (cs : List Char) (high : Nat)
  /-- Some unit was no character. -/
  | broken

namespace Draft

/-- A draft with one more character. -/
def add (c : Char) : Draft → Draft
  | whole cs => whole (c :: cs)
  | _ => broken

/-- A draft with one more 16-bit unit. -/
def addUnit (unit : Nat) : Draft → Draft
  | whole cs =>
      if unit < 0xd800 ∨ 0xe000 ≤ unit then whole (Char.ofNat unit :: cs)
      else if unit < 0xdc00 then half cs unit
      else broken
  | half cs high =>
      if 0xdc00 ≤ unit ∧ unit < 0xe000 then whole (pairedUnit high unit :: cs) else broken
  | broken => broken

/-- The finished text. -/
def text? : Draft → Option String
  | whole cs => some (String.ofList cs.reverse)
  | _ => none

end Draft

/-- The draft up to the closing quote, and the characters after the quote. -/
def textBody? (draft : Draft) : List Char → Option (Draft × List Char)
  | [] => none
  | '"' :: rest => some (draft, rest)
  | '\\' :: 'u' :: a :: b :: c :: d :: rest => do
      let unit ← hexWord? [a, b, c, d]
      textBody? (draft.addUnit unit) rest
  | '\\' :: c :: rest => do
      let plain ← simpleEscape? c
      textBody? (draft.add plain) rest
  | c :: rest => if c.toNat < 32 then none else textBody? (draft.add c) rest

/-! ### Values -/

/-- Whether a character may stand between the parts of a document. -/
def isSpace (c : Char) : Bool := c == ' ' || c == '\n' || c == '\t' || c == '\r'

/-- The characters after any space. -/
def skipSpace (cs : List Char) : List Char := cs.dropWhile isSpace

/-- The characters after `word`, when the text starts with it. -/
def afterWord? (word : String) (cs : List Char) : Option (List Char) :=
  if word.toList.isPrefixOf cs then some (cs.drop word.length) else none

/-- How deep containers may nest that have a value. -/
def depthLimit : Nat := 127

/-- A container where `depth` more may nest. -/
def nested (depth : Nat) (container : Json) : Json := if depth = 0 then unreadable else container

/-- The object of some members, when every name is a text. -/
def ofMembers (members : List (Option String × Json)) : Json :=
  match members.mapM fun m => m.1.map fun name => (name, m.2) with
  | some members => object members
  | none => unreadable

mutual

/-- A value at the start of `cs` and the characters after it; containers that nest more than `depth`
deep have no value. At most `fuel` parts are read; the number of characters is always enough. -/
def value? (depth : Nat) : (fuel : Nat) → List Char → Option (Json × List Char)
  | 0, _ => none
  | fuel + 1, cs =>
      match skipSpace cs with
      | 'n' :: rest => (afterWord? "ull" rest).map (null, ·)
      | 't' :: rest => (afterWord? "rue" rest).map (bool true, ·)
      | 'f' :: rest => (afterWord? "alse" rest).map (bool false, ·)
      | '"' :: rest => (textBody? (.whole []) rest).map fun (draft, rest) =>
          ((draft.text?.map text).getD unreadable, rest)
      | '[' :: rest =>
          match skipSpace rest with
          | ']' :: rest => some (nested depth (array []), rest)
          | rest => (items? (depth - 1) fuel rest).map fun (xs, rest) =>
              (nested depth (array xs), rest)
      | '\x7b' :: rest =>
          match skipSpace rest with
          | '\x7d' :: rest => some (nested depth (object []), rest)
          | rest => (members? (depth - 1) fuel rest).map fun (ms, rest) =>
              (nested depth (ofMembers ms), rest)
      | '-' :: rest => number? true rest
      | rest => number? false rest

/-- The items of an array up to its bracket. -/
def items? (depth : Nat) : (fuel : Nat) → List Char → Option (List Json × List Char)
  | 0, _ => none
  | fuel + 1, cs => do
      let (item, rest) ← value? depth fuel cs
      match skipSpace rest with
      | ']' :: rest => return ([item], rest)
      | ',' :: rest => do
          let (more, rest) ← items? depth fuel rest
          return (item :: more, rest)
      | _ => none

/-- The members of an object up to its brace. -/
def members? (depth : Nat) :
    (fuel : Nat) → List Char → Option (List (Option String × Json) × List Char)
  | 0, _ => none
  | fuel + 1, cs => do
      match skipSpace cs with
      | '"' :: rest => do
          let (draft, rest) ← textBody? (.whole []) rest
          match skipSpace rest with
          | ':' :: rest => do
              let (value, rest) ← value? depth fuel rest
              match skipSpace rest with
              | '\x7d' :: rest => return ([(draft.text?, value)], rest)
              | ',' :: rest => do
                  let (more, rest) ← members? depth fuel rest
                  return ((draft.text?, value) :: more, rest)
              | _ => none
          | _ => none
      | _ => none

end

/-- A whole text as a value, with nothing but space around it. -/
def parse? (source : String) : Option Json := do
  let cs := source.toList
  let (j, rest) ← value? depthLimit (cs.length + 1) cs
  if (skipSpace rest).isEmpty then return j else failure

end PanelQuery.Json
