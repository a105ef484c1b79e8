import PanelQuery.Json
import PanelQuery.Number.Power

/-! # Records in JSON

A record is an object with known members, or an array of their values in order. Other members are
passed over, and a known one may not stand twice.

* **`Json.record?`** — the values of the known members;
* **`Json.required?`, `Json.withDefault?`** — what one value stands for;
* **`Json.string?`, `Json.float?`, `Json.choice?`, …** — plain values. -/

namespace PanelQuery.Json

/-! ### Members -/

/-- `member? name members`: the value of a member that stands at most once, if there is one. -/
def member? (name : String) (members : List (String × Json)) : Option (Option Json) :=
  match members.filter fun m => m.1 == name with
  | [] => some none
  | [m] => some (some m.2)
  | _ => none

/-- The values of the known members, in order of their names. -/
def record? (names : List String) : Json → Option (List (Option Json))
  | object members => names.mapM fun name => member? name members
  | array items =>
      if items.length ≤ names.length then
        some (items.map some ++ List.replicate (names.length - items.length) none)
      else none
  | _ => none

/-- `required? read value`: a member that has to be there. -/
def required? {β : Type} (read : Json → Option β) (value : Option Json) : Option β :=
  value.bind read

/-- `withDefault? default read`: a member that may be left out. -/
def withDefault? {β : Type} (default : β) (read : Json → Option β) : Option Json → Option β
  | none => some default
  | some j => read j

/-! ### Plain values -/

/-- A text. -/
def string? : Json → Option String
  | text s => some s
  | _ => none

/-- A truth value. -/
def bool? : Json → Option Bool
  | bool b => some b
  | _ => none

/-- An integer from `low` up to but not including `high`. -/
def integerWithin? (low high : Int) : Json → Option Int
  | integer n => if low ≤ n ∧ n < high then some n else none
  | _ => none

/-- `count? bits j`: a count with less than some number of bits. -/
def count? (bits : Nat) (j : Json) : Option Nat := (j.integerWithin? 0 (twoPow bits)).map Int.toNat

/-- A float, which may be written as an integer. -/
def float? : Json → Option Float
  | integer n => some (if n < 0 then -(Float.ofNat n.natAbs) else Float.ofNat n.natAbs)
  | real x => some x
  | _ => none

/-- The items of an array. -/
def list? {β : Type} (read : Json → Option β) : Json → Option (List β)
  | array items => items.mapM read
  | _ => none

/-- `choice? name all j`: one of several values by its name, which may also be the only member of an
object, with nothing as its value. -/
def choice? {β : Type} (name : β → String) (all : List β) (j : Json) : Option β :=
  let byName := fun (s : String) => all.find? fun b => name b == s
  match j with
  | text s => byName s
  | object [(s, null)] => byName s
  | _ => none

end PanelQuery.Json
