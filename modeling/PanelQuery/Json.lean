import PanelQuery.Number.Shortest

/-! # JSON documents

The documents that trees, results and settings are kept in.

* **`Json`** — values; objects keep their members in order;
* **`Json.render`** — the text without spaces, with floats in their shortest form. -/

namespace PanelQuery

/-- A JSON value. -/
inductive Json where
  | null
  | bool (b : Bool)
  /-- A number without fraction and exponent that fits 64 bits. -/
  | integer (n : Int)
  /-- Any other number. -/
  | real (x : Float)
  | text (s : String)
  /-- A number beyond all floats, a text with half a character or a container nested too deep: it
  may stand in a document, but has no value. -/
  | unreadable
  | array (items : List Json)
  | object (members : List (String × Json))
  deriving Inhabited

namespace Json

/-! ### Text -/

/-- Floats in documents stay positional from `0.00001` up to below `10 ^ 16`; beyond, every exponent
has its sign, as in `1e+16`. -/
def numberStyle : FloatStyle := ⟨-5, 15, true, true⟩

/-- A character as it stands in quotes. -/
def escaped (c : Char) : List Char :=
  if c = '"' then ['\\', '"']
  else if c = '\\' then ['\\', '\\']
  else if c = '\n' then ['\\', 'n']
  else if c = '\r' then ['\\', 'r']
  else if c = '\t' then ['\\', 't']
  else if c = '\x08' then ['\\', 'b']
  else if c = '\x0c' then ['\\', 'f']
  else if c.toNat < 32 then
    ['\\', 'u', '0', '0', Nat.digitChar (c.toNat / 16), Nat.digitChar (c.toNat % 16)]
  else [c]

/-- Text in quotes. -/
def quoted (s : String) : List Char := '"' :: s.toList.flatMap escaped ++ ['"']

/-- The text of a float; what is no finite number becomes `null`. -/
def renderReal (x : Float) : List Char :=
  if x.isFinite then (numberStyle.render x).toList else "null".toList

/-- Parts with commas between them. -/
def commaSeparated : List (List Char) → List Char
  | [] => []
  | [part] => part
  | part :: rest => part ++ ',' :: commaSeparated rest

mutual

/-- The characters of a value. -/
def chars : Json → List Char
  | null => "null".toList
  | bool b => (if b then "true" else "false").toList
  | integer n => (toString n).toList
  | real x => renderReal x
  | text s => quoted s
  | unreadable => "null".toList
  | array items => '[' :: commaSeparated (charsOfItems items) ++ [']']
  | object members => '\x7b' :: commaSeparated (charsOfMembers members) ++ ['\x7d']

/-- The characters of each item. -/
def charsOfItems : List Json → List (List Char)
  | [] => []
  | item :: rest => item.chars :: charsOfItems rest

/-- The characters of each member. -/
def charsOfMembers : List (String × Json) → List (List Char)
  | [] => []
  | (key, value) :: rest => (quoted key ++ ':' :: value.chars) :: charsOfMembers rest

end

/-- The text of a value, without spaces. -/
def render (j : Json) : String := String.ofList j.chars

end Json

end PanelQuery
