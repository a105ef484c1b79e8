/-! # Replaced text

Each place of a text at which another text stands, from the left and without overlaps, may be
replaced.

* **`Text.replaceFrom`** — in a list of characters, of which the first ones are passed over;
* **`Text.replace`** — in a text. -/

namespace PanelQuery.Text

/-- The characters with each place at which `pattern` stands replaced by `new`. The first `skip`
characters are left out: they belong to a place that is replaced. -/
def replaceFrom (pattern new : List Char) : (skip : Nat) → List Char → List Char
  | _, [] => []
  | skip + 1, _ :: rest => replaceFrom pattern new skip rest
  | 0, c :: rest =>
      if pattern.isPrefixOf (c :: rest) then
        new ++ replaceFrom pattern new (pattern.length - 1) rest
      else c :: replaceFrom pattern new 0 rest

/-- The text with each place at which `pattern` stands replaced by `new`. -/
def replace (pattern new s : String) : String :=
  String.ofList (replaceFrom pattern.toList new.toList 0 s.toList)

end PanelQuery.Text
