import PanelQuery.Query.Node
import PanelQuery.Text.Blank

/-! # Titles

The title of a result, built from the words of the nodes that computed it.

* **`Node.phrase`** — what one node is called;
* **`Node.title`** — its phrase together with the titles of its children. -/

namespace PanelQuery.Node

/-- The words in which the first argument was asked for, or else the label of the kind. -/
def phrase (n : Node) : String :=
  match n.arguments.head?.map fun a => Text.trim a.originalText with
  | some words => if words.isEmpty then n.kind.label else words
  | none => n.kind.label

/-- `title n childTitles`: the title of a node whose children have the given titles. -/
def title (n : Node) (childTitles : List String) : String :=
  match childTitles with
  | [] => n.phrase
  | [only] => only ++ " -> " ++ n.phrase
  | [left, right] =>
      if n.kind = .regression then n.phrase ++ " of (" ++ left ++ ") against (" ++ right ++ ")"
      else n.phrase ++ " (" ++ left ++ ", " ++ right ++ ")"
  | titles => n.phrase ++ " (" ++ ", ".intercalate titles ++ ")"

end PanelQuery.Node
