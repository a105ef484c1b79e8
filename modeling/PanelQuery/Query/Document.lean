import PanelQuery.Json.Reading
import PanelQuery.Json.Record
import PanelQuery.Query.Node

/-! # Query documents

Queries as JSON. A document may leave out arguments, children and all but the name and the kind of
an argument.

* **`Node.toJson`, `Node.ofJson?`** — a tree and its document;
* **`Node.render`, `Node.parse?`** — the same with the document's text. -/

namespace PanelQuery

namespace NodeKind

/-- The kind that a document names. -/
def ofJson? (j : Json) : Option NodeKind := j.choice? name all

end NodeKind

namespace Argument

/-- The document of an argument. -/
def toJson (a : Argument) : Json :=
  .object [("canonical_name", .text a.canonicalName), ("major_type", .text a.kind.name),
    ("provider_id", .text a.providerId), ("source", .text a.source),
    ("original_text", .text a.originalText), ("parameters", .array (a.parameters.map .text))]

/-- The names of an argument's members. -/
def memberNames : List String :=
  ["canonical_name", "major_type", "provider_id", "source", "original_text", "parameters"]

/-- The argument of a document. -/
def ofJson? (j : Json) : Option Argument :=
  match j.record? memberNames with
  | some [name, kind, provider, source, words, parameters] => do
      return {
        canonicalName := ← Json.required? Json.string? name
        kind := ← Json.required? NodeKind.ofJson? kind
        providerId := ← Json.withDefault? "" Json.string? provider
        source := ← Json.withDefault? "" Json.string? source
        originalText := ← Json.withDefault? "" Json.string? words
        parameters := ← Json.withDefault? [] (Json.list? Json.string?) parameters }
  | _ => none

end Argument

namespace Node

/-! ### Writing -/

mutual

/-- The document of a tree. -/
def toJson : Node → Json
  | ⟨kind, arguments, children⟩ =>
      .object [("node_type", .text kind.name),
        ("arguments", .array (arguments.map Argument.toJson)),
        ("children", .array (toJsonAll children))]

/-- The documents of several trees. -/
def toJsonAll : List Node → List Json
  | [] => []
  | child :: rest => child.toJson :: toJsonAll rest

end

/-! ### Reading -/

/-- The names of a node's members. -/
def memberNames : List String := ["node_type", "arguments", "children"]

/-- `ofMembers? values children`: a node by the values of its members, with its children read. -/
def ofMembers? (values : Option (List (Option Json))) (children : Option (List Node)) :
    Option Node :=
  match values with
  | some [kind, arguments, _] => do
      return {
        kind := ← Json.required? NodeKind.ofJson? kind
        arguments := ← Json.withDefault? [] (Json.list? Argument.ofJson?) arguments
        children := ← children }
  | _ => none

mutual

/-- The tree of a document. -/
def ofJson? : Json → Option Node
  | .object members => ofMembers? (Json.record? memberNames (.object members)) (childrenIn? members)
  | .array [kind, arguments, children] =>
      ofMembers? (some [some kind, some arguments, none]) (listOf? children)
  | .array items => ofMembers? (Json.record? memberNames (.array items)) (some [])
  | _ => none

/-- The children among the members of a node. -/
def childrenIn? : List (String × Json) → Option (List Node)
  | [] => some []
  | (name, value) :: rest => if name = "children" then listOf? value else childrenIn? rest

/-- The trees of an array. -/
def listOf? : Json → Option (List Node)
  | .array items => allOf? items
  | _ => none

/-- The trees of several documents. -/
def allOf? : List Json → Option (List Node)
  | [] => some []
  | item :: rest => do
      let child ← ofJson? item
      let others ← allOf? rest
      return child :: others

end

/-! ### Text -/

/-- The text of a tree's document. -/
def render (n : Node) : String := n.toJson.render

/-- The tree of a document's text. -/
def parse? (source : String) : Option Node := (Json.parse? source).bind ofJson?

end Node

end PanelQuery
