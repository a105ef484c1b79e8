import PanelQuery.Json.Reading
import PanelQuery.Json.Record
import PanelQuery.Panel
import PanelQuery.Time.Text

/-! # Panel documents

Results as JSON. Times are written as text, and points are read in the order in which they stand. A
float that is no finite number is written as nothing, which no float is read from.

* **`Panel.toJson`, `Panel.ofJson?`** — a panel and its document;
* **`Panel.render`, `Panel.parse?`** — the same with the document's text. -/

namespace PanelQuery

/-! ### Names -/

/-- The name of a policy. -/
def Policy.name : Policy → String
  | drop => "None"
  | lastValue => "LastValue"
  | zero => "Zero"
  | arithmetic => "Arithmetic"
  | geometric => "Geometric"

/-- All policies. -/
def Policy.all : List Policy := [drop, lastValue, zero, arithmetic, geometric]

/-- The name of a hint. -/
def Hint.name : Hint → String
  | line => "Line"
  | column => "Column"
  | table => "Table"
  | boxPlot => "BoxPlot"

/-- All hints. -/
def Hint.all : List Hint := [line, column, table, boxPlot]

/-! ### Writing -/

/-- The document of a header. -/
def Header.toJson (h : Header) : Json :=
  .object [("label", .text h.label), ("units", .text h.units), ("source", .text h.source),
    ("vendor_code", .text h.vendorCode), ("upsample", .text h.upsample.name),
    ("downsample", .text h.downsample.name), ("is_transformed", .bool h.transformed)]

/-- The document of an observation. -/
def Point.toJson (p : Point Float) : Json :=
  .object [("time", .text (Instant.text p.time)), ("value", .real p.value)]

/-- The document of a series. -/
def Series.toJson (s : Series Float) : Json :=
  .object [("meta", s.header.toJson), ("points", .array (s.points.map Point.toJson)),
    ("is_weight", .bool s.isWeight)]

/-- The document of the start of a category. -/
def CategoryPoint.toJson (p : CategoryPoint) : Json :=
  .object [("time", .text (Instant.text p.time)), ("id", .integer p.slot)]

/-- The document of a category. -/
def Category.toJson (c : Category) : Json :=
  .object [("points", .array (c.points.map CategoryPoint.toJson)),
    ("labels", .array (c.table.map .text))]

/-- The document of an identity. -/
def Identity.toJson (i : Identity) : Json :=
  .object [("name", .text i.name), ("unique_id", .text i.key), ("is_custom", .bool i.custom)]

/-- The document of an entity. -/
def Entity.toJson (e : Entity Float) : Json :=
  .object [("meta", e.identity.toJson), ("series", .array (e.series.map Series.toJson)),
    ("category", e.category.toJson)]

/-- The document of a panel. -/
def Panel.toJson (p : Panel Float) : Json :=
  .object [("entities", .array (p.entities.map Entity.toJson)), ("title", .text p.title),
    ("errors", .array (p.errors.map .text)), ("render_hint", .text p.hint.name)]

/-- The text of a panel's document. -/
def Panel.render (p : Panel Float) : String := p.toJson.render

/-! ### Reading -/

namespace Json

/-- A time. -/
def instant? (j : Json) : Option Instant := j.string?.bind readInstant?

end Json

/-- The header of a document, in which every member may be left out. -/
def Header.ofJson? (j : Json) : Option Header :=
  match j.record? ["label", "units", "source", "vendor_code", "upsample", "downsample",
    "is_transformed"] with
  | some [label, units, source, vendorCode, upsample, downsample, transformed] => do
      let policy := Json.withDefault? Policy.lastValue (Json.choice? Policy.name Policy.all)
      return {
        label := ← Json.withDefault? "" Json.string? label
        units := ← Json.withDefault? "" Json.string? units
        source := ← Json.withDefault? "" Json.string? source
        vendorCode := ← Json.withDefault? "" Json.string? vendorCode
        upsample := ← policy upsample
        downsample := ← policy downsample
        transformed := ← Json.withDefault? false Json.bool? transformed }
  | _ => none

/-- The observation of a document. -/
def Point.ofJson? (j : Json) : Option (Point Float) :=
  match j.record? ["time", "value"] with
  | some [time, value] => do
      return ⟨← Json.required? Json.instant? time, ← Json.required? Json.float? value⟩
  | _ => none

/-- The series of a document. -/
def Series.ofJson? (j : Json) : Option (Series Float) :=
  match j.record? ["meta", "points", "is_weight"] with
  | some [header, points, isWeight] => do
      return {
        header := ← Json.required? Header.ofJson? header
        points := ← Json.required? (Json.list? Point.ofJson?) points
        isWeight := ← Json.withDefault? false Json.bool? isWeight }
  | _ => none

/-- The start of a category of a document. -/
def CategoryPoint.ofJson? (j : Json) : Option CategoryPoint :=
  match j.record? ["time", "id"] with
  | some [time, slot] => do
      return ⟨← Json.required? Json.instant? time, ← Json.required? (Json.count? 32) slot⟩
  | _ => none

/-- The category of a document. -/
def Category.ofJson? (j : Json) : Option Category :=
  match j.record? ["points", "labels"] with
  | some [points, labels] => do
      return {
        points := ← Json.required? (Json.list? CategoryPoint.ofJson?) points
        table := ← Json.required? (Json.list? Json.string?) labels }
  | _ => none

/-- The identity of a document. -/
def Identity.ofJson? (j : Json) : Option Identity :=
  match j.record? ["name", "unique_id", "is_custom"] with
  | some [name, key, custom] => do
      return {
        name := ← Json.required? Json.string? name
        key := ← Json.required? Json.string? key
        custom := ← Json.withDefault? false Json.bool? custom }
  | _ => none

/-- The entity of a document. -/
def Entity.ofJson? (j : Json) : Option (Entity Float) :=
  match j.record? ["meta", "series", "category"] with
  | some [identity, series, category] => do
      return {
        identity := ← Json.required? Identity.ofJson? identity
        series := ← Json.withDefault? [] (Json.list? Series.ofJson?) series
        category := ← Json.withDefault? .empty Category.ofJson? category }
  | _ => none

/-- The panel of a document. -/
def Panel.ofJson? (j : Json) : Option (Panel Float) :=
  match j.record? ["entities", "title", "errors", "render_hint"] with
  | some [entities, title, errors, hint] => do
      return {
        entities := ← Json.required? (Json.list? Entity.ofJson?) entities
        title := ← Json.withDefault? "" Json.string? title
        errors := ← Json.withDefault? [] (Json.list? Json.string?) errors
        hint := ← Json.withDefault? .line (Json.choice? Hint.name Hint.all) hint }
  | _ => none

/-- The panel of a document's text. -/
def Panel.parse? (source : String) : Option (Panel Float) := (Json.parse? source).bind ofJson?

end PanelQuery
