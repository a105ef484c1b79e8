import PanelQuery.Panel.Document
import PanelQuery.Proofs.Json.Record
import PanelQuery.Proofs.Json.Values
import PanelQuery.Proofs.Time.Text
import PanelQuery.Service

/-! # Panels read back

A panel that is saved is loaded again as it was if all of its values are finite. If one is not, it
stands as nothing in the document, no float is read from that, and there is no panel to load,
although saving has gone well.

* **`Panel.Storable`** — the times and places of labels that a document has room for;
* **`Panel.values`** — the values of all series;
* **`Panel.ofJson?_printed`** — what is read from the document of a panel;
* **`Store.loadResult_saveResult`** — what is loaded after a panel was saved. -/

namespace PanelQuery

/-! ## (1) Panels that can be saved -/

/-- The times of a series are of years that dates may have. -/
def Series.Storable (s : Series Float) : Prop := ∀ p ∈ s.points, p.time.IsDated

/-- The times of a category are of years that dates may have, and its places of labels fit half a
word. -/
def Category.Storable (c : Category) : Prop :=
  ∀ p ∈ c.points, p.time.IsDated ∧ p.slot < twoPow 32

/-- The series and the category of an entity can be saved. -/
structure Entity.Storable (e : Entity Float) : Prop where
  series : ∀ s ∈ e.series, s.Storable
  category : e.category.Storable

/-- The entities of a panel can be saved. -/
def Panel.Storable (p : Panel Float) : Prop := ∀ e ∈ p.entities, e.Storable

instance (s : Series Float) : Decidable s.Storable :=
  inferInstanceAs (Decidable (∀ p ∈ s.points, p.time.IsDated))

instance (c : Category) : Decidable c.Storable :=
  inferInstanceAs (Decidable (∀ p ∈ c.points, p.time.IsDated ∧ p.slot < twoPow 32))

instance (e : Entity Float) : Decidable e.Storable :=
  decidable_of_iff ((∀ s ∈ e.series, s.Storable) ∧ e.category.Storable)
    ⟨fun h => ⟨h.1, h.2⟩, fun h => ⟨h.series, h.category⟩⟩

instance (p : Panel Float) : Decidable p.Storable :=
  inferInstanceAs (Decidable (∀ e ∈ p.entities, e.Storable))

/-- The values of all series of an entity. -/
def Entity.values (e : Entity Float) : List Float := e.series.flatMap fun s => s.points.values

/-- The values of all series of a panel. -/
def Panel.values (p : Panel Float) : List Float := p.entities.flatMap Entity.values

/-! ## (2) Names -/

/-- `Json.choice? Policy.name Policy.all (.text p.name) = some p`: a policy is found by its name. -/
theorem Policy.choice?_name (p : Policy) :
    Json.choice? Policy.name Policy.all (.text p.name) = some p := by
  cases p <;> rfl

/-- `Json.choice? Hint.name Hint.all (.text h.name) = some h`: a hint is found by its name. -/
theorem Hint.choice?_name (h : Hint) : Json.choice? Hint.name Hint.all (.text h.name) = some h := by
  cases h <;> rfl

/-! ## (3) What is read from a document -/

/-- `Json.instant? (.text (Instant.text t)) = some t`: a time in a document. -/
theorem Json.instant?_text {t : Instant} (h : t.IsDated) :
    Json.instant? (.text (Instant.text t)) = some t := by
  rw [Json.instant?, Json.string?, Option.bind_some]
  exact readInstant?_text h

/-- `(Json.array (xs.map write)).printed = .array (xs.map fun x => (write x).printed)`: an array of
documents stands in the text as the array of what stands there of each. -/
theorem Json.printed_array_map {β : Type} (write : β → Json) (xs : List β) :
    (Json.array (xs.map write)).printed = .array (xs.map fun x => (write x).printed) := by
  rw [Json.printed, Json.printedItems_eq_map, List.map_map]
  rfl

/-- `Json.list? Json.string? (Json.array (ss.map .text)).printed = some ss`: texts are read back. -/
theorem Json.list?_string? (ss : List String) :
    Json.list? Json.string? (Json.array (ss.map .text)).printed = some ss := by
  rw [Json.printed_array_map]
  exact Json.list?_array_map_of_forall fun s _ => rfl

/-- `Header.ofJson? h.toJson.printed = some h`: the header of a series is read back. -/
theorem Header.ofJson?_printed (h : Header) : Header.ofJson? h.toJson.printed = some h := by
  have hrecord : h.toJson.printed.record? ["label", "units", "source", "vendor_code", "upsample",
      "downsample", "is_transformed"] =
        some [some (.text h.label), some (.text h.units), some (.text h.source),
          some (.text h.vendorCode), some (.text h.upsample.name), some (.text h.downsample.name),
          some (.bool h.transformed)] := Json.record?_object rfl (by decide)
  rw [Header.ofJson?, hrecord]
  simp [Json.withDefault?, Json.string?, Json.bool?, Policy.choice?_name]

/-- **An observation is read back unless its value is no finite number**:
`Point.ofJson? p.toJson.printed = if p.value.isFinite then some p else none`. -/
theorem Point.ofJson?_printed {p : Point Float} (hp : p.time.IsDated) :
    Point.ofJson? p.toJson.printed = if p.value.isFinite then some p else none := by
  have hrecord : p.toJson.printed.record? ["time", "value"] =
      some [some (.text (Instant.text p.time)), some (Json.real p.value).printed] :=
    Json.record?_object rfl (by decide)
  rw [Point.ofJson?, hrecord, Json.printed]
  dsimp only
  rw [Json.required?, Option.bind_some, Json.instant?_text hp]
  split <;> rfl

/-- A series is read back unless one of its values is no finite number:
`Series.ofJson? s.toJson.printed` is
`if s.points.values.all Float.isFinite then some s else none`. -/
theorem Series.ofJson?_printed {s : Series Float} (hs : s.Storable) :
    Series.ofJson? s.toJson.printed =
      if s.points.values.all Float.isFinite then some s else none := by
  have hrecord : s.toJson.printed.record? ["meta", "points", "is_weight"] =
      some [some s.header.toJson.printed,
        some (Json.array (s.points.map Point.toJson)).printed, some (.bool s.isWeight)] :=
    Json.record?_object rfl (by decide)
  have hall : s.points.values.all Float.isFinite = s.points.all fun p => p.value.isFinite :=
    List.all_map
  have hpoints := Json.list?_array_map fun p hp => Point.ofJson?_printed (hs p hp)
  rw [← hall] at hpoints
  rw [Series.ofJson?, hrecord, Json.printed_array_map]
  dsimp only
  rw [Json.required?, Json.required?, Option.bind_some, Option.bind_some, Header.ofJson?_printed,
    hpoints]
  cases s.points.values.all Float.isFinite <;> rfl

/-- `CategoryPoint.ofJson? p.toJson.printed = some p`: the start of a category is read back. -/
theorem CategoryPoint.ofJson?_printed {p : CategoryPoint} (htime : p.time.IsDated)
    (hslot : p.slot < twoPow 32) : CategoryPoint.ofJson? p.toJson.printed = some p := by
  have hrecord : p.toJson.printed.record? ["time", "id"] =
      some [some (.text (Instant.text p.time)), some (.integer p.slot)] :=
    Json.record?_object rfl (by decide)
  have hcount : Json.count? 32 (.integer p.slot) = some p.slot := by
    have hrange : (0 : Int) ≤ p.slot ∧ (p.slot : Int) < twoPow 32 :=
      ⟨Int.natCast_nonneg _, Int.ofNat_lt.2 hslot⟩
    rw [Json.count?, Json.integerWithin?, if_pos hrange]
    rfl
  rw [CategoryPoint.ofJson?, hrecord]
  dsimp only
  rw [Json.required?, Json.required?, Option.bind_some, Option.bind_some, Json.instant?_text htime,
    hcount]
  rfl

/-- `Category.ofJson? c.toJson.printed = some c`: a category is read back. -/
theorem Category.ofJson?_printed {c : Category} (hc : c.Storable) :
    Category.ofJson? c.toJson.printed = some c := by
  have hrecord : c.toJson.printed.record? ["points", "labels"] =
      some [some (Json.array (c.points.map CategoryPoint.toJson)).printed,
        some (Json.array (c.table.map .text)).printed] := Json.record?_object rfl (by decide)
  have hpoints := Json.list?_array_map_of_forall fun p hp =>
    CategoryPoint.ofJson?_printed (hc p hp).1 (hc p hp).2
  rw [Category.ofJson?, hrecord, Json.printed_array_map CategoryPoint.toJson]
  dsimp only
  rw [Json.required?, Json.required?, Option.bind_some, Option.bind_some, hpoints,
    Json.list?_string?]
  rfl

/-- `Identity.ofJson? i.toJson.printed = some i`: an identity is read back. -/
theorem Identity.ofJson?_printed (i : Identity) : Identity.ofJson? i.toJson.printed = some i := by
  have hrecord : i.toJson.printed.record? ["name", "unique_id", "is_custom"] =
      some [some (.text i.name), some (.text i.key), some (.bool i.custom)] :=
    Json.record?_object rfl (by decide)
  rw [Identity.ofJson?, hrecord]
  rfl

/-- An entity is read back unless one of its values is no finite number:
`Entity.ofJson? e.toJson.printed = if e.values.all Float.isFinite then some e else none`. -/
theorem Entity.ofJson?_printed {e : Entity Float} (he : e.Storable) :
    Entity.ofJson? e.toJson.printed = if e.values.all Float.isFinite then some e else none := by
  have hrecord : e.toJson.printed.record? ["meta", "series", "category"] =
      some [some e.identity.toJson.printed, some (Json.array (e.series.map Series.toJson)).printed,
        some e.category.toJson.printed] := Json.record?_object rfl (by decide)
  have hall : e.values.all Float.isFinite =
      e.series.all fun s => s.points.values.all Float.isFinite := List.all_flatMap
  have hseries := Json.list?_array_map fun s hs => Series.ofJson?_printed (he.series s hs)
  rw [← hall] at hseries
  rw [Entity.ofJson?, hrecord, Json.printed_array_map]
  dsimp only
  rw [Json.required?, Option.bind_some, Identity.ofJson?_printed, Json.withDefault?, hseries,
    Json.withDefault?, Category.ofJson?_printed he.category]
  cases e.values.all Float.isFinite <;> rfl

/-- **A panel is read back unless one of its values is no finite number**:
`Panel.ofJson? p.toJson.printed = if p.values.all Float.isFinite then some p else none`. -/
theorem Panel.ofJson?_printed {p : Panel Float} (hp : p.Storable) :
    Panel.ofJson? p.toJson.printed = if p.values.all Float.isFinite then some p else none := by
  have hrecord : p.toJson.printed.record? ["entities", "title", "errors", "render_hint"] =
      some [some (Json.array (p.entities.map Entity.toJson)).printed, some (.text p.title),
        some (Json.array (p.errors.map .text)).printed, some (.text p.hint.name)] :=
    Json.record?_object rfl (by decide)
  have hall : p.values.all Float.isFinite =
      p.entities.all fun e => e.values.all Float.isFinite := List.all_flatMap
  have hentities := Json.list?_array_map fun e he => Entity.ofJson?_printed (hp e he)
  rw [← hall] at hentities
  rw [Panel.ofJson?, hrecord, Json.printed_array_map Entity.toJson]
  dsimp only
  rw [Json.required?, Option.bind_some, hentities, Json.withDefault?, Json.withDefault?,
    Json.list?_string?, Json.withDefault?, Hint.choice?_name]
  cases p.values.all Float.isFinite <;> rfl

/-! ## (4) The text of a document -/

variable {depth : Nat}

/-- An array is one level deeper than its items:
`Json.Readable (depth + 1) (Json.array (xs.map write)).printed`. -/
theorem Json.readable_array_map {β : Type} {write : β → Json} {xs : List β}
    (h : ∀ x ∈ xs, Json.Readable depth (write x).printed) :
    Json.Readable (depth + 1) (Json.array (xs.map write)).printed := by
  rw [Json.printed_array_map]
  refine .array fun j hj => ?_
  obtain ⟨x, hx, rfl⟩ := List.mem_map.1 hj
  exact h x hx

/-- An array of texts is one level deep:
`Json.Readable (depth + 1) (Json.array (ss.map .text)).printed`. -/
theorem Json.readable_texts (ss : List String) :
    Json.Readable (depth + 1) (Json.array (ss.map .text)).printed :=
  Json.readable_array_map fun s _ => .text s

/-- A header is one level deep: `Json.Readable (depth + 1) h.toJson.printed`. -/
theorem Header.readable_toJson (h : Header) : Json.Readable (depth + 1) h.toJson.printed := by
  refine .object ?_
  simp only [Json.printedMembers, Json.printed, List.forall_mem_cons]
  exact ⟨.text _, .text _, .text _, .text _, .text _, .text _, .bool _, nofun⟩

/-- An observation is one level deep: `Json.Readable (depth + 1) p.toJson.printed`. -/
theorem Point.readable_toJson {p : Point Float}
    (hvalue : p.value.isFinite = true → Json.ReadsBack p.value) :
    Json.Readable (depth + 1) p.toJson.printed := by
  have hreal : Json.Readable depth (Json.real p.value).printed := by
    rw [Json.printed]
    split
    · rename_i hfinite
      exact .real (hvalue hfinite)
    · exact .null
  refine .object ?_
  simp only [Json.printedMembers, List.forall_mem_cons]
  exact ⟨.text _, hreal, nofun⟩

/-- A series is three levels deep: `Json.Readable (depth + 3) s.toJson.printed`. -/
theorem Series.readable_toJson {s : Series Float}
    (hvalues : ∀ x ∈ s.points.values, x.isFinite = true → Json.ReadsBack x) :
    Json.Readable (depth + 3) s.toJson.printed := by
  refine .object ?_
  simp only [Json.printedMembers, List.forall_mem_cons]
  refine ⟨s.header.readable_toJson, Json.readable_array_map fun p hp => ?_, .bool _, nofun⟩
  exact Point.readable_toJson (hvalues p.value (List.mem_map_of_mem hp))

/-- The start of a category is one level deep: `Json.Readable (depth + 1) p.toJson.printed`. -/
theorem CategoryPoint.readable_toJson {p : CategoryPoint} (hslot : p.slot < twoPow 32) :
    Json.Readable (depth + 1) p.toJson.printed := by
  have hword : Json.FitsWord p.slot := by
    have hlimit : twoPow 32 ≤ twoPow 64 := by decide
    have hlow : (0 : Int) ≤ twoPow 63 := Int.natCast_nonneg _
    unfold Json.FitsWord
    omega
  refine .object ?_
  simp only [Json.printedMembers, List.forall_mem_cons]
  exact ⟨.text _, .integer hword, nofun⟩

/-- A category is three levels deep: `Json.Readable (depth + 3) c.toJson.printed`. -/
theorem Category.readable_toJson {c : Category} (hc : c.Storable) :
    Json.Readable (depth + 3) c.toJson.printed := by
  refine .object ?_
  simp only [Json.printedMembers, List.forall_mem_cons]
  exact ⟨Json.readable_array_map fun p hp => CategoryPoint.readable_toJson (hc p hp).2,
    Json.readable_texts _, nofun⟩

/-- An identity is one level deep: `Json.Readable (depth + 1) i.toJson.printed`. -/
theorem Identity.readable_toJson (i : Identity) : Json.Readable (depth + 1) i.toJson.printed := by
  refine .object ?_
  simp only [Json.printedMembers, List.forall_mem_cons]
  exact ⟨.text _, .text _, .bool _, nofun⟩

/-- An entity is five levels deep: `Json.Readable (depth + 5) e.toJson.printed`. -/
theorem Entity.readable_toJson {e : Entity Float} (he : e.Storable)
    (hvalues : ∀ x ∈ e.values, x.isFinite = true → Json.ReadsBack x) :
    Json.Readable (depth + 5) e.toJson.printed := by
  refine .object ?_
  simp only [Json.printedMembers, List.forall_mem_cons]
  refine ⟨e.identity.readable_toJson, Json.readable_array_map fun s hs => ?_,
    Category.readable_toJson he.category, nofun⟩
  exact Series.readable_toJson fun x hx => hvalues x (List.mem_flatMap_of_mem hs hx)

/-- A panel is seven levels deep: `Json.Readable (depth + 7) p.toJson.printed`. -/
theorem Panel.readable_toJson {p : Panel Float} (hp : p.Storable)
    (hvalues : ∀ x ∈ p.values, x.isFinite = true → Json.ReadsBack x) :
    Json.Readable (depth + 7) p.toJson.printed := by
  refine .object ?_
  simp only [Json.printedMembers, List.forall_mem_cons]
  refine ⟨Json.readable_array_map fun e he => ?_, .text _, Json.readable_texts _, .text _, nofun⟩
  exact Entity.readable_toJson (hp e he) fun x hx => hvalues x (List.mem_flatMap_of_mem he hx)

/-- **The text of a panel** is read as the panel unless one of its values is no finite number:
`Panel.parse? p.render = if p.values.all Float.isFinite then some p else none`. -/
theorem Panel.parse?_text {p : Panel Float} (hp : p.Storable)
    (hvalues : ∀ x ∈ p.values, x.isFinite = true → Json.ReadsBack x) :
    Panel.parse? p.render = if p.values.all Float.isFinite then some p else none := by
  have hreadable : Json.Readable (120 + 7) p.toJson.printed := Panel.readable_toJson hp hvalues
  have hdocument : Json.parse? p.toJson.render = some p.toJson.printed :=
    Json.parse?_render_printed hreadable
  rw [Panel.parse?, Panel.render, hdocument, Option.bind_some, Panel.ofJson?_printed hp]

/-! ## (5) The store -/

namespace Store

/-- What is loaded under the name of the last result is read from its text:
`(s.saveResult name p).loadResult name` is
`match Panel.parse? p.render with | some q => .ok q | none => .error .unreadable`. -/
theorem loadResult_saveResult_eq (s : Store) (name : String) (p : Panel Float) :
    (s.saveResult name p).loadResult name =
      match Panel.parse? p.render with
      | some q => .ok q
      | none => .error .unreadable := by
  have hlookup : (s.saveResult name p).results.lookup name = some p.render := by
    rw [saveResult, List.lookup_cons, beq_self_eq_true]
  rw [loadResult, loadDocument, hlookup]
  dsimp only
  cases Panel.parse? p.render <;> rfl

/-- **What is loaded after a panel was saved** under a name: the panel itself if all of its values
are finite, and otherwise an error. `(s.saveResult name p).loadResult name` is
`if p.values.all Float.isFinite then .ok p else .error .unreadable`. Saving always succeeds, so
nothing tells of a value that the document has no number for until it is loaded. -/
theorem loadResult_saveResult (s : Store) (name : String) {p : Panel Float} (hp : p.Storable)
    (hvalues : ∀ x ∈ p.values, x.isFinite = true → Json.ReadsBack x) :
    (s.saveResult name p).loadResult name =
      if p.values.all Float.isFinite then .ok p else .error .unreadable := by
  rw [loadResult_saveResult_eq, Panel.parse?_text hp hvalues]
  cases p.values.all Float.isFinite <;> rfl

/-- Two prices of an entity with a category, to the nanosecond, and a problem. -/
def prices : Panel Float :=
  { entities := [
      { identity := ⟨"Bank \"A\"", "a", true⟩
        series := [⟨.labelled "Price\n", [⟨-1, 1.5⟩, ⟨1700000000123456789, -0.25⟩], false⟩]
        category := ⟨[⟨0, 0⟩], ["Große Banken"]⟩ }]
    title := "Prices"
    errors := ["one date is missing"]
    hint := .table }

/-- The prices are loaded as they were saved. -/
theorem loadResult_saveResult_prices :
    prices.Storable ∧ (∀ x ∈ prices.values, x.isFinite = true → Json.ReadsBack x) ∧
      (({} : Store).saveResult "prices" prices).loadResult "prices" = .ok prices := by
  have hstorable : prices.Storable := by decide
  have hvalues : ∀ x ∈ prices.values, x.isFinite = true → Json.ReadsBack x :=
    List.forall_mem_cons.2 ⟨fun _ => rfl, List.forall_mem_singleton.2 fun _ => rfl⟩
  refine ⟨hstorable, hvalues, ?_⟩
  rw [loadResult_saveResult {} "prices" hstorable hvalues]
  exact if_pos rfl

/-- One value that is no number. -/
def gap : Panel Float :=
  { entities := [
      { identity := ⟨"x", "x", false⟩
        series := [⟨.labelled "A", [⟨0, 0.0 / 0.0⟩], false⟩] }] }

/-- A panel with a value that is no number is saved, but there is none to load. -/
theorem not_loadResult_saveResult_gap :
    gap.Storable ∧ (∀ x ∈ gap.values, x.isFinite = true → Json.ReadsBack x) ∧
      ∀ p, (({} : Store).saveResult "r" gap).loadResult "r" ≠ .ok p := by
  have hstorable : gap.Storable := by decide
  have hvalues : ∀ x ∈ gap.values, x.isFinite = true → Json.ReadsBack x :=
    List.forall_mem_singleton.2 fun hfinite => absurd hfinite (by decide)
  refine ⟨hstorable, hvalues, fun p => ?_⟩
  have hnone : Panel.parse? gap.render = none :=
    (Panel.parse?_text hstorable hvalues).trans (if_neg (by decide))
  rw [loadResult_saveResult_eq, hnone]
  nofun

end Store

end PanelQuery
