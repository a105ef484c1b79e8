import Mathlib.Data.List.Forall2
import PanelQuery.Proofs.Json.Record
import PanelQuery.Proofs.Json.Values
import PanelQuery.Proofs.Query.Traversal
import PanelQuery.Service

/-! # Queries read back

A query that is saved is loaded again as it was, with whatever texts it holds, and documents may
leave out what is empty.

* **`Json.HoldsOr`** — a member that an object may leave out;
* **`Json.Describes`** — which documents describe a query;
* **`Node.ofJson?_of_describes`** — a query is read from any document that describes it;
* **`Node.readable_toJson`** — how deep the document of a query nests;
* **`Store.loadQuery_saveQuery`** — what is loaded after a query was saved, and from other
  documents. -/

namespace PanelQuery

/-! ## (1) Members of objects -/

namespace Json

variable {members : List (String × Json)} {name : String} {value : Json}

/-- An object has one member with a name, and it has this value. -/
structure Holds (members : List (String × Json)) (name : String) (value : Json) : Prop where
  mem : (name, value) ∈ members
  once : (members.map Prod.fst).count name = 1

/-- `Lacks members name`: an object has no member with a name. -/
def Lacks (members : List (String × Json)) (name : String) : Prop := name ∉ members.map Prod.fst

instance (members : List (String × Json)) (name : String) : Decidable (Lacks members name) :=
  inferInstanceAs (Decidable (name ∉ members.map Prod.fst))

/-- A member that stands for a value of some kind, or has been left out for a default. -/
inductive HoldsOr {β : Type} (stands : Json → β → Prop) (default : β) :
    β → List (String × Json) → String → Prop
  | held {b : β} {members : List (String × Json)} {name : String} {value : Json}
      (holds : Holds members name value) (h : stands value b) :
      HoldsOr stands default b members name
  | left {members : List (String × Json)} {name : String} (lacks : Lacks members name) :
      HoldsOr stands default default members name

/-- A member of an object whose names are known and differ: `Holds members name value`. -/
theorem Holds.of_mem {names : List String} (hmembers : members.map Prod.fst = names)
    (hnames : names.Nodup) (hm : (name, value) ∈ members) : Holds members name value := by
  subst hmembers
  exact ⟨hm, List.count_eq_one_of_mem hnames (List.mem_map_of_mem hm)⟩

/-- `(members.filter fun m => m.1 == name) = [(name, value)]`: the members with the name of a member
that stands once. -/
theorem Holds.filter_eq (h : Holds members name value) :
    (members.filter fun m => m.1 == name) = [(name, value)] := by
  have hlength : (members.filter fun m => m.1 == name).length = 1 := by
    rw [← List.countP_eq_length_filter, ← h.once, List.count, List.countP_map]
    rfl
  obtain ⟨m, hm⟩ := List.length_eq_one_iff.1 hlength
  have hmem : (name, value) ∈ members.filter fun m => m.1 == name :=
    List.mem_filter.2 ⟨h.mem, beq_self_eq_true name⟩
  rw [hm] at hmem ⊢
  rw [List.mem_singleton.1 hmem]

/-- `(members.filter fun m => m.1 == name) = []`: no member has the name of one that is lacking. -/
theorem Lacks.filter_eq (h : Lacks members name) :
    (members.filter fun m => m.1 == name) = [] :=
  List.filter_eq_nil_iff.2 fun _ hm heq => h (beq_iff_eq.1 heq ▸ List.mem_map_of_mem hm)

/-- `member? name members = some (some value)`: the value of a member that stands once. -/
theorem Holds.member?_eq (h : Holds members name value) :
    member? name members = some (some value) := by
  rw [member?, h.filter_eq]

/-- `member? name members = some none`: there is no value of a member that is lacking. -/
theorem Lacks.member?_eq (h : Lacks members name) : member? name members = some none := by
  rw [member?, h.filter_eq]

/-- A member that may be left out is read as what it stands for:
`∃ value?, member? name members = some value? ∧ withDefault? default read value? = some b`. -/
theorem HoldsOr.withDefault?_eq {β : Type} {stands : Json → β → Prop} {default b : β}
    (h : HoldsOr stands default b members name) {read : Json → Option β}
    (hread : ∀ value b, stands value b → read value = some b) :
    ∃ value?, member? name members = some value? ∧ withDefault? default read value? = some b := by
  cases h with
  | held holds h => exact ⟨_, holds.member?_eq, hread _ _ h⟩
  | left lacks => exact ⟨_, lacks.member?_eq, rfl⟩

/-- `IsText value s`: a text as a value. -/
def IsText (value : Json) (s : String) : Prop := value = .text s

/-- An array of values that stand for the items of a list. -/
inductive IsArray {β : Type} (stands : Json → β → Prop) : Json → List β → Prop
  | array {items : List Json} {xs : List β} (h : List.Forall₂ stands items xs) :
      IsArray stands (.array items) xs

/-- `list? read value = some xs`: items are read as what they stand for. -/
theorem IsArray.list?_eq {β : Type} {stands : Json → β → Prop} {xs : List β}
    (h : IsArray stands value xs) {read : Json → Option β}
    (hread : ∀ value b, stands value b → read value = some b) : list? read value = some xs := by
  obtain ⟨hitems⟩ := h
  rw [list?]
  induction hitems with
  | nil => rfl
  | cons hitem _ ih =>
    rw [List.mapM_cons, hread _ _ hitem, ih]
    rfl

/-- `string? value = some s`: a text is read as itself. -/
theorem IsText.string?_eq (value : Json) (s : String) (h : IsText value s) :
    string? value = some s := by
  rw [h]
  rfl

/-! ## (2) Documents of queries -/

/-- A document describes an argument: it is an object that holds its name and its kind, and holds
all else or leaves it out when it is empty. There may be other members. -/
inductive DescribesArgument : Json → Argument → Prop
  | object {a : Argument} {members : List (String × Json)}
      (canonicalName : Holds members "canonical_name" (.text a.canonicalName))
      (kind : Holds members "major_type" (.text a.kind.name))
      (providerId : HoldsOr IsText "" a.providerId members "provider_id")
      (source : HoldsOr IsText "" a.source members "source")
      (originalText : HoldsOr IsText "" a.originalText members "original_text")
      (parameters : HoldsOr (IsArray IsText) [] a.parameters members "parameters") :
      DescribesArgument (.object members) a

/-- A document describes a query: it is an object that holds its kind, and holds its arguments and
its children or leaves them out when there are none. There may be other members. -/
inductive Describes : Json → Node → Prop
  | object {kind : NodeKind} {arguments : List Argument} {children : List Node}
      {members : List (String × Json)}
      (hkind : Holds members "node_type" (.text kind.name))
      (harguments : HoldsOr (IsArray DescribesArgument) [] arguments members "arguments")
      (hchildren : HoldsOr (IsArray Describes) [] children members "children") :
      Describes (.object members) ⟨kind, arguments, children⟩

end Json

/-! ## (3) What is read from a document -/

/-- `ofJson? (.text kind.name) = some kind`: a kind is found by its name. -/
theorem NodeKind.ofJson?_text (kind : NodeKind) : ofJson? (.text kind.name) = some kind := by
  cases kind <;> rfl

/-- **An argument is read from any document that describes it**: `ofJson? j = some a`. -/
theorem Argument.ofJson?_of_describes (j : Json) (a : Argument) (h : j.DescribesArgument a) :
    ofJson? j = some a := by
  cases h with
  | @object a members hname hkind provider source words parameters =>
    obtain ⟨provider?, hprovider, hreadProvider⟩ := provider.withDefault?_eq Json.IsText.string?_eq
    obtain ⟨source?, hsource, hreadSource⟩ := source.withDefault?_eq Json.IsText.string?_eq
    obtain ⟨words?, hwords, hreadWords⟩ := words.withDefault?_eq Json.IsText.string?_eq
    obtain ⟨parameters?, hparameters, hreadParameters⟩ := parameters.withDefault?_eq
      fun _ _ hvalue => hvalue.list?_eq Json.IsText.string?_eq
    have hrecord : Json.record? memberNames (.object members) =
        some [some (.text a.canonicalName), some (.text a.kind.name), provider?, source?, words?,
          parameters?] := by
      simp [Json.record?, memberNames, hname.member?_eq, hkind.member?_eq, hprovider, hsource,
        hwords, hparameters]
    rw [ofJson?, hrecord]
    dsimp only
    rw [Json.required?, Json.required?, Option.bind_some, Option.bind_some,
      NodeKind.ofJson?_text, hreadProvider, hreadSource, hreadWords, hreadParameters]
    rfl

/-- The children of an object are those of its first member with their name: `childrenIn? members`
is `match members.filter fun m => m.1 == "children" with | [] => some [] | m :: _ => listOf? m.2`.
-/
theorem Node.childrenIn?_eq (members : List (String × Json)) :
    childrenIn? members =
      match members.filter fun m => m.1 == "children" with
      | [] => some []
      | m :: _ => listOf? m.2 := by
  induction members with
  | nil => rfl
  | cons m members ih =>
    obtain ⟨name, value⟩ := m
    rw [childrenIn?, List.filter_cons]
    dsimp only
    by_cases hname : name = "children"
    · rw [if_pos hname, if_pos (beq_iff_eq.2 hname)]
    · rw [if_neg hname, if_neg fun heq => hname (beq_iff_eq.1 heq), ih]

/-- `allOf? items = some children`: trees are read from documents that describe them, if each is. -/
theorem Node.allOf?_eq {items : List Json} {children : List Node}
    (h : List.Forall₂ Json.Describes items children)
    (hread : ∀ child ∈ children, ∀ {j : Json}, j.Describes child → ofJson? j = some child) :
    allOf? items = some children := by
  induction h with
  | nil => rfl
  | cons hchild _ ih =>
    obtain ⟨hfirst, hrest⟩ := List.forall_mem_cons.1 hread
    rw [allOf?, hfirst hchild, ih hrest]
    rfl

/-- **A query is read from any document that describes it**: `ofJson? j = some n`. -/
theorem Node.ofJson?_of_describes {j : Json} {n : Node} (h : j.Describes n) :
    ofJson? j = some n := by
  induction n using Node.induction generalizing j with
  | node n ih =>
  cases h with
  | @object kind arguments children members hkind harguments hchildren =>
    obtain ⟨arguments?, hfound, hread⟩ := harguments.withDefault?_eq
      fun _ _ hvalue => hvalue.list?_eq Argument.ofJson?_of_describes
    -- children are read while their member is looked for
    obtain ⟨children?, hmember, hchildrenIn⟩ : ∃ children?,
        Json.member? "children" members = some children? ∧ childrenIn? members = some children := by
      rw [childrenIn?_eq]
      cases hchildren with
      | left hlacks => exact ⟨none, hlacks.member?_eq, by rw [hlacks.filter_eq]⟩
      | @held _ _ _ value hholds harray =>
        refine ⟨_, hholds.member?_eq, ?_⟩
        obtain ⟨hitems⟩ := harray
        rw [hholds.filter_eq]
        exact allOf?_eq hitems ih
    have hrecord : Json.record? memberNames (.object members) =
        some [some (.text kind.name), arguments?, children?] := by
      simp [Json.record?, memberNames, hkind.member?_eq, hfound, hmember]
    rw [ofJson?, hrecord, hchildrenIn, ofMembers?, Json.required?, Option.bind_some,
      NodeKind.ofJson?_text, hread]
    rfl

/-! ## (4) What is written -/

/-- An array that is written stands for its items:
`Json.IsArray stands (.array (xs.map write)) xs`. -/
theorem Json.isArray_map {β : Type} {stands : Json → β → Prop} {write : β → Json} {xs : List β}
    (h : ∀ x ∈ xs, stands (write x) x) : Json.IsArray stands (.array (xs.map write)) xs := by
  refine .array (List.forall₂_map_left_iff.2 ?_)
  exact List.forall₂_same.2 h

/-- The document of an argument describes it: `a.toJson.DescribesArgument a`. -/
theorem Argument.describes_toJson (a : Argument) : a.toJson.DescribesArgument a := by
  refine .object ?_ ?_ (.held ?_ rfl) (.held ?_ rfl) (.held ?_ rfl)
    (.held ?_ (Json.isArray_map fun _ _ => rfl))
  all_goals
    exact .of_mem (show List.map Prod.fst _ = memberNames from rfl) (by decide) (by simp)

/-- `toJsonAll ns = ns.map toJson`: the documents of several trees are those of each. -/
theorem Node.toJsonAll_eq_map (ns : List Node) : toJsonAll ns = ns.map toJson := by
  induction ns with
  | nil => rfl
  | cons n ns ih => rw [toJsonAll, ih, List.map_cons]

/-- **The document of a query describes it**: `n.toJson.Describes n`. -/
theorem Node.describes_toJson (n : Node) : n.toJson.Describes n := by
  induction n using Node.induction with
  | node n ih =>
  cases n with
  | mk kind arguments children =>
    rw [toJson, toJsonAll_eq_map]
    refine .object ?_ (.held ?_ (Json.isArray_map fun a _ => a.describes_toJson))
      (.held ?_ (Json.isArray_map ih))
    all_goals
      exact .of_mem (show List.map Prod.fst _ = memberNames from rfl) (by decide) (by simp)

/-- The document of an argument is two levels deep: `Json.Readable (depth + 2) a.toJson`. -/
theorem Argument.readable_toJson (a : Argument) (depth : Nat) :
    Json.Readable (depth + 2) a.toJson := by
  have htexts : Json.Readable (depth + 1) (.array (a.parameters.map .text)) :=
    .array (List.forall_mem_map.2 fun s _ => .text s)
  refine .object ?_
  simp only [List.forall_mem_cons]
  exact ⟨.text _, .text _, .text _, .text _, .text _, htexts, nofun⟩

/-- **The document of a query nests** two levels for each level of the tree, and two more for the
parameters of arguments: `Json.Readable depth n.toJson`. -/
theorem Node.readable_toJson (n : Node) {depth : Nat} (h : 2 * n.depth + 2 ≤ depth) :
    Json.Readable depth n.toJson := by
  induction n using Node.induction generalizing depth with
  | node n ih =>
  cases n with
  | mk kind arguments children =>
    rw [depth_eq] at h
    obtain ⟨depth, rfl⟩ := Nat.exists_eq_add_of_le' (show 4 ≤ depth by omega)
    have harguments : Json.Readable (depth + 3) (.array (arguments.map Argument.toJson)) :=
      .array (List.forall_mem_map.2 fun a _ => a.readable_toJson depth)
    have hchildren : Json.Readable (depth + 3) (.array (children.map toJson)) := by
      refine .array (List.forall_mem_map.2 fun child hchild => ih child hchild ?_)
      have hle := depth_le_depthAll hchild
      dsimp only at h
      omega
    rw [toJson, toJsonAll_eq_map]
    refine .object ?_
    simp only [List.forall_mem_cons]
    exact ⟨.text _, harguments, hchildren, nofun⟩

/-! ## (5) The store -/

namespace Store

/-- `loadQueryBy read s name`: a saved query, by a reader of documents. -/
def loadQueryBy (read : String → Option Json) (s : Store) (name : String) :
    Except StoreError Node :=
  loadDocument (fun source => (read source).bind Node.ofJson?) s.queries name

/-- `s.loadQuery name = s.loadQueryBy Json.parse? name`: saved queries are read by the reader at
hand. -/
theorem loadQuery_eq (s : Store) (name : String) :
    s.loadQuery name = s.loadQueryBy Json.parse? name := rfl

/-- `s.loadQueryBy read name = .ok n`: a query is loaded from any document that describes it. -/
theorem loadQueryBy_of_describes {read : String → Option Json} {s : Store} {name source : String}
    {j : Json} {n : Node} (hsource : s.queries.lookup name = some source)
    (hread : read source = some j) (h : j.Describes n) : s.loadQueryBy read name = .ok n := by
  rw [loadQueryBy, loadDocument, hsource]
  dsimp only
  rw [hread, Option.bind_some, Node.ofJson?_of_describes h]

/-- `(s.saveQuery name n).queries.lookup name = some n.render`: what is saved is found. -/
theorem lookup_saveQuery (s : Store) (name : String) (n : Node) :
    (s.saveQuery name n).queries.lookup name = some n.render := by
  rw [saveQuery, List.lookup_cons, beq_self_eq_true]

/-- A query that is not too deep is loaded as it was saved:
`(s.saveQuery name n).loadQuery name = .ok n`. -/
theorem loadQuery_of_depth {n : Node} (hdepth : 2 * n.depth + 2 ≤ Json.depthLimit) (s : Store)
    (name : String) : (s.saveQuery name n).loadQuery name = .ok n := by
  rw [loadQuery_eq]
  exact loadQueryBy_of_describes (s.lookup_saveQuery name n)
    (Json.parse?_render (n.readable_toJson hdepth)) n.describes_toJson

/-- **Queries that are loaded.**

* A query that was saved is loaded as it was, by any reader that reads back its document.
* The reader at hand does so unless the query is too deep for it.
* A document loads as any query that it describes, whatever it leaves out. -/
theorem loadQuery_saveQuery (s : Store) (name : String) (n : Node) :
    (∀ read : String → Option Json, read n.render = some n.toJson →
      (s.saveQuery name n).loadQueryBy read name = .ok n) ∧
    (2 * n.depth + 2 ≤ Json.depthLimit → (s.saveQuery name n).loadQuery name = .ok n) ∧
    ∀ (read : String → Option Json) (source : String) (j : Json), read source = some j →
      j.Describes n → s.queries.lookup name = some source →
        s.loadQueryBy read name = .ok n := by
  refine ⟨fun read hread => ?_, fun hdepth => loadQuery_of_depth hdepth s name,
    fun read source j hread h hsource => loadQueryBy_of_describes hsource hread h⟩
  exact loadQueryBy_of_describes (s.lookup_saveQuery name n) hread n.describes_toJson

/-- A field. -/
def price : Node := { kind := .data, arguments := [{ canonicalName := "Price", kind := .data }] }

/-- A document of the field that leaves out what is empty, and holds a remark. -/
def remarked : Json :=
  .object [("remark", .null), ("node_type", .text "Data"), ("arguments", .array [
    .object [("major_type", .text "Data"), ("canonical_name", .text "Price")]])]

/-- A formula of the field with quotes, characters that are escaped and others. -/
def quotedFormula : Node :=
  { kind := .formula
    arguments := [{
      canonicalName := "val \"*\" 2\\3\n", kind := .formula
      parameters := ["\x01", "größer", "😀"] }]
    children := [price] }

/-- The formula is loaded as it was saved, and the field from the document with the remark. -/
theorem loadQuery_saveQuery_quotedFormula :
    (Json.parse? quotedFormula.render = some quotedFormula.toJson ∧
      2 * quotedFormula.depth + 2 ≤ Json.depthLimit ∧
      (({} : Store).saveQuery "formula" quotedFormula).loadQueryBy Json.parse? "formula" =
        .ok quotedFormula ∧
      (({} : Store).saveQuery "formula" quotedFormula).loadQuery "formula" = .ok quotedFormula) ∧
    Json.parse? remarked.render = some remarked ∧ remarked.Describes price ∧
      ({ queries := [("price", remarked.render)] } : Store).loadQueryBy Json.parse? "price" =
        .ok price := by
  obtain ⟨hby, hshallow, -⟩ := loadQuery_saveQuery {} "formula" quotedFormula
  obtain ⟨-, -, hother⟩ := loadQuery_saveQuery { queries := [("price", remarked.render)] } "price"
    price
  have hdepth : 2 * quotedFormula.depth + 2 ≤ Json.depthLimit := by decide
  have hformula : Json.parse? quotedFormula.render = some quotedFormula.toJson :=
    Json.parse?_render (quotedFormula.readable_toJson hdepth)
  have hremarked : Json.parse? remarked.render = some remarked := by
    refine Json.parse?_render (.object ?_)
    simp only [List.forall_mem_cons]
    refine ⟨.null, .text _, .array ?_, nofun⟩
    refine List.forall_mem_singleton.2 (.object ?_)
    simp only [List.forall_mem_cons]
    exact ⟨.text _, .text _, nofun⟩
  have hdescribes : remarked.Describes price := by
    have hargument : Json.DescribesArgument
        (.object [("major_type", .text "Data"), ("canonical_name", .text "Price")])
        { canonicalName := "Price", kind := .data } :=
      .object ⟨by simp, rfl⟩ ⟨by simp [NodeKind.name], rfl⟩ (.left (by decide)) (.left (by decide))
        (.left (by decide)) (.left (by decide))
    exact .object ⟨by simp [NodeKind.name], rfl⟩
      (.held ⟨by simp, rfl⟩ (.array (.cons hargument .nil))) (.left (by decide))
  exact ⟨⟨hformula, hdepth, hby _ hformula, hshallow hdepth⟩, hremarked, hdescribes,
    hother _ _ _ hremarked hdescribes rfl⟩

end Store

end PanelQuery
