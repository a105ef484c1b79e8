import Mathlib.Data.List.Infix
import Mathlib.Data.List.Induction
import PanelQuery.Proofs.Formula.Lookback

/-! # Code fragments

What the code of an expression is, apart from the tables that are threaded through it: operations
in postfix order that know from which place and which slot on they stand, the indices of its loads,
one after the other, and the texts that it mentions.

* **`Fragment`** — code that can be placed anywhere; fragments are put one after the other, and
  together to a conditional;
* **`Tables.addTexts`, `Tables.addTexts_nil`** — the different texts, in order of their first use;
* **`Expr.fragment`, `Expr.emit_places`** — the fragment of an expression is what its code emits;
* **`Program.ofExpr_eq`** — the program of an expression is that of its fragment;
* **`Expr.references`, `Program.reads_ofExpr`** — the series that it reads. -/

namespace PanelQuery.Formula

/-! ## (1) Fragments -/

/-- Code apart from what stands before it. -/
structure Fragment where
  /-- The operations, given the table of texts, the place of the first operation and the slot of the
  first index. -/
  ops : (texts : List String) → (start slot : Nat) → List Op
  /-- The indices that the operations load with, in their order. -/
  specs : List IndexSpec
  /-- The texts that the operations push, in their order. -/
  literals : List String

namespace Fragment

/-- A single operation. -/
def op (o : Op) : Fragment := ⟨fun _ _ _ => [o], [], []⟩

/-- `load spec o`: a load, whose slot comes next. -/
def load (spec : IndexSpec) (o : Nat → Op) : Fragment := ⟨fun _ _ slot => [o slot], [spec], []⟩

/-- A text, which is pushed from its slot in the table. -/
def text (s : String) : Fragment := ⟨fun texts _ _ => [.pushText (texts.idxOf s)], [], [s]⟩

/-- `append a b`: one fragment after another. -/
def append (a b : Fragment) : Fragment where
  ops texts start slot :=
    let first := a.ops texts start slot
    first ++ b.ops texts (start + first.length) (slot + a.specs.length)
  specs := a.specs ++ b.specs
  literals := a.literals ++ b.literals

instance : Append Fragment := ⟨append⟩

/-- A conditional: a condition that leads to the second branch when it is false, the first branch,
from which a jump leads to the end, and the second branch. -/
def choose (test yes no : Fragment) : Fragment where
  ops texts start slot :=
    let test' := test.ops texts start slot
    let first := yes.ops texts (start + test'.length + 1) (slot + test.specs.length)
    let jumpAt := start + test'.length + 1 + first.length
    let second := no.ops texts (jumpAt + 1) (slot + test.specs.length + yes.specs.length)
    test' ++ .branch (jumpAt + 1) :: first ++ .jump (jumpAt + 1 + second.length) :: second
  specs := test.specs ++ yes.specs ++ no.specs
  literals := test.literals ++ yes.literals ++ no.literals

/-- `program f source`: the program of a fragment alone. -/
def program (f : Fragment) (source : String) : Program :=
  ⟨source, f.ops f.literals.eraseDups 0 0, f.specs, f.literals.eraseDups⟩

end Fragment

/-! ## (2) Texts -/

namespace Tables

/-- `addTexts table texts`: a table with more texts, of which each is listed once. -/
def addTexts (table texts : List String) : List String :=
  texts.foldl (fun table s => if s ∈ table then table else table ++ [s]) table

/-- `addTexts table (texts ++ more) = addTexts (addTexts table texts) more`: more texts are added
one after the other. -/
theorem addTexts_append (table texts more : List String) :
    addTexts table (texts ++ more) = addTexts (addTexts table texts) more :=
  List.foldl_append

/-- A table is a beginning of one with more texts: `table <+: addTexts table texts`. -/
theorem prefix_addTexts (table texts : List String) : table <+: addTexts table texts := by
  induction texts generalizing table with
  | nil => exact List.prefix_rfl
  | cons s texts ih =>
    refine List.IsPrefix.trans ?_ (ih _)
    dsimp only
    split
    · exact List.prefix_rfl
    · exact List.prefix_append _ _

/-- **Added to nothing**, texts are listed in order of their first occurrence:
`addTexts [] texts = texts.eraseDups`. -/
theorem addTexts_nil (texts : List String) : addTexts [] texts = texts.eraseDups := by
  induction texts using List.reverseRecOn with
  | nil => rfl
  | append_singleton texts s ih =>
    rw [addTexts_append, ih, List.eraseDups_append]
    show (if s ∈ texts.eraseDups then _ else _) = _
    by_cases hs : s ∈ texts
    · rw [if_pos (List.mem_eraseDups.2 hs), List.removeAll,
        List.filter_cons_of_neg (by simpa using hs), List.filter_nil, List.eraseDups_nil,
        List.append_nil]
    · rw [if_neg fun hmem => hs (List.mem_eraseDups.1 hmem), List.removeAll,
        List.filter_cons_of_pos (by simpa using hs), List.filter_nil]
      rfl

/-- **One text** gets the slot that it has in all tables that begin with the extended one:
`t.addText s = (texts.idxOf s, ⟨t.indices, addTexts t.texts [s]⟩)`. -/
theorem addText_eq {t : Tables} {s : String} {texts : List String}
    (h : addTexts t.texts [s] <+: texts) :
    t.addText s = (texts.idxOf s, ⟨t.indices, addTexts t.texts [s]⟩) := by
  obtain ⟨rest, rfl⟩ := h
  show t.addText s = (List.idxOf s ((if s ∈ t.texts then t.texts else t.texts ++ [s]) ++ rest),
    ⟨t.indices, if s ∈ t.texts then t.texts else t.texts ++ [s]⟩)
  unfold addText
  by_cases hs : s ∈ t.texts
  · obtain ⟨slot, hslot⟩ := Option.isSome_iff_exists.1 (List.isSome_idxOf?.2 hs)
    rw [if_pos hs, List.idxOf_append_of_mem hs, List.idxOf_eq_getD_idxOf?, hslot,
      Option.getD_some]
  · have hidx : t.texts.idxOf? s = none := List.idxOf?_eq_none_iff.2 hs
    rw [if_neg hs, hidx, List.append_assoc, List.idxOf_append_of_notMem hs]
    simp

end Tables

/-! ## (3) Emission -/

/-- **Code that places a fragment**: from any place and any tables on, where the table of texts at
the end of the whole program is known. -/
def Code.Places (texts : List String) (code : Code) (f : Fragment) : Prop :=
  ∀ start t, Tables.addTexts t.texts f.literals <+: texts →
    code start t = (f.ops texts start t.indices.length,
      ⟨t.indices ++ f.specs, Tables.addTexts t.texts f.literals⟩)

namespace Code.Places

variable {texts : List String} {a b c : Code} {f g k : Fragment}

/-- A single operation: `(Code.op o).Places texts (.op o)`. -/
theorem op (o : Op) : (Code.op o).Places texts (.op o) := fun start t _ => by
  show ([o], t) = ([o], ⟨t.indices ++ [], t.texts⟩)
  rw [List.append_nil]

/-- A load: `(Code.load spec o).Places texts (.load spec o)`. -/
theorem load (spec : IndexSpec) (o : Nat → Op) :
    (Code.load spec o).Places texts (.load spec o) :=
  fun _ _ _ => rfl

/-- A text: `(Code.text s).Places texts (.text s)`. -/
theorem text (s : String) : (Code.text s).Places texts (.text s) := fun start t ht => by
  show ([Op.pushText (t.addText s).1], (t.addText s).2) = _
  rw [Tables.addText_eq ht]
  show _ = ([Op.pushText _], (⟨t.indices ++ [], _⟩ : Tables))
  rw [List.append_nil]
  rfl

/-- One piece of code after another: `(a ++ b).Places texts (f ++ g)`. -/
theorem append (ha : a.Places texts f) (hb : b.Places texts g) :
    (a ++ b).Places texts (f ++ g) := by
  intro start t ht
  have ht : Tables.addTexts t.texts (f.literals ++ g.literals) <+: texts := ht
  rw [Tables.addTexts_append] at ht
  have hfirst := ha start t ((Tables.prefix_addTexts _ _).trans ht)
  have hsecond := hb (start + (a start t).1.length) (a start t).2 (by rwa [hfirst])
  show ((a start t).1 ++ (b _ (a start t).2).1, (b _ (a start t).2).2) = _
  rw [hsecond, hfirst]
  show (_, (⟨t.indices ++ f.specs ++ g.specs, _⟩ : Tables)) =
    (_, ⟨t.indices ++ (f.specs ++ g.specs), Tables.addTexts t.texts (f.literals ++ g.literals)⟩)
  rw [Tables.addTexts_append, List.append_assoc, List.length_append]
  rfl

/-- A conditional: `(Code.choose a b c).Places texts (.choose f g k)`. -/
theorem choose (ha : a.Places texts f) (hb : b.Places texts g) (hc : c.Places texts k) :
    (Code.choose a b c).Places texts (.choose f g k) := by
  intro start t ht
  have ht : Tables.addTexts t.texts (f.literals ++ g.literals ++ k.literals) <+: texts := ht
  rw [Tables.addTexts_append, Tables.addTexts_append] at ht
  have hsecond := (Tables.prefix_addTexts _ _).trans ht
  have htest := ha start t ((Tables.prefix_addTexts _ _).trans hsecond)
  have hyes := fun start => hb start ⟨t.indices ++ f.specs, Tables.addTexts t.texts f.literals⟩
    hsecond
  have hno := fun start => hc start ⟨t.indices ++ (f.specs ++ g.specs),
    Tables.addTexts (Tables.addTexts t.texts f.literals) g.literals⟩ ht
  -- in a form in which the one finds the other
  simp only [List.length_append, List.append_assoc, ← Nat.add_assoc] at hyes hno
  simp only [Code.choose, Fragment.choose, htest, hyes, hno, Tables.addTexts_append,
    List.append_assoc]

end Code.Places

/-! ## (4) Expressions -/

/-- The fragment of an expression: those of its operands, from left to right, and its operation. -/
def Expr.fragment {τ : Ty} : Expr τ → Fragment
  | .number x => .op (.pushNumber x)
  | .truth b => .op (.pushTruth b)
  | .text s => .text s
  | .position => .op .loadPosition
  | .point reference b => .load (.point b.code) (.load reference)
  | .category b => .load (.point b.code) .loadCategory
  | .negate a => a.fragment ++ .op .negate
  | .arith op a b => a.fragment ++ b.fragment ++ .op (.arith op)
  | .compare op a b => a.fragment ++ b.fragment ++ .op (.compare op)
  | .sameText equal a b => a.fragment ++ b.fragment ++ .op (.sameText equal)
  | .both a b => a.fragment ++ b.fragment ++ .op .both
  | .either a b => a.fragment ++ b.fragment ++ .op .either
  | .complement a => a.fragment ++ .op .complement
  | .toBoolean a => a.fragment ++ .op .toBoolean
  | .toNumber a => a.fragment ++ .op .toNumber
  | .fold f a => .load a.index.spec (.loadStretch a.reference) ++ .op (.fold f)
  | .pairFold f a b =>
      .load a.index.spec (.loadStretch a.reference) ++
        .load b.index.spec (.loadStretch b.reference) ++ .op (.pairFold f)
  | .choose condition yes no => .choose condition.fragment yes.fragment no.fragment

/-- **The code of an expression places its fragment**: `e.emit.Places texts e.fragment`. -/
theorem Expr.emit_places (texts : List String) {τ : Ty} (e : Expr τ) :
    e.emit.Places texts e.fragment := by
  induction e with
  | number x => exact .op _
  | truth b => exact .op _
  | text s => exact .text s
  | position => exact .op _
  | point reference b => exact .load _ _
  | category b => exact .load _ _
  | negate a ih | complement a ih | toBoolean a ih | toNumber a ih => exact ih.append (.op _)
  | arith op a b iha ihb | compare op a b iha ihb | sameText op a b iha ihb =>
    exact (iha.append ihb).append (.op _)
  | both a b iha ihb | either a b iha ihb => exact (iha.append ihb).append (.op _)
  | fold f a => exact Code.Places.append (.load _ _) (.op _)
  | pairFold f a b => exact Code.Places.append (.append (.load _ _) (.load _ _)) (.op _)
  | choose condition yes no ihc ihy ihn => exact ihc.choose ihy ihn

/-- **The program of an expression is that of its fragment**:
`Program.ofExpr source e = e.fragment.program source`. -/
theorem Program.ofExpr_eq (source : String) (e : Expr .number) :
    Program.ofExpr source e = e.fragment.program source := by
  have hplaced := e.emit_places e.fragment.literals.eraseDups 0 .empty (by
    show Tables.addTexts [] e.fragment.literals <+: _
    rw [Tables.addTexts_nil])
  rw [ofExpr, hplaced]
  show (⟨source, _, [] ++ e.fragment.specs, Tables.addTexts [] e.fragment.literals⟩ : Program) = _
  rw [Tables.addTexts_nil, List.nil_append]
  rfl

/-! ## (5) References -/

/-- The series that an expression reads, in the order in which it asks for them. -/
def Expr.references {τ : Ty} : Expr τ → List Reference
  | .number _ | .truth _ | .text _ | .position | .category _ => []
  | .point reference _ => [reference]
  | .negate a | .complement a | .toBoolean a | .toNumber a => a.references
  | .arith _ a b | .compare _ a b | .sameText _ a b | .both a b | .either a b =>
      a.references ++ b.references
  | .fold _ a => [a.reference]
  | .pairFold _ a b => [a.reference, b.reference]
  | .choose condition yes no => condition.references ++ yes.references ++ no.references

/-- `(e.fragment.ops texts start slot).filterMap Op.reference? = e.references`: the loads of an
expression are those of its references. -/
theorem Expr.references_fragment {τ : Ty} (e : Expr τ) (texts : List String) (start slot : Nat) :
    (e.fragment.ops texts start slot).filterMap Op.reference? = e.references := by
  have happend : ∀ (f g : Fragment) (start slot : Nat), ((f ++ g).ops texts start slot).filterMap
      Op.reference? = (f.ops texts start slot).filterMap Op.reference? ++
        (g.ops texts (start + (f.ops texts start slot).length) (slot + f.specs.length)).filterMap
          Op.reference? := fun f g start slot => List.filterMap_append
  induction e generalizing start slot with
  | number | truth | text | position | point | category => rfl
  | negate a ih | complement a ih | toBoolean a ih | toNumber a ih =>
    rw [fragment, happend, ih, references]
    exact List.append_nil _
  | arith op a b iha ihb | compare op a b iha ihb | sameText op a b iha ihb =>
    rw [fragment, happend, happend, iha, ihb, references]
    exact List.append_nil _
  | both a b iha ihb | either a b iha ihb =>
    rw [fragment, happend, happend, iha, ihb, references]
    exact List.append_nil _
  | fold f a => rfl
  | pairFold f a b => rfl
  | choose condition yes no ihc ihy ihn =>
    show List.filterMap Op.reference? (_ ++ Op.branch _ :: _ ++ Op.jump _ :: _) = _
    rw [List.filterMap_append, List.filterMap_append, ihc, List.filterMap_cons_none rfl, ihy,
      List.filterMap_cons_none rfl, ihn, references]

/-- **A program loads from the series that its expression reads**:
`(Program.ofExpr source e).Reads reference ↔ reference ∈ e.references`. -/
theorem Program.reads_ofExpr {source : String} {e : Expr .number} {reference : Reference} :
    (Program.ofExpr source e).Reads reference ↔ reference ∈ e.references := by
  rw [ofExpr_eq, ← e.references_fragment e.fragment.literals.eraseDups 0 0, List.mem_filterMap]
  rfl

end PanelQuery.Formula
