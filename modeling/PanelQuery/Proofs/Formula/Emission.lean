import PanelQuery.Proofs.Formula.Paths

/-! # Emitted code is checked

The code of an expression, wherever it is placed and whatever the stacks hold before it, leaves one
more entry on the stack of its type along all paths through it. The heights along the way are given
as labels, one for each operation and one for the end; labels of code after code and of a
conditional are put together from those of the parts.

* **`Labelled`** — labels that agree with the effects and the successors of operations;
* **`Tables.Extends`, `Op.Within`** — tables only grow, and operations refer to what is in them;
* **`Code.Takes`** — code that leads from some heights to others;
* **`Expr.emit_takes`** — the code of an expression adds one entry;
* **`Program.checked_ofExpr`** — the program of an expression is checked. -/

namespace PanelQuery.Formula

/-! ## (1) Labels -/

/-- Labels of the operations `ops` that stand from `start` on: the heights before each of them, and
the heights at their end. Each operation finds its operands, and each successor lies further on and
is labelled with the heights that the operation leaves. -/
structure Labelled (start : Nat) (ops : List Op) (labels : List Heights) : Prop where
  /-- There is a label for each operation and one for the end. -/
  length_eq : labels.length = ops.length + 1
  /-- Labels agree with effects and successors. -/
  sound : ∀ i op h, ops[i]? = some op → labels[i]? = some h → ∃ h', op.effect h = some h' ∧
    ∀ next ∈ op.successors (start + i), start + i < next ∧ labels[next - start]? = some h'

namespace Labelled

variable {start : Nat} {ops more : List Op} {h h' m : Heights} {before after : List Heights}

/-- A single operation that does not jump: `Labelled start [op] [h, h']`. -/
theorem single {op : Op} (heffect : op.effect h = some h') (htarget : op.target? = none) :
    Labelled start [op] [h, h'] := by
  refine ⟨rfl, fun i o k ho hk => ?_⟩
  obtain ⟨rfl, rfl⟩ : i = 0 ∧ op = o := by
    cases i with
    | zero => exact ⟨rfl, by simpa using ho⟩
    | succ i => simp at ho
  obtain rfl : h = k := by simpa using hk
  refine ⟨h', heffect, fun next hnext => ?_⟩
  obtain rfl : next = start + 0 + 1 := by
    cases op <;> first | simpa [Op.successors] using hnext | simp [Op.target?] at htarget
  exact ⟨by omega, by simp⟩

/-- **Labels of code after code**: the label at the end of the first is that at the beginning of the
second. `Labelled start (ops ++ more) (before ++ m :: after)`. -/
theorem append (ha : Labelled start ops (before ++ [m]))
    (hb : Labelled (start + ops.length) more (m :: after)) :
    Labelled start (ops ++ more) (before ++ m :: after) := by
  have hbefore : before.length = ops.length := by simpa using ha.length_eq
  have hafter : after.length = more.length := by simpa using hb.length_eq
  refine ⟨by simp [hbefore, hafter]; omega, fun i op h hop hlabel => ?_⟩
  by_cases hi : i < ops.length
  · -- in the first part, whose labels begin the list
    rw [List.getElem?_append_left hi] at hop
    rw [List.append_cons] at hlabel ⊢
    rw [List.getElem?_append_left (by simp; omega)] at hlabel
    obtain ⟨h', heffect, hnext⟩ := ha.sound i op h hop hlabel
    refine ⟨h', heffect, fun next hmem => ⟨(hnext next hmem).1, ?_⟩⟩
    have hlt := (List.getElem?_eq_some_iff.1 (hnext next hmem).2).1
    rw [List.getElem?_append_left hlt]
    exact (hnext next hmem).2
  · -- in the second part, whose places are moved by the length of the first
    rw [List.getElem?_append_right (by omega)] at hop
    rw [List.getElem?_append_right (by omega), hbefore] at hlabel
    obtain ⟨h', heffect, hnext⟩ := hb.sound (i - ops.length) op h hop hlabel
    refine ⟨h', heffect, fun next hmem => ?_⟩
    rw [show start + ops.length + (i - ops.length) = start + i by omega] at hnext
    obtain ⟨hlt, hnext⟩ := hnext next hmem
    refine ⟨hlt, ?_⟩
    rw [List.getElem?_append_right (by omega), ← hnext, hbefore]
    congr 1
    omega

/-- **Labels of code, a jump over more code, and that code**: both pieces end with the same heights,
which are those at the end of the whole.
`Labelled start (yes ++ .jump (start + yes.length + 1 + no.length) :: no) (first ++ second)`. -/
theorem jumpOver {yes no : List Op} {first second : List Heights}
    (hyes : Labelled start yes first) (hno : Labelled (start + yes.length + 1) no second)
    (hfirst : first.getLast? = some m) (hsecond : second.getLast? = some m) :
    Labelled start (yes ++ .jump (start + yes.length + 1 + no.length) :: no)
      (first ++ second) := by
  have hf := hyes.length_eq
  have hs := hno.length_eq
  rw [List.getLast?_eq_getElem?] at hfirst hsecond
  refine ⟨by simp [hf, hs]; omega, fun i op h hop hlabel => ?_⟩
  rcases Nat.lt_trichotomy i yes.length with hi | hi | hi
  · -- in the first piece
    rw [List.getElem?_append_left hi] at hop
    rw [List.getElem?_append_left (by omega)] at hlabel
    obtain ⟨h', heffect, hnext⟩ := hyes.sound i op h hop hlabel
    refine ⟨h', heffect, fun next hmem => ⟨(hnext next hmem).1, ?_⟩⟩
    have hlt := (List.getElem?_eq_some_iff.1 (hnext next hmem).2).1
    rw [List.getElem?_append_left hlt]
    exact (hnext next hmem).2
  · -- the jump, which leads to the end
    subst hi
    rw [List.getElem?_append_right (Nat.le_refl _), Nat.sub_self] at hop
    obtain rfl : Op.jump (start + yes.length + 1 + no.length) = op := by simpa using hop
    rw [List.getElem?_append_left (by omega)] at hlabel
    obtain rfl : m = h := by
      rw [show yes.length = first.length - 1 by omega, hfirst] at hlabel
      exact Option.some.inj hlabel
    refine ⟨m, rfl, fun next hnext => ?_⟩
    obtain rfl := List.mem_singleton.1 hnext
    refine ⟨by omega, ?_⟩
    rw [List.getElem?_append_right (by omega), ← hsecond]
    congr 1
    omega
  · -- in the second piece
    obtain ⟨j, rfl⟩ : ∃ j, i = yes.length + 1 + j := ⟨i - (yes.length + 1), by omega⟩
    rw [List.getElem?_append_right (by omega),
      show yes.length + 1 + j - yes.length = j + 1 by omega, List.getElem?_cons_succ] at hop
    rw [List.getElem?_append_right (by omega),
      show yes.length + 1 + j - first.length = j by omega] at hlabel
    obtain ⟨h', heffect, hnext⟩ := hno.sound j op h hop hlabel
    refine ⟨h', heffect, fun next hmem => ?_⟩
    rw [show start + yes.length + 1 + j = start + (yes.length + 1 + j) by omega] at hnext
    obtain ⟨hlt, hnext⟩ := hnext next hmem
    refine ⟨hlt, ?_⟩
    rw [List.getElem?_append_right (by omega), ← hnext]
    congr 1
    omega

/-- **Labels of a condition and the code after it**: the code begins with the heights below the
condition, and so does the place that the condition leads to when it is false.
`Labelled start (.branch target :: ops) (⟨n, b + 1, s, c⟩ :: labels)`. -/
theorem branch (target : Nat) {n b s c : Nat} {labels : List Heights}
    (hops : Labelled (start + 1) ops labels) (htarget : start < target)
    (hhead : labels.head? = some ⟨n, b, s, c⟩)
    (hlabel : labels[target - (start + 1)]? = some ⟨n, b, s, c⟩) :
    Labelled start (.branch target :: ops) (⟨n, b + 1, s, c⟩ :: labels) := by
  refine ⟨by simp [hops.length_eq], fun i op h hop hh => ?_⟩
  -- a label of the code stands one place further on
  have hlater : ∀ {next : Nat} {k : Heights}, start < next →
      labels[next - (start + 1)]? = some k →
      (⟨n, b + 1, s, c⟩ :: labels)[next - start]? = some k := by
    intro next k hnext hk
    rw [show next - start = next - (start + 1) + 1 by omega, List.getElem?_cons_succ]
    exact hk
  cases i with
  | zero =>
    obtain rfl : Op.branch target = op := by simpa using hop
    obtain rfl : (⟨n, b + 1, s, c⟩ : Heights) = h := by simpa using hh
    refine ⟨⟨n, b, s, c⟩, rfl, fun next hnext => ?_⟩
    rcases List.mem_cons.1 hnext with rfl | hnext
    · refine ⟨by omega, hlater (by omega) ?_⟩
      rw [Nat.add_zero, Nat.sub_self, ← List.head?_eq_getElem?]
      exact hhead
    · obtain rfl := List.mem_singleton.1 hnext
      exact ⟨by omega, hlater htarget hlabel⟩
  | succ i =>
    obtain ⟨h', heffect, hnext⟩ := hops.sound i op h hop hh
    refine ⟨h', heffect, fun next hmem => ?_⟩
    rw [show start + 1 + i = start + (i + 1) by omega] at hnext
    obtain ⟨hlt, hk⟩ := hnext next hmem
    exact ⟨hlt, hlater (by omega) hk⟩

/-- A label that is followed by others, and the labels before it: there is `labels` with
`Labelled start (ops ++ more) labels ∧ labels.head? = some h ∧ labels.getLast? = some h'`. -/
theorem exists_append (ha : Labelled start ops before)
    (hb : Labelled (start + ops.length) more after) (hbefore : before.head? = some h)
    (hm : before.getLast? = some m) (hm' : after.head? = some m)
    (hafter : after.getLast? = some h') :
    ∃ labels, Labelled start (ops ++ more) labels ∧ labels.head? = some h ∧
      labels.getLast? = some h' := by
  obtain ⟨before, rfl⟩ := List.getLast?_eq_some_iff.1 hm
  obtain ⟨after, rfl⟩ := List.head?_eq_some_iff.1 hm'
  -- the label in the middle is given by both, and stands once
  refine ⟨before ++ m :: after, ha.append hb, ?_, ?_⟩
  · rw [List.append_cons, List.head?_append, hbefore]
    rfl
  · rw [List.getLast?_append, hafter]
    rfl

end Labelled

/-! ## (2) Tables -/

/-- Tables with more entries at their ends. -/
structure Tables.Extends (t' t : Tables) : Prop where
  indices : t.indices <+: t'.indices
  texts : t.texts <+: t'.texts

/-- Tables extend themselves: `t.Extends t`. -/
theorem Tables.Extends.refl (t : Tables) : t.Extends t :=
  ⟨List.prefix_rfl, List.prefix_rfl⟩

/-- Tables that extend tables that extend others: `t''.Extends t`. -/
theorem Tables.Extends.trans {t t' t'' : Tables} (h : t''.Extends t') (h' : t'.Extends t) :
    t''.Extends t :=
  ⟨h'.indices.trans h.indices, h'.texts.trans h.texts⟩

/-- Whether all codes of the table of indices are complete. -/
def Tables.IsComplete (t : Tables) : Prop :=
  ∀ spec ∈ t.indices, ∀ code ∈ spec.codes, code.IsComplete

/-- Whether what an operation refers to is in the tables. -/
structure Op.Within (op : Op) (t : Tables) : Prop where
  index_lt : ∀ slot, op.slot? = some slot → slot < t.indices.length
  text_lt : ∀ slot, op.textSlot? = some slot → slot < t.texts.length

/-- An operation stays within tables that grow: `op.Within t'`. -/
theorem Op.Within.mono {op : Op} {t t' : Tables} (h : op.Within t) (ht : t'.Extends t) :
    op.Within t' :=
  ⟨fun slot hslot => Nat.lt_of_lt_of_le (h.index_lt slot hslot) ht.indices.length_le,
    fun slot hslot => Nat.lt_of_lt_of_le (h.text_lt slot hslot) ht.texts.length_le⟩

/-- Tables with one more index extend the tables: `(t.addIndex spec).2.Extends t`. -/
theorem Tables.addIndex_extends (t : Tables) (spec : IndexSpec) :
    (t.addIndex spec).2.Extends t :=
  ⟨List.prefix_append _ _, List.prefix_rfl⟩

/-- `(t.addIndex spec).2.indices[(t.addIndex spec).1]? = some spec`: a new index is at its slot. -/
theorem Tables.addIndex_getElem? (t : Tables) (spec : IndexSpec) :
    (t.addIndex spec).2.indices[(t.addIndex spec).1]? = some spec := by
  simp [addIndex]

/-- Tables with a text extend the tables: `(t.addText s).2.Extends t`. -/
theorem Tables.addText_extends (t : Tables) (s : String) : (t.addText s).2.Extends t := by
  unfold addText
  split
  · exact .refl t
  · exact ⟨List.prefix_rfl, List.prefix_append _ _⟩

/-- `(t.addText s).2.texts[(t.addText s).1]? = some s`: a text is at its slot, whether it is new or
not. -/
theorem Tables.addText_getElem? (t : Tables) (s : String) :
    (t.addText s).2.texts[(t.addText s).1]? = some s := by
  unfold addText
  split
  · rename_i slot hslot
    obtain ⟨hlt, hs, -⟩ := List.idxOf?_eq_some_iff.1 hslot
    exact List.getElem?_eq_some_iff.2 ⟨hlt, hs⟩
  · simp

/-- `(t.addText s).2.indices = t.indices`: a text does not change the table of indices. -/
theorem Tables.addText_indices (t : Tables) (s : String) :
    (t.addText s).2.indices = t.indices := by
  unfold addText
  split <;> rfl

/-! ## (3) Positions -/

/-- `IndexCode.height? (a ++ b) n = (IndexCode.height? a n).bind (IndexCode.height? b)`: index code
after index code. -/
theorem IndexCode.height?_append (a b : IndexCode) (n : Nat) :
    IndexCode.height? (a ++ b) n = (IndexCode.height? a n).bind (IndexCode.height? b) :=
  List.foldlM_append

/-- `IndexCode.height? b.code n = some (n + 1)`: the code of a position leaves one position more. -/
theorem Bound.height?_code (b : Bound) (n : Nat) : IndexCode.height? b.code n = some (n + 1) := by
  induction b generalizing n with
  | first | last | current | constant => rfl
  | add a b iha ihb | sub a b iha ihb =>
    rw [code, IndexCode.height?_append, IndexCode.height?_append, iha, Option.bind_some, ihb,
      Option.bind_some]
    simp [IndexCode.height?, IndexOp.effect]

/-- The code of a position is complete: `IndexCode.IsComplete b.code`. -/
theorem Bound.code_complete (b : Bound) : IndexCode.IsComplete b.code := b.height?_code 0

/-- The codes of an index are complete: `∀ code ∈ i.spec.codes, code.IsComplete`. -/
theorem Index.spec_complete (i : Index) : ∀ code ∈ i.spec.codes, code.IsComplete := by
  intro code hcode
  cases i with
  | point b =>
    obtain rfl := List.mem_singleton.1 hcode
    exact b.code_complete
  | range low high =>
    rcases List.mem_cons.1 hcode with rfl | hcode
    · exact low.code_complete
    · obtain rfl := List.mem_singleton.1 hcode
      exact high.code_complete

/-! ## (4) Code -/

/-- **Code that leads from the heights `h` to the heights `h'`**, wherever it is placed and whatever
the tables hold before it. -/
structure Code.Takes (code : Code) (h h' : Heights) : Prop where
  /-- The tables only grow. -/
  grows : ∀ start t, (code start t).2.Extends t
  /-- New indices are complete. -/
  complete : ∀ start t, t.IsComplete → (code start t).2.IsComplete
  /-- Operations refer to what is in the tables. -/
  within : ∀ start t, ∀ op ∈ (code start t).1, op.Within (code start t).2
  /-- The heights along the way can be given. -/
  labels : ∀ start t, ∃ labels, Labelled start (code start t).1 labels ∧
    labels.head? = some h ∧ labels.getLast? = some h'

namespace Code.Takes

variable {a b : Code} {h h' m : Heights}

/-- A single operation that neither jumps nor refers to a table: `(Code.op o).Takes h h'`. -/
theorem op {o : Op} (heffect : o.effect h = some h') (htarget : o.target? = none)
    (hslot : o.slot? = none) (htext : o.textSlot? = none) : (Code.op o).Takes h h' where
  grows _ t := .refl t
  complete _ _ ht := ht
  within _ t o' ho' := by
    obtain rfl := List.mem_singleton.1 ho'
    exact ⟨by simp [hslot], by simp [htext]⟩
  labels _ _ := ⟨[h, h'], .single heffect htarget, rfl, rfl⟩

/-- A load with a complete index: `(Code.load spec o).Takes h h'`. -/
theorem load {spec : IndexSpec} {o : Nat → Op} (heffect : ∀ slot, (o slot).effect h = some h')
    (htarget : ∀ slot, (o slot).target? = none) (hslot : ∀ slot, (o slot).slot? = some slot)
    (htext : ∀ slot, (o slot).textSlot? = none)
    (hspec : ∀ code ∈ spec.codes, code.IsComplete) : (Code.load spec o).Takes h h' where
  grows _ t := t.addIndex_extends spec
  complete _ t ht other hother := by
    rcases List.mem_append.1 hother with hother | hother
    · exact ht other hother
    · obtain rfl := List.mem_singleton.1 hother
      exact hspec
  within _ t o' ho' := by
    obtain rfl := List.mem_singleton.1 ho'
    refine ⟨fun slot h => ?_, fun slot h => by simp [htext] at h⟩
    obtain rfl := Option.some.inj ((hslot _).symm.trans h)
    simp [Code.load, Tables.addIndex]
  labels _ _ := ⟨[h, h'], .single (heffect _) (htarget _), rfl, rfl⟩

/-- A text: `(Code.text s).Takes h h'`. -/
theorem text (s : String) (heffect : ∀ slot, (Op.pushText slot).effect h = some h') :
    (Code.text s).Takes h h' where
  grows _ t := t.addText_extends s
  complete _ t ht := by
    unfold Tables.IsComplete Code.text
    dsimp only
    rw [Tables.addText_indices]
    exact ht
  within _ t o' ho' := by
    obtain rfl := List.mem_singleton.1 ho'
    refine ⟨fun slot h => by simp [Op.slot?] at h, fun slot h => ?_⟩
    obtain rfl := Option.some.inj h
    exact (List.getElem?_eq_some_iff.1 (t.addText_getElem? s)).1
  labels _ _ := ⟨[h, h'], .single (heffect _) rfl, rfl, rfl⟩

/-- **Code after code**: `(a ++ b).Takes h h'`. -/
theorem append (ha : a.Takes h m) (hb : b.Takes m h') : (a ++ b).Takes h h' where
  grows start t := (hb.grows _ _).trans (ha.grows start t)
  complete start t ht := hb.complete _ _ (ha.complete start t ht)
  within start t o ho := by
    rcases List.mem_append.1 ho with ho | ho
    · exact (ha.within start t o ho).mono (hb.grows _ _)
    · exact hb.within _ _ o ho
  labels start t := by
    obtain ⟨before, hbefore, hfirst, hlast⟩ := ha.labels start t
    obtain ⟨after, hafter, hfirst', hlast'⟩ :=
      hb.labels (start + (a start t).1.length) (a start t).2
    exact hbefore.exists_append hafter hfirst hlast hfirst' hlast'

/-- **A conditional**: the condition adds a truth value, and both branches lead from the heights
below it to the same heights. `(Code.choose test yes no).Takes ⟨n, b, s, c⟩ h'`. -/
theorem choose {test yes no : Code} {n b s c : Nat}
    (htest : test.Takes ⟨n, b, s, c⟩ ⟨n, b + 1, s, c⟩) (hyes : yes.Takes ⟨n, b, s, c⟩ h')
    (hno : no.Takes ⟨n, b, s, c⟩ h') : (Code.choose test yes no).Takes ⟨n, b, s, c⟩ h' where
  grows start t := (hno.grows _ _).trans ((hyes.grows _ _).trans (htest.grows start t))
  complete start t ht := hno.complete _ _ (hyes.complete _ _ (htest.complete start t ht))
  within start t o ho := by
    unfold Code.choose at ho ⊢
    simp only [List.append_assoc, List.cons_append] at ho
    rcases List.mem_append.1 ho with ho | ho
    · exact ((htest.within start t o ho).mono (hyes.grows _ _)).mono (hno.grows _ _)
    rcases List.mem_cons.1 ho with rfl | ho
    · exact ⟨by simp [Op.slot?], by simp [Op.textSlot?]⟩
    rcases List.mem_append.1 ho with ho | ho
    · exact (hyes.within _ _ o ho).mono (hno.grows _ _)
    rcases List.mem_cons.1 ho with rfl | ho
    · exact ⟨by simp [Op.slot?], by simp [Op.textSlot?]⟩
    · exact hno.within _ _ o ho
  labels start t := by
    unfold Code.choose
    simp only [List.append_assoc, List.cons_append]
    obtain ⟨before, hbefore, hhead, hlast⟩ := htest.labels start t
    generalize test start t = c₁ at *
    obtain ⟨first, hfirst, hfirstHead, hfirstLast⟩ := hyes.labels (start + c₁.1.length + 1) c₁.2
    generalize yes (start + c₁.1.length + 1) c₁.2 = c₂ at *
    obtain ⟨second, hsecond, hsecondHead, hsecondLast⟩ :=
      hno.labels (start + c₁.1.length + 1 + c₂.1.length + 1) c₂.2
    generalize no (start + c₁.1.length + 1 + c₂.1.length + 1) c₂.2 = c₃ at *
    -- the branches with the jump between them, the condition before them, and then the test
    have hboth := hfirst.jumpOver hsecond hfirstLast hsecondLast
    have helse : (first ++ second)[c₂.1.length + 1]? = some ⟨n, b, s, c⟩ := by
      rw [List.getElem?_append_right (Nat.le_of_eq hfirst.length_eq), hfirst.length_eq,
        Nat.sub_self,
        ← List.head?_eq_getElem?]
      exact hsecondHead
    have hbranch := hboth.branch (start + c₁.1.length + 1 + c₂.1.length + 1) (by omega)
      (by rw [List.head?_append, hfirstHead]; rfl) (by
        rw [show start + c₁.1.length + 1 + c₂.1.length + 1 - (start + c₁.1.length + 1)
          = c₂.1.length + 1 by omega]
        exact helse)
    refine hbefore.exists_append hbranch hhead hlast rfl ?_
    rw [List.getLast?_cons, List.getLast?_append, hsecondLast]
    rfl

/-- The load of a stretch: `(Code.stretch a).Takes ⟨n, b, s, c⟩ ⟨n, b, s, c + 1⟩`. -/
theorem stretch {n b s c : Nat} (a : Stretch) :
    (Code.stretch a).Takes ⟨n, b, s, c⟩ ⟨n, b, s, c + 1⟩ :=
  load (fun _ => rfl) (fun _ => rfl) (fun _ => rfl) (fun _ => rfl) a.index.spec_complete

end Code.Takes

/-! ## (5) Expressions -/

/-- The heights with one more entry on the stack of a type. -/
def Heights.add (h : Heights) : Ty → Heights
  | .number => { h with numbers := h.numbers + 1 }
  | .boolean => { h with truths := h.truths + 1 }
  | .text => { h with texts := h.texts + 1 }

/-- **The code of an expression adds one entry**, on the stack of its type, whatever the stacks hold
before it: `e.emit.Takes h (h.add τ)`. -/
theorem Expr.emit_takes {τ : Ty} (e : Expr τ) (h : Heights) : e.emit.Takes h (h.add τ) := by
  induction e generalizing h with
  | number x => exact .op rfl rfl rfl rfl
  | truth b => exact .op rfl rfl rfl rfl
  | text s => exact .text s fun _ => rfl
  | position => exact .op rfl rfl rfl rfl
  | point reference b =>
    exact .load (fun _ => rfl) (fun _ => rfl) (fun _ => rfl) (fun _ => rfl)
      (Index.point b).spec_complete
  | category b =>
    exact .load (fun _ => rfl) (fun _ => rfl) (fun _ => rfl) (fun _ => rfl)
      (Index.point b).spec_complete
  | negate a ih => exact (ih h).append (.op rfl rfl rfl rfl)
  | arith op a b iha ihb => exact ((iha h).append (ihb _)).append (.op rfl rfl rfl rfl)
  | compare op a b iha ihb => exact ((iha h).append (ihb _)).append (.op rfl rfl rfl rfl)
  | sameText equal a b iha ihb => exact ((iha h).append (ihb _)).append (.op rfl rfl rfl rfl)
  | both a b iha ihb => exact ((iha h).append (ihb _)).append (.op rfl rfl rfl rfl)
  | either a b iha ihb => exact ((iha h).append (ihb _)).append (.op rfl rfl rfl rfl)
  | complement a ih => exact (ih h).append (.op rfl rfl rfl rfl)
  | toBoolean a ih => exact (ih h).append (.op rfl rfl rfl rfl)
  | toNumber a ih => exact (ih h).append (.op rfl rfl rfl rfl)
  | fold f a => exact (Code.Takes.stretch a).append (.op rfl rfl rfl rfl)
  | pairFold f a b =>
    exact ((Code.Takes.stretch a).append (.stretch b)).append (.op rfl rfl rfl rfl)
  | choose condition yes no ihc ihy ihn => exact .choose (ihc h) (ihy h) (ihn h)

/-! ## (6) Programs -/

/-- The place an operation may jump to is one of its successors: `target ∈ op.successors pc`. -/
theorem Op.target_mem_successors {op : Op} {target : Nat} (h : op.target? = some target)
    (pc : Nat) : target ∈ op.successors pc := by
  cases op with
  | branch place | jump place =>
    obtain rfl := Option.some.inj h
    simp [successors]
  | _ => simp [target?] at h

namespace Labelled

variable {p : Program} {labels : List Heights}

/-- Every operation of a labelled program has a label: `∃ h, labels[pc]? = some h`. -/
theorem exists_label (hp : Labelled 0 p.ops labels) {pc : Nat} {op : Op}
    (hop : p.ops[pc]? = some op) : ∃ h, labels[pc]? = some h := by
  have hlt := (List.getElem?_eq_some_iff.1 hop).1
  have hlength := hp.length_eq
  exact ⟨labels[pc], List.getElem?_eq_getElem (by omega)⟩

/-- **Paths read the labels**: `labels[pc]? = some h`. -/
theorem of_path (hp : Labelled 0 p.ops labels) (hhead : labels.head? = some .zero) {pc : Nat}
    {h : Heights} (path : p.Path pc h) : labels[pc]? = some h := by
  induction path with
  | start => rw [← List.head?_eq_getElem?, hhead]
  | step _ hop heffect hnext ih =>
    obtain ⟨h', heffect', hlabels⟩ := hp.sound _ _ _ hop ih
    -- the label fixes what the effect is
    obtain rfl := Option.some.inj (heffect.symm.trans heffect')
    rw [Nat.zero_add] at hlabels
    exact (hlabels _ hnext).2

/-- The jumps of a labelled program go forward: `p.Forward`. -/
theorem forward (hp : Labelled 0 p.ops labels) : p.Forward := by
  intro pc op target hop htarget
  obtain ⟨h, hlabel⟩ := hp.exists_label hop
  obtain ⟨h', -, hlabels⟩ := hp.sound pc op h hop hlabel
  rw [Nat.zero_add] at hlabels
  obtain ⟨hlt, hnext⟩ := hlabels target (op.target_mem_successors htarget pc)
  have hbound := (List.getElem?_eq_some_iff.1 hnext).1
  have hlength := hp.length_eq
  exact ⟨hlt, by omega⟩

end Labelled

/-- **The program of an expression is checked**: `(Program.ofExpr source e).Checked`. -/
theorem Program.checked_ofExpr (source : String) (e : Expr .number) :
    (Program.ofExpr source e).Checked := by
  have htakes := e.emit_takes .zero
  obtain ⟨labels, hlabels, hhead, hlast⟩ := htakes.labels 0 .empty
  change Labelled 0 (Program.ofExpr source e).ops labels at hlabels
  have hwithin := htakes.within 0 .empty
  refine ⟨fun op hop => (hwithin op hop).index_lt, fun op hop => (hwithin op hop).text_lt,
    hlabels.forward, ?_, ?_, ?_, ?_⟩
  · -- operands: a label has an effect
    intro pc op h path hop
    obtain ⟨h', heffect, -⟩ := hlabels.sound pc op h hop (hlabels.of_path hhead path)
    rw [heffect]
    rfl
  · -- one height at each place, that of its label
    intro pc h h' path path'
    exact Option.some.inj
      ((hlabels.of_path hhead path).symm.trans (hlabels.of_path hhead path'))
  · -- the last label is that of one number
    intro h path
    have hend := hlabels.of_path hhead path
    rw [List.getLast?_eq_getElem?, hlabels.length_eq] at hlast
    exact Option.some.inj (hend.symm.trans hlast)
  · exact htakes.complete 0 .empty fun spec hspec => by simp [Tables.empty] at hspec

end PanelQuery.Formula
