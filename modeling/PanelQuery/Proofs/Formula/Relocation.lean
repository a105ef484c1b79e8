import PanelQuery.Formula.Compiler
import PanelQuery.Proofs.Formula.Heights

/-! # Code that is moved while it is emitted

Code that is placed `k` further on is the same code with all targets `k` further on, and its targets
lie behind its first place and no further than its end. So an insertion into a draft, which moves
the targets beyond a place, does with the code behind that place what its placement one further on
does, and leaves alone the code before it. This is what makes the one pass over a conditional, which
inserts a conversion and replaces the targets of its jumps, end with the code of the conditional.

* **`Op.moveBy`** — an operation with its target further on;
* **`Code.Relocatable`** — `code (start + k) t` is `code start t` with `Op.moveBy k`, and targets
  `t` of code between `start` and `stop` have `start < t ∧ t ≤ stop`;
* **`Expr.emit_relocatable`** — the code of an expression is;
* **`Draft.add`, `Draft.Settled`** — a draft with code at its end; all its targets lie in it;
* **`Draft.insert_eq_add`** — an insertion before a jump, as if it had been emitted there;
* **`Draft.patch_choose`** — the jumps of a conditional with their targets are those of
  `d.add (.choose test yes no)`. -/

namespace PanelQuery.Formula

/-! ## (1) Targets -/

/-- The operation with its target `k` further on. -/
def Op.moveBy (k : Nat) : Op → Op
  | .branch target => .branch (target + k)
  | .jump target => .jump (target + k)
  | o => o

/-- `o.moveBy k = o`: an operation without a target is the same anywhere. -/
theorem Op.moveBy_of_target? {o : Op} (k : Nat) (h : o.target? = none) : o.moveBy k = o := by
  cases o with
  | branch | jump => cases h
  | _ => rfl

/-- `Op.makeRoom place` leaves targets up to `place` alone. -/
theorem Op.makeRoom_of_le {place : Nat} {o : Op} (h : ∀ target, o.target? = some target →
    target ≤ place) : o.makeRoom place = o := by
  cases o with
  | branch target | jump target => simp [makeRoom, Nat.not_lt.2 (h target rfl)]
  | _ => rfl

/-- `Op.makeRoom place` moves targets beyond `place` by one. -/
theorem Op.makeRoom_of_lt {place : Nat} {o : Op} (h : ∀ target, o.target? = some target →
    place < target) : o.makeRoom place = o.moveBy 1 := by
  cases o with
  | branch target | jump target => simp [makeRoom, moveBy, h target rfl]
  | _ => rfl

/-! ## (2) Code -/

/-- **Code that can be moved**: its operations and tables are the same anywhere, up to targets, and
its targets lie behind its first place and no further than its end. -/
structure Code.Relocatable (code : Code) : Prop where
  /-- Code that stands `k` further on has its targets `k` further on. -/
  moves : ∀ start k t, code (start + k) t = ((code start t).1.map (Op.moveBy k), (code start t).2)
  /-- Targets stay with the code. -/
  bounded : ∀ start t, ∀ o ∈ (code start t).1, ∀ target, o.target? = some target →
    start < target ∧ target ≤ start + (code start t).1.length

/-- `(a ++ b) start t` is `a start t`, and then `b` behind it. -/
theorem Code.append_apply (a b : Code) (start : Nat) (t : Tables) : (a ++ b) start t =
    ((a start t).1 ++ (b (start + (a start t).1.length) (a start t).2).1,
      (b (start + (a start t).1.length) (a start t).2).2) := rfl

namespace Code.Relocatable

variable {a b : Code}

/-- A single operation that does not jump: `(Code.op o).Relocatable`. -/
theorem op {o : Op} (h : o.target? = none) : (Code.op o).Relocatable where
  moves _ k _ := by simp [Code.op, o.moveBy_of_target? k h]
  bounded _ _ o' ho' target htarget := by
    obtain rfl := List.mem_singleton.1 ho'
    simp [h] at htarget

/-- A load: `(Code.load spec o).Relocatable`. -/
theorem load {spec : IndexSpec} {o : Nat → Op} (h : ∀ slot, (o slot).target? = none) :
    (Code.load spec o).Relocatable where
  moves _ k t := by simp [Code.load, Op.moveBy_of_target? k (h _)]
  bounded _ _ o' ho' target htarget := by
    obtain rfl := List.mem_singleton.1 ho'
    simp [h] at htarget

/-- A text: `(Code.text s).Relocatable`. -/
theorem text (s : String) : (Code.text s).Relocatable where
  moves _ _ _ := rfl
  bounded _ _ o' ho' target htarget := by
    obtain rfl := List.mem_singleton.1 ho'
    cases htarget

/-- The load of a stretch: `(Code.stretch a).Relocatable`. -/
theorem stretch (a : Stretch) : (Code.stretch a).Relocatable := load fun _ => rfl

/-- Code after code: `(a ++ b).Relocatable`. -/
theorem append (ha : a.Relocatable) (hb : b.Relocatable) : (a ++ b).Relocatable where
  moves start k t := by
    simp only [Code.append_apply, ha.moves start k t, List.length_map,
      Nat.add_right_comm start k (a start t).1.length, hb.moves _ k, List.map_append]
  bounded start t o ho target htarget := by
    simp only [Code.append_apply, List.length_append] at ho ⊢
    rcases List.mem_append.1 ho with ho | ho
    · have := ha.bounded start t o ho target htarget
      omega
    · have := hb.bounded _ _ o ho target htarget
      omega

/-- A conditional: `(Code.choose test yes no).Relocatable`. -/
theorem choose {test yes no : Code} (htest : test.Relocatable) (hyes : yes.Relocatable)
    (hno : no.Relocatable) : (Code.choose test yes no).Relocatable where
  moves start k t := by
    simp only [Code.choose, htest.moves start k t, List.length_map]
    generalize test start t = c₁
    -- the first places of the branches move as the whole does
    rw [show start + k + c₁.1.length + 1 = start + c₁.1.length + 1 + k by omega]
    simp only [hyes.moves _ k, List.length_map]
    generalize yes (start + c₁.1.length + 1) c₁.2 = c₂
    rw [show start + c₁.1.length + 1 + k + c₂.1.length + 1 =
      start + c₁.1.length + 1 + c₂.1.length + 1 + k by omega]
    simp only [hno.moves _ k, List.length_map]
    generalize no (start + c₁.1.length + 1 + c₂.1.length + 1) c₂.2 = c₃
    simp only [List.map_append, List.map_cons, Op.moveBy]
    rw [Nat.add_right_comm _ k]
  bounded start t o ho target htarget := by
    simp only [Code.choose, List.append_assoc, List.cons_append, List.length_append,
      List.length_cons] at ho ⊢
    -- the jumps lead behind the branches, and those within a part stay there
    have htests := htest.bounded start t
    generalize test start t = c₁ at *
    have hfirst := hyes.bounded (start + c₁.1.length + 1) c₁.2
    generalize yes (start + c₁.1.length + 1) c₁.2 = c₂ at *
    have hsecond := hno.bounded (start + c₁.1.length + 1 + c₂.1.length + 1) c₂.2
    generalize no (start + c₁.1.length + 1 + c₂.1.length + 1) c₂.2 = c₃ at *
    rcases List.mem_append.1 ho with ho | ho
    · have := htests o ho target htarget
      omega
    rcases List.mem_cons.1 ho with rfl | ho
    · obtain rfl := Option.some.inj htarget
      omega
    rcases List.mem_append.1 ho with ho | ho
    · have := hfirst o ho target htarget
      omega
    rcases List.mem_cons.1 ho with rfl | ho
    · obtain rfl := Option.some.inj htarget
      omega
    · have := hsecond o ho target htarget
      omega

end Code.Relocatable

/-- **The code of an expression can be moved**: `e.emit.Relocatable`. -/
theorem Expr.emit_relocatable {τ : Ty} (e : Expr τ) : e.emit.Relocatable := by
  induction e with
  | number | truth | position => exact .op rfl
  | text s => exact .text s
  | point | category => exact .load fun _ => rfl
  | negate a ih | complement a ih | toBoolean a ih | toNumber a ih => exact ih.append (.op rfl)
  | arith op a b iha ihb | compare op a b iha ihb | sameText equal a b iha ihb
  | both a b iha ihb | either a b iha ihb => exact (iha.append ihb).append (.op rfl)
  | fold f a => exact (Code.Relocatable.stretch a).append (.op rfl)
  | pairFold f a b => exact ((Code.Relocatable.stretch a).append (.stretch b)).append (.op rfl)
  | choose condition yes no ihc ihy ihn => exact .choose ihc ihy ihn

/-! ## (3) Drafts -/

namespace Draft

/-- The draft with `code` at its end. -/
def add (d : Draft) (code : Code) : Draft :=
  ⟨d.ops ++ (code d.ops.length d.tables).1, (code d.ops.length d.tables).2⟩

/-- `d.add (a ++ b) = (d.add a).add b`: code after code. -/
@[simp] theorem add_append (d : Draft) (a b : Code) : d.add (a ++ b) = (d.add a).add b := by
  simp [add, Code.append_apply]

/-- `d.add (.op o) = d.emit o`: an operation. -/
@[simp] theorem add_op (d : Draft) (o : Op) : d.add (.op o) = d.emit o := rfl

/-- `(d.add a).emit o = d.add (a ++ .op o)`: an operation behind code. -/
theorem emit_add (d : Draft) (a : Code) (o : Op) : (d.add a).emit o = d.add (a ++ .op o) := by
  simp

/-- `(d.emit o).ops.length = d.ops.length + 1`: one more operation. -/
@[simp] theorem length_emit (d : Draft) (o : Op) : (d.emit o).ops.length = d.ops.length + 1 := by
  simp [emit]

/-- `d.add (.load spec o) = d.load spec o`: a load. -/
@[simp] theorem add_load (d : Draft) (spec : IndexSpec) (o : Nat → Op) :
    d.add (.load spec o) = d.load spec o := rfl

/-- `d.add (.text s) = d.text s`: a text. -/
@[simp] theorem add_text (d : Draft) (s : String) : d.add (.text s) = d.text s := rfl

/-- A draft all of whose targets lie in it. -/
def Settled (d : Draft) : Prop :=
  ∀ o ∈ d.ops, ∀ target, o.target? = some target → target ≤ d.ops.length

/-- A draft without operations is settled: `Draft.empty.Settled`. -/
theorem settled_empty : Draft.empty.Settled := fun o ho => by cases ho

/-- Code that can be moved is added to a settled draft: `(d.add code).Settled`. -/
theorem Settled.add {d : Draft} {code : Code} (h : d.Settled) (hcode : code.Relocatable) :
    (d.add code).Settled := by
  intro o ho target htarget
  simp only [Draft.add, List.mem_append, List.length_append] at ho ⊢
  rcases ho with ho | ho
  · have := h o ho target htarget
    omega
  · exact (hcode.bounded _ _ o ho target htarget).2

/-- An operation with the target `0`, or with none, is emitted to a settled draft. -/
theorem Settled.emit {d : Draft} {o : Op} (h : d.Settled)
    (ho : ∀ target, o.target? = some target → target = 0) : (d.emit o).Settled := by
  intro o' ho' target htarget
  simp only [Draft.emit, List.mem_append, List.mem_singleton, List.length_append] at ho' ⊢
  rcases ho' with ho' | rfl
  · have := h o' ho' target htarget
    omega
  · have := ho target htarget
    omega

/-- `(xs ++ o :: ys).set xs.length o'` is `xs ++ o' :: ys`, for the operations of a draft. -/
theorem patch_append (xs ys : List Op) (o o' : Op) (tables : Tables) {place : Nat}
    (h : place = xs.length) :
    (⟨xs ++ o :: ys, tables⟩ : Draft).patch place o' = ⟨xs ++ o' :: ys, tables⟩ := by
  simp [patch, h]

/-- `xs ++ ys` with `o` behind `xs`. -/
theorem insertIdx_length_append (xs ys : List Op) (o : Op) :
    (xs ++ ys).insertIdx xs.length o = xs ++ o :: ys := by
  induction xs with
  | nil => rfl
  | cons x xs ih => simp [ih]

/-- **An insertion before the jump behind the first branch**, when the second branch `no` has been
emitted: the draft is the one in which `o` was emitted before the jump. -/
theorem insert_eq_add {d : Draft} {no : Code} {o : Op} (h : d.Settled) (hno : no.Relocatable)
    (ho : o.target? = none) : ((d.emit (.jump 0)).add no).insert d.ops.length o =
      ((d.emit o).emit (.jump 0)).add no := by
  -- targets in the first branch or before it lead no further than the jump
  have hbefore : d.ops.map (Op.makeRoom d.ops.length) = d.ops :=
    (List.map_congr_left fun o' ho' => Op.makeRoom_of_le (h o' ho')).trans (List.map_id' _)
  have hinserted : o.makeRoom d.ops.length = o := Op.makeRoom_of_le fun target htarget => by
    simp [ho] at htarget
  -- the targets of the second branch lie behind its first place
  have hbehind : (no (d.ops.length + 1) d.tables).1.map (Op.makeRoom d.ops.length) =
      (no (d.ops.length + 1) d.tables).1.map (Op.moveBy 1) :=
    List.map_congr_left fun o' ho' => Op.makeRoom_of_lt fun target htarget => by
      have := hno.bounded _ _ o' ho' target htarget
      omega
  have hmoved : no (d.ops.length + 2) d.tables =
      ((no (d.ops.length + 1) d.tables).1.map (Op.moveBy 1), (no (d.ops.length + 1) d.tables).2) :=
    hno.moves (d.ops.length + 1) 1 d.tables
  simp only [insert, add, emit, List.length_append, List.length_singleton, List.append_assoc,
    List.singleton_append, insertIdx_length_append, List.map_append, List.map_cons, hbefore,
    hinserted, hbehind]
  simp [Op.makeRoom, hmoved]

/-- **The end of a conditional**: after its test, its branches and the jumps between them, the jumps
get their targets, and the draft is the one with the code of the conditional at its end. `(d₃.patch
d₁.ops.length (.branch (d₂.ops.length + 1))).patch d₂.ops.length (.jump d₃.ops.length) = d.add
(.choose test yes no)`. -/
theorem patch_choose {d d₁ d₂ d₃ : Draft} {test yes no : Code} (h₁ : d.add test = d₁)
    (h₂ : (d₁.emit (.branch 0)).add yes = d₂) (h₃ : (d₂.emit (.jump 0)).add no = d₃) :
    (d₃.patch d₁.ops.length (.branch (d₂.ops.length + 1))).patch d₂.ops.length
      (.jump d₃.ops.length) = d.add (.choose test yes no) := by
  subst h₁ h₂ h₃
  simp only [add, emit, Code.choose, List.length_append, List.length_singleton]
  generalize test d.ops.length d.tables = c₁
  generalize yes (d.ops.length + c₁.1.length + 1) c₁.2 = c₂
  generalize no (d.ops.length + c₁.1.length + 1 + c₂.1.length + 1) c₂.2 = c₃
  -- both jumps stand behind lists of known length
  have hfirst := patch_append (d.ops ++ c₁.1) (c₂.1 ++ .jump 0 :: c₃.1) (.branch 0)
  have hsecond := fun target => patch_append (d.ops ++ c₁.1 ++ .branch target :: c₂.1) c₃.1
    (.jump 0)
  simp only [List.append_assoc, List.cons_append, List.nil_append] at hfirst hsecond ⊢
  rw [hfirst _ _ (by simp), hsecond _ _ _ (by simp; omega)]

end Draft

end PanelQuery.Formula
