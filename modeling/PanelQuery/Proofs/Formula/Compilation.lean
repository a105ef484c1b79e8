import Mathlib
import PanelQuery.Proofs.Formula.Completeness
import PanelQuery.Proofs.Formula.OnePass
import PanelQuery.Proofs.Formula.Simulation

/-! # Compiled formulas

What holds of every program that is compiled from a text, and of every evaluation of it. `compile`
emits code while it reads, and puts jumps and conversions into code that it has emitted before;
`compile_eq` says that it makes the program of the tree, `(parse source).map (Program.ofExpr source)`.

* **`compile_eq_ok_iff`** — programs are those of the trees of formulas;
* **`compile_correct`** — a program yields what the tree of its formula means;
* **`compile_safe`** — a program is checked, so that it ends in time and asks for nothing that is
  not there. -/

namespace PanelQuery.Formula

/-- The programs of a text are the programs of its trees, of which there is one at most:
`compile source = .ok p` just when
`∃ ts e, tokenize source = .ok ts ∧ IsFormula ts e ∧ p = Program.ofExpr source e`. -/
theorem compile_eq_ok_iff {source : String} {p : Program} :
    compile source = .ok p ↔
      ∃ ts e, tokenize source = .ok ts ∧ IsFormula ts e ∧ p = Program.ofExpr source e := by
  constructor
  · intro h
    cases hparse : parse source with
    | error err => rw [compile_eq, hparse] at h; cases h
    | ok e =>
      rw [compile_eq, hparse] at h
      obtain ⟨ts, htokens, he⟩ := parse_eq_ok_iff.1 hparse
      exact ⟨ts, e, htokens, he, (Except.ok.inj h).symm⟩
  · rintro ⟨ts, e, htokens, he, rfl⟩
    rw [compile_eq, parse_eq_ok_iff.2 ⟨ts, htokens, he⟩]
    rfl

/-- A formula with a conditional whose first branch is a truth value beside a number. -/
theorem compile_conditional : compile "if t then t > t else t" =
    .ok (Program.ofExpr "if t then t > t else t"
      (.choose (.toBoolean .position) (.toNumber (.compare .greater .position .position))
        .position)) := by
  have hword : (Token.word "t").isKeyword "t" = true := by decide
  -- the position as a sum, and as a formula
  have hsum : ∀ start stop, Derives false (.chain .sum) .closed [⟨.word "t", start, stop⟩]
      (.value .number .position) :=
    fun _ _ => .operand (.operand (.unsigned (.base (.position hword))))
  have hformula : ∀ start stop, Derives false (.chain .disjunction) ⟨false, true⟩
      [⟨.word "t", start, stop⟩] (.value .number .position) :=
    fun start stop => .operand (.operand (.affirmed (.alone (hsum start stop))))
  refine compile_eq_ok_iff.2 ⟨[⟨.word "if", 0, 2⟩, ⟨.word "t", 3, 4⟩, ⟨.word "then", 5, 9⟩,
    ⟨.word "t", 10, 11⟩, ⟨.greater, 12, 13⟩, ⟨.word "t", 14, 15⟩, ⟨.word "else", 16, 20⟩,
    ⟨.word "t", 21, 22⟩], _, by cbv, ?_, rfl⟩
  have hcompared : Derives false (.chain .disjunction) .closed
      [⟨.word "t", 10, 11⟩, ⟨.greater, 12, 13⟩, ⟨.word "t", 14, 15⟩]
      (.value .boolean (.compare .greater .position .position)) :=
    .operand (.operand (.affirmed (.compare (hsum 10 11) rfl rfl (hsum 14 15) (.same _) (.same _))))
  have hif : (⟨.word "if", 0, 2⟩ : Lexeme).token.isKeyword "if" = true := by decide
  have hthen : (⟨.word "then", 5, 9⟩ : Lexeme).token.isKeyword "then" = true := by decide
  have helse : (⟨.word "else", 16, 20⟩ : Lexeme).token.isKeyword "else" = true := by decide
  have hconditional := Derives.conditional hif (hformula 3 4) (.toBoolean _) hthen hcompared helse
    (hformula 21 22) (.first _ _)
  exact ⟨_, _, .operand (.operand (.affirmed (.alone (.operand (.operand (.unsigned
    (.base hconditional))))))), .same _⟩

/-- **A compiled formula means its tree**: there are `ts` and `e` with `tokenize source = .ok ts`,
`IsFormula ts e`, `(∀ e', IsFormula ts e' → e' = e)` and for all `ctx`,
`p.evaluate ctx = e.eval ctx` or
`p.evaluate ctx = .error .stackOverflow ∧ ∃ pc h, p.Path pc h ∧ h.Full`. The text has just one tree
by the grammar, and whatever the program reads, it yields the value of the tree or its error. Only a
stack may overflow before, and then there is a path through the program on which a stack gets
full. -/
theorem compile_correct {source : String} {p : Program} (h : compile source = .ok p) :
    ∃ ts e, tokenize source = .ok ts ∧ IsFormula ts e ∧ (∀ e', IsFormula ts e' → e' = e) ∧
      ∀ ctx, p.evaluate ctx = e.eval ctx ∨
        p.evaluate ctx = .error .stackOverflow ∧ ∃ pc h, p.Path pc h ∧ h.Full := by
  obtain ⟨ts, e, htokens, he, rfl⟩ := compile_eq_ok_iff.1 h
  refine ⟨ts, e, htokens, he, fun e' he' => he'.unique he, fun ctx => ?_⟩
  refine (Program.evaluate_ofExpr source e ctx).imp_right fun hoverflow => ⟨hoverflow, ?_⟩
  have hfault := ((Program.checked_ofExpr source e).evaluate_meets ctx).of_error hoverflow
  exact (hfault rfl).2

/-- A conditional with branches of different types. -/
theorem compile_correct_conditional : ∃ p, compile "if t then t > t else t" = .ok p ∧
    ∃ ts e, tokenize "if t then t > t else t" = .ok ts ∧ IsFormula ts e ∧
      (∀ e', IsFormula ts e' → e' = e) ∧
      ∀ ctx, p.evaluate ctx = e.eval ctx ∨
        p.evaluate ctx = .error .stackOverflow ∧ ∃ pc h, p.Path pc h ∧ h.Full :=
  ⟨_, compile_conditional, compile_correct compile_conditional⟩

/-- **A compiled formula is safe**: `p.Checked` and for all `ctx`,
`p.run ctx p.ops.length 0 {} = p.evaluate ctx`, `p.evaluate ctx ≠ .error .unfinished`,
`p.evaluate ctx ≠ .error .stackUnderflow` and
`∀ slot, p.evaluate ctx ≠ .error (.missingIndex slot)`. All of its operations and all paths through
it are as they should be, and so every evaluation ends within as many steps as there are operations,
without asking for an operand or an index that is not there. -/
theorem compile_safe {source : String} {p : Program} (h : compile source = .ok p) :
    p.Checked ∧ ∀ ctx, p.run ctx p.ops.length 0 {} = p.evaluate ctx ∧
      p.evaluate ctx ≠ .error .unfinished ∧ p.evaluate ctx ≠ .error .stackUnderflow ∧
      ∀ slot, p.evaluate ctx ≠ .error (.missingIndex slot) := by
  obtain ⟨ts, e, -, -, rfl⟩ := compile_eq_ok_iff.1 h
  have hchecked := Program.checked_ofExpr source e
  refine ⟨hchecked, fun ctx => ⟨?_, ?_, ?_, ?_⟩⟩
  · exact hchecked.forward.run_eq_run (by omega) (by rw [Program.budget]; omega)
  · intro herror
    cases ((hchecked.evaluate_meets ctx).of_error herror rfl).1
  · intro herror
    cases ((hchecked.evaluate_meets ctx).of_error herror rfl).1
  · intro slot herror
    cases ((hchecked.evaluate_meets ctx).of_error herror rfl).1

/-- A conditional with branches of different types. -/
theorem compile_safe_conditional : ∃ p, compile "if t then t > t else t" = .ok p ∧ p.Checked ∧
    ∀ ctx, p.run ctx p.ops.length 0 {} = p.evaluate ctx ∧
      p.evaluate ctx ≠ .error .unfinished ∧ p.evaluate ctx ≠ .error .stackUnderflow ∧
      ∀ slot, p.evaluate ctx ≠ .error (.missingIndex slot) :=
  ⟨_, compile_conditional, compile_safe compile_conditional⟩

end PanelQuery.Formula
