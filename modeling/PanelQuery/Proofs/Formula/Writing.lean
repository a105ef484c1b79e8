import PanelQuery.Proofs.Formula.Acceptance

/-! # Formulas in text

A formula is written as a text: its tokens in their usual spelling, with a blank after each. The
text is accepted, and so is every other that has the same tokens.

* **`Token.IsUsual`, `Tree.isUsual_tokens`** — the tokens of formulas are spelled as usual;
* **`Tree.source`** — a formula as a text;
* **`Tree.compile_written`** — its program. -/

namespace PanelQuery.Formula

/-! ## (1) Usual tokens -/

/-- Words in their usual spelling, and all other tokens. -/
def Token.IsUsual : Token → Prop
  | .word w => IsName w
  | _ => True

/-- `t.canonical = t`: a usual token is spelled as usual. -/
theorem Token.IsUsual.canonical_eq {t : Token} (h : t.IsUsual) : t.canonical = t := by
  cases t with
  | word w => exact canonical_word h
  | _ => rfl

/-- `c.toLower = c`: digits have no case. -/
theorem toLower_of_isDigit {c : Char} (h : c.isDigit = true) : c.toLower = c := by
  have hupper : ¬(c.val ≥ 'A'.val ∧ c.val ≤ 'Z'.val) := by
    rw [Char.isDigit, Bool.and_eq_true, decide_eq_true_eq, decide_eq_true_eq] at h
    rintro ⟨hle, -⟩
    exact absurd (UInt32.le_trans hle h.2) (by decide)
  exact dif_neg hupper

/-- The name of a series is a name: `IsName r.name`. -/
theorem Reference.isName_name (r : Reference) : IsName r.name := by
  cases r with
  | broadcast => decide
  | output => decide
  | field n =>
    have hdigit : ∀ c ∈ Nat.toDigits 10 (n + 1), c.isDigit = true := fun c hc =>
      Nat.isDigit_of_mem_toDigits (by decide) (by decide) hc
    -- all characters are small letters and digits
    have hchars : ∀ c ∈ (field n).name.toList, c.toLower = c ∧ Token.continuesWord c = true := by
      rw [toList_name]
      refine List.forall_mem_cons.2 ⟨by decide, List.forall_mem_cons.2 ⟨by decide,
        List.forall_mem_cons.2 ⟨by decide, fun c hc => ⟨toLower_of_isDigit (hdigit c hc), ?_⟩⟩⟩⟩
      rw [Token.continuesWord, Char.isAlphanum, hdigit c hc, Bool.or_true, Bool.true_or]
    refine ⟨?_, ?_, ?_⟩
    · rw [Text.asciiLower, List.map_congr_left fun c hc => (hchars c hc).1, List.map_id',
        String.ofList_toList]
    · have hhead : ∀ w ∈ ["or", "and", "not", "mean"], w.toList.head? ≠ some 'v' := by decide
      exact fun hmem => hhead _ hmem (by rw [toList_name]; rfl)
    · rw [toList_name] at hchars ⊢
      rw [isWordText, List.all_eq_true.2 fun c hc => (hchars c (List.mem_cons_of_mem _ hc)).2]
      rfl

section Usual

variable {t : Token} {ts ts' : List Token}

/-- A term of a position is written in usual tokens: `∀ t ∈ s.tokens, t.IsUsual`. -/
theorem IndexTerm.isUsual_tokens (s : IndexTerm) : ∀ t ∈ s.tokens, t.IsUsual := by
  have hname : ∀ {w : String}, IsName w → ∀ t ∈ [Token.word w], t.IsUsual :=
    fun h => List.forall_mem_singleton.2 h
  cases s with
  | first => exact hname (by decide)
  | last => exact hname (by decide)
  | current => exact hname (by decide)
  | whole negative x =>
    cases negative with
    | false => exact List.forall_mem_singleton.2 trivial
    | true => exact List.forall_mem_cons.2 ⟨trivial, List.forall_mem_singleton.2 trivial⟩

/-- So is a position: `∀ t ∈ s.tokens, t.IsUsual`. -/
theorem IndexSum.isUsual_tokens (s : IndexSum) : ∀ t ∈ s.tokens, t.IsUsual := by
  refine List.forall_mem_append.2 ⟨s.head.isUsual_tokens, List.forall_mem_flatMap.2 ?_⟩
  rintro ⟨negative, u⟩ -
  exact List.forall_mem_cons.2 ⟨by cases negative <;> trivial, u.isUsual_tokens⟩

/-- Usual tokens between two others: `∀ u ∈ t :: (ts ++ [t']), u.IsUsual`. -/
theorem isUsual_between {t' : Token} (ht : t.IsUsual) (hts : ∀ t ∈ ts, t.IsUsual)
    (ht' : t'.IsUsual) : ∀ u ∈ t :: (ts ++ [t']), u.IsUsual :=
  List.forall_mem_cons.2 ⟨ht, List.forall_mem_append.2 ⟨hts, List.forall_mem_singleton.2 ht'⟩⟩

/-- So is an index: `∀ t ∈ i.tokens, t.IsUsual`. -/
theorem Pick.isUsual_tokens (i : Pick) : ∀ t ∈ i.tokens, t.IsUsual := by
  cases i with
  | point s => exact isUsual_between trivial s.isUsual_tokens trivial
  | range low high =>
    exact List.forall_mem_cons.2 ⟨trivial, List.forall_mem_append.2 ⟨low.isUsual_tokens,
      isUsual_between trivial high.isUsual_tokens trivial⟩⟩

/-- So is a name with an index after it: `∀ t ∈ .word w :: index.elim [] Pick.tokens, t.IsUsual`. -/
theorem isUsual_indexed {w : String} (hw : IsName w) (index : Option Pick) :
    ∀ t ∈ .word w :: index.elim [] Pick.tokens, t.IsUsual := by
  refine List.forall_mem_cons.2 ⟨hw, ?_⟩
  cases index with
  | none => exact List.forall_mem_nil _
  | some i => exact i.isUsual_tokens

/-- So is a series: `∀ t ∈ r.tokens, t.IsUsual`. -/
theorem Reading.isUsual_tokens (r : Reading) : ∀ t ∈ r.tokens, t.IsUsual :=
  isUsual_indexed r.reference.isName_name r.index

namespace Tree

/-- So is an operand: `∀ t ∈ enclosed wanted level? ts, t.IsUsual`. -/
theorem isUsual_enclosed {wanted : Level} {level? : Option Level} (hts : ∀ t ∈ ts, t.IsUsual) :
    ∀ t ∈ enclosed wanted level? ts, t.IsUsual := by
  unfold enclosed
  split
  · exact hts
  · exact isUsual_between trivial hts trivial

/-- **Formulas are written in usual tokens**: `∀ u ∈ t.tokens, u.IsUsual`. -/
theorem isUsual_tokens (t : Tree) : ∀ u ∈ t.tokens, u.IsUsual := by
  induction t with
  | number | text => exact List.forall_mem_singleton.2 trivial
  | truth b =>
    have hname : IsName (if b then "true" else "false") := by cases b <;> decide
    exact List.forall_mem_singleton.2 hname
  | position =>
    have hname : IsName "t" := by decide
    exact List.forall_mem_singleton.2 hname
  | series r => exact r.isUsual_tokens
  | category index => exact isUsual_indexed (by decide) index
  | unary op a ih =>
    exact List.forall_mem_cons.2 ⟨by cases op <;> trivial, isUsual_enclosed ih⟩
  | binary op a b iha ihb =>
    have htoken : op.token.IsUsual := by
      cases op with
      | either | both => trivial
      | compare op | arith op => cases op <;> trivial
    exact List.forall_mem_append.2 ⟨isUsual_enclosed iha,
      List.forall_mem_cons.2 ⟨htoken, isUsual_enclosed ihb⟩⟩
  | fold f r =>
    have hname : IsName f.name := by cases f <;> decide
    exact List.forall_mem_cons.2 ⟨hname, isUsual_between trivial r.isUsual_tokens trivial⟩
  | pairFold f r s =>
    have hname : IsName f.name := by cases f <;> decide
    exact List.forall_mem_cons.2 ⟨hname, List.forall_mem_cons.2 ⟨trivial,
      List.forall_mem_append.2 ⟨r.isUsual_tokens,
        isUsual_between trivial s.isUsual_tokens trivial⟩⟩⟩
  | choose condition yes no ihc ihy ihn =>
    have hif : IsName "if" := by decide
    have hthen : IsName "then" := by decide
    have helse : IsName "else" := by decide
    exact List.forall_mem_cons.2 ⟨hif, List.forall_mem_append.2 ⟨ihc, List.forall_mem_cons.2
      ⟨hthen, List.forall_mem_append.2 ⟨ihy, List.forall_mem_cons.2 ⟨helse, ihn⟩⟩⟩⟩⟩

/-- A formula has a token: `t.tokens ≠ []`. -/
theorem tokens_ne_nil (t : Tree) : t.tokens ≠ [] := by
  cases t with
  | binary op a b => exact List.append_ne_nil_of_right_ne_nil _ (List.cons_ne_nil _ _)
  | _ => exact List.cons_ne_nil _ _

/-- **The text of a formula**, with a blank after each token, where `numeral` writes numbers. -/
def source (numeral : Float → List Char) (t : Tree) : String :=
  String.ofList (spelled (Token.spelling numeral) t.tokens)

end Tree

end Usual

/-! ## (2) The program of a written formula -/

namespace Tree

/-- **Every formula that makes sense is accepted** as it is written, with parentheses only where
precedence and associativity require them, and compiled to its program. This holds of each text with
the tokens of the formula, in any spelling, and such a text there is: the tokens with blanks after
them, as long as numerals write its numbers, and no text in it has both kinds of quotes. -/
theorem compile_written (t : Tree) (h : t.WellTyped) (hty : t.ty.ReadsAs .number) :
    (∀ source us, tokenize source = .ok us → us.map (fun u => u.token.canonical) = t.tokens →
      compile source = .ok (t.program source)) ∧
    ∀ numeral : Float → List Char,
      (∀ x, .number x ∈ t.tokens → Token.IsText (numeral x) (.number x)) →
      (∀ s, .text s ∈ t.tokens → '"' ∉ s.toList ∨ '\'' ∉ s.toList) →
      compile (t.source numeral) = .ok (t.program (t.source numeral)) := by
  refine ⟨fun source us htokens hs => compile_of_spells h hty htokens hs,
    fun numeral hnumbers htexts => ?_⟩
  have hcan : ∀ token ∈ t.tokens, token.CanSpell numeral := by
    intro token htoken
    have husual := t.isUsual_tokens token htoken
    cases token with
    | number x => exact hnumbers x htoken
    | text s => exact htexts s htoken
    | word w => exact husual
    | _ => trivial
  obtain ⟨us, hus, hmap⟩ := tokenize_spelled (fun token htoken =>
    Token.isText_spelling (hcan token htoken)) t.tokens_ne_nil
  refine compile_of_spells h hty hus ?_
  -- the tokens are spelled as usual
  calc us.map (fun u => u.token.canonical)
      = t.tokens.map Token.canonical := by rw [← hmap, List.map_map]; rfl
    _ = t.tokens.map id :=
        List.map_congr_left fun token htoken => (t.isUsual_tokens token htoken).canonical_eq
    _ = t.tokens := List.map_id _

/-- A formula with operands that need parentheses, and with a conditional whose branches have
different types. -/
def steepness : Tree :=
  .binary (.arith .sub) (.number 1.0) (.binary (.arith .sub) (.series ⟨.broadcast, none⟩)
    (.binary (.arith .mul) (.choose (.binary (.compare .greater) (.position) (.number 1.0))
      (.truth true) (.fold .sum ⟨.field 1, some (.range ⟨.current, [(true, .whole false 1.0)]⟩
        ⟨.last, []⟩)⟩)) (.unary .negate .position)))

/-- It is accepted as it is written. -/
theorem compile_written_steepness :
    compile "1 - ( val - ( if t > 1 then true else sum ( val2 [ t - 1 : end ] ) ) * - t ) " =
      .ok {
        source :=
          "1 - ( val - ( if t > 1 then true else sum ( val2 [ t - 1 : end ] ) ) * - t ) "
        ops := [.pushNumber 1.0, .load .broadcast 0, .loadPosition, .pushNumber 1.0,
          .compare .greater, .branch 9, .pushTruth true, .toNumber, .jump 11,
          .loadStretch (.field 1) 1, .fold .sum, .loadPosition, .negate, .arith .mul, .arith .sub,
          .arith .sub]
        indices := [.point [.current], .range [.current, .constant 1, .sub] [.last]]
        texts := [] } := by
  have hwhole : wholeCount? 1.0 = some 1 := by decide +kernel
  have hnamed : 1 + 1 < twoPow 64 := by decide +kernel
  have htyped : steepness.WellTyped := by
    simp [steepness, WellTyped, ty, Ty.ReadsAs, Ty.join, BinaryOp.operands, BinaryOp.ty,
      BinaryOp.Allows, UnaryOp.ty, Reading.IsWhole, Reference.IsNamed, Pick.IsWhole,
      IndexSum.IsWhole, IndexTerm.IsWhole, hwhole, hnamed]
  have htokens : steepness.tokens = [.number 1.0, .minus, .openParen, .word "val", .minus,
      .openParen, .word "if", .word "t", .greater, .number 1.0, .word "then", .word "true",
      .word "else", .word "sum", .openParen, .word "val2", .openBracket, .word "t", .minus,
      .number 1.0, .colon, .word "end", .closeBracket, .closeParen, .closeParen, .star, .minus,
      .word "t", .closeParen] := rfl
  have hsource : steepness.source (fun _ => ['1']) =
      "1 - ( val - ( if t > 1 then true else sum ( val2 [ t - 1 : end ] ) ) * - t ) " := by
    rw [source, htokens]
    rfl
  have hop : (IndexTerm.whole false 1.0).op = .constant 1 := by
    rw [IndexTerm.op, hwhole]
    decide +kernel
  have hspecs : steepness.specs =
      [.point [.current], .range [.current, .constant 1, .sub] [.last]] := by
    rw [← hop]
    rfl
  obtain ⟨-, hwritten⟩ := compile_written steepness htyped (by decide)
  have hprogram := hwritten (fun _ => ['1']) (fun x hx => ?_) (fun s hs => ?_)
  · rw [hsource] at hprogram
    rw [hprogram, program, hspecs]
    rfl
  · rw [htokens] at hx
    obtain rfl : x = 1.0 := by simpa using hx
    exact ⟨'1', [], rfl, rfl, rfl⟩
  · rw [htokens] at hs
    simp at hs

end Tree

end PanelQuery.Formula
