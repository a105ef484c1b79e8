import Mathlib.Data.String.Basic
import PanelQuery.Formula.Lexeme
import PanelQuery.Proofs.Formula.Scanning
import PanelQuery.Proofs.Meets

/-! # Blanks between tokens

A text is read as the longest token at each place, with blanks between the tokens. Which blanks
these are makes no difference, and what cannot be read begins no token.

* **`Lexes`** — how a text is read as lexemes, before more text;
* **`lexemes_meets`, `Lexes.lexemes_eq`** — the lexemes of a text are those that it is read as;
* **`Lexes.within`, `Lexes.apart`, `Lexes.isBlank_of_outside`** — the bytes of lexemes and what is
  beside them;
* **`Lexes.place`** — each lexeme is the longest token at its place;
* **`lexes_spaced`** — tokens with any blanks between them;
* **`tokenize_blanks`** — all this for a whole text. -/

namespace PanelQuery.Formula

/-! ## (1) Bytes of characters -/

section Bytes

variable (cs ds : List Char)

/-- `byteLength cs = String.utf8Len cs`: the bytes of characters, as the library counts them. -/
theorem byteLength_eq : byteLength cs = String.utf8Len cs := by
  have hfold : ∀ n, cs.foldl (fun n c => n + c.utf8Size) n = n + String.utf8Len cs := by
    induction cs with
    | nil => exact fun n => rfl
    | cons c cs ih =>
      intro n
      rw [List.foldl_cons, ih, String.utf8Len_cons, Nat.add_assoc, Nat.add_comm c.utf8Size]
  rw [byteLength, hfold, Nat.zero_add]

@[simp] theorem byteLength_nil : byteLength [] = 0 := rfl

@[simp] theorem byteLength_cons (c : Char) : byteLength (c :: cs) = c.utf8Size + byteLength cs := by
  rw [byteLength_eq, byteLength_eq, String.utf8Len_cons, Nat.add_comm]

@[simp] theorem byteLength_append : byteLength (cs ++ ds) = byteLength cs + byteLength ds := by
  rw [byteLength_eq, byteLength_eq, byteLength_eq, String.utf8Len_append]

/-- `byteLength s.toList = s.utf8ByteSize`: the bytes of a text are those of its characters. -/
theorem byteLength_toList (s : String) : byteLength s.toList = s.utf8ByteSize := by
  rw [byteLength_eq, String.utf8Len_toList]

end Bytes

/-! ## (2) Reading a text -/

/-- **A text is read as lexemes**, with `rest` behind it: blanks are skipped, and where there is
none the longest token is taken. -/
inductive Lexes (rest : List Char) : Nat → List Char → List Lexeme → Prop where
  /-- Nothing is left. -/
  | done (position : Nat) : Lexes rest position [] []
  /-- A blank is skipped. -/
  | blank {position : Nat} {c : Char} {cs : List Char} {ls : List Lexeme}
      (hc : Token.isBlank c = true) (h : Lexes rest (position + c.utf8Size) cs ls) :
      Lexes rest position (c :: cs) ls
  /-- A token is taken. -/
  | token {position : Nat} {us cs : List Char} {t : Token} {ls : List Lexeme}
      (hus : IsLongest (us ++ (cs ++ rest)) us t)
      (h : Lexes rest (position + byteLength us) cs ls) :
      Lexes rest position (us ++ cs) (⟨t, position, position + byteLength us⟩ :: ls)

/-- **Where a text cannot be read**: before a character that is no blank and begins no token, what
stands before it being read. -/
def Stuck (position : Nat) (cs : List Char) (e : CompileError) : Prop :=
  ∃ before c rest ls, cs = before ++ c :: rest ∧ Lexes (c :: rest) position before ls ∧
    Token.isBlank c = false ∧ (∀ us, us <+: c :: rest → ¬ Matched us) ∧
    e = .unexpectedInput (position + byteLength before) (String.ofList (unreadable c rest))

variable {position : Nat} {us cs rest : List Char} {ls : List Lexeme} {t : Token} {e : CompileError}

/-- A blank in front makes no difference to where a text cannot be read:
`Stuck position (c :: cs) e`. -/
theorem Stuck.blank {c : Char} (hc : Token.isBlank c = true)
    (h : Stuck (position + c.utf8Size) cs e) : Stuck position (c :: cs) e := by
  obtain ⟨before, d, more, ls, rfl, hlexes, hd, hnone, rfl⟩ := h
  refine ⟨c :: before, d, more, ls, rfl, .blank hc hlexes, hd, hnone, ?_⟩
  rw [byteLength_cons, Nat.add_assoc]

/-- Nor does a token in front: `Stuck position (us ++ cs) e`. -/
theorem Stuck.token (hus : IsLongest (us ++ cs) us t) (h : Stuck (position + byteLength us) cs e) :
    Stuck position (us ++ cs) e := by
  obtain ⟨before, d, more, ls, rfl, hlexes, hd, hnone, rfl⟩ := h
  refine ⟨us ++ before, d, more, _, ?_, .token hus hlexes, hd, hnone, ?_⟩
  · rw [List.append_assoc]
  · rw [byteLength_append, Nat.add_assoc]

/-- **The lexemes of a text** are those that it is read as; where there are none the text cannot be
read. `Meets (lexemes position cs) (Lexes [] position cs) (Stuck position cs)`. -/
theorem lexemes_meets (position : Nat) (cs : List Char) :
    Meets (lexemes position cs) (Lexes [] position cs) (Stuck position cs) := by
  fun_induction lexemes position cs with
  | case1 position => exact .done position
  | case2 position c rest hblank ih =>
    exact ih.mono (fun ls hls => .blank hblank hls) fun e he => .blank hblank he
  | case3 position c rest hblank hscan =>
    exact ⟨[], c, rest, [], rfl, .done position, Bool.eq_false_iff.2 hblank,
      fun us hus => not_matched_of_scan hscan hus, rfl⟩
  | case4 position c rest hblank t n hscan stop =>
    rename_i ih
    have hsplit : c :: rest = (c :: rest.take n) ++ rest.drop n := by
      rw [List.cons_append, List.take_append_drop]
    have hlongest := (isLongest_of_scan hscan).2
    rw [hsplit] at hlongest ⊢
    exact (ih.mono (fun ls hls => hls) fun e he => .token hlongest he).map fun ls hls =>
      .token (by rwa [List.append_nil]) hls

/-- What is read before more text is read alone: `Lexes [] position cs ls`. -/
theorem Lexes.alone (h : Lexes rest position cs ls) : Lexes [] position cs ls := by
  induction h with
  | done position => exact .done position
  | blank hc _ ih => exact .blank hc ih
  | token hus _ ih =>
    refine .token (hus.of_begins ?_ (List.prefix_append _ _)) ih
    rw [List.append_nil, ← List.append_assoc]
    exact List.prefix_append _ _

/-- **What a text is read as** are its lexemes: `lexemes position cs = .ok ls`. -/
theorem Lexes.lexemes_eq (h : Lexes [] position cs ls) : lexemes position cs = .ok ls := by
  induction h with
  | done position => rw [lexemes]
  | blank hc _ ih => rw [lexemes, if_pos hc, ih]
  | token hus _ ih =>
    obtain ⟨c, vs, rfl, hblank, hscan⟩ := hus.scan
    rw [List.append_nil] at hscan
    rw [List.cons_append, lexemes, if_neg (by rw [hblank]; decide), hscan]
    dsimp only
    rw [List.take_left, List.drop_left, ih]
    rfl

/-! ## (3) Places of lexemes -/

/-- **Lexemes take some bytes** of the text:
`∀ l ∈ ls, position ≤ l.start ∧ l.start < l.stop ∧ l.stop ≤ position + byteLength cs`. -/
theorem Lexes.within (h : Lexes rest position cs ls) : ∀ l ∈ ls,
    position ≤ l.start ∧ l.start < l.stop ∧ l.stop ≤ position + byteLength cs := by
  induction h with
  | done => nofun
  | blank hc _ ih =>
    intro l hl
    have hbounds := ih l hl
    rw [byteLength_cons]
    omega
  | token hus _ ih =>
    obtain ⟨c, vs, rfl⟩ := hus.written.matched.exists_cons
    have hsize := c.utf8Size_pos
    rw [List.forall_mem_cons]
    refine ⟨?_, fun l hl => ?_⟩
    · simp only [byteLength_append, byteLength_cons]
      omega
    · have hbounds := ih l hl
      simp only [byteLength_append, byteLength_cons] at hbounds ⊢
      omega

/-- **Lexemes follow each other**: `ls.Pairwise fun l m => l.stop ≤ m.start`. -/
theorem Lexes.apart (h : Lexes rest position cs ls) :
    ls.Pairwise fun l m => l.stop ≤ m.start := by
  induction h with
  | done => exact .nil
  | blank _ _ ih => exact ih
  | token _ h ih => exact .cons (fun l hl => (h.within l hl).1) ih

/-- **Each lexeme is the longest token** at its place: there are `before`, `us` and `after` with
`cs = before ++ (us ++ after)`, `l.start = position + byteLength before`,
`l.stop = l.start + byteLength us` and `IsLongest (us ++ (after ++ rest)) us l.token`. -/
theorem Lexes.place (h : Lexes rest position cs ls) {l : Lexeme} (hl : l ∈ ls) :
    ∃ before us after, cs = before ++ (us ++ after) ∧ l.start = position + byteLength before ∧
      l.stop = l.start + byteLength us ∧ IsLongest (us ++ (after ++ rest)) us l.token := by
  induction h with
  | done => cases hl
  | @blank position c cs ls _ _ ih =>
    obtain ⟨before, us, after, rfl, hstart, hstop, hlongest⟩ := ih hl
    refine ⟨c :: before, us, after, rfl, ?_, hstop, hlongest⟩
    rw [hstart, byteLength_cons, Nat.add_assoc]
  | @token position us cs t ls hus _ ih =>
    obtain rfl | hl := List.mem_cons.1 hl
    · exact ⟨[], us, cs, rfl, rfl, rfl, hus⟩
    · obtain ⟨before, vs, after, rfl, hstart, hstop, hlongest⟩ := ih hl
      refine ⟨us ++ before, vs, after, ?_, ?_, hstop, hlongest⟩
      · rw [List.append_assoc]
      · rw [hstart, byteLength_append, Nat.add_assoc]

/-- **What is beside the lexemes is blank**: `Token.isBlank c = true`. -/
theorem Lexes.isBlank_of_outside (h : Lexes rest position cs ls) {before after : List Char}
    {c : Char} (hcs : cs = before ++ c :: after)
    (hls : ∀ l ∈ ls, position + byteLength before < l.start ∨
      l.stop ≤ position + byteLength before) : Token.isBlank c = true := by
  induction h generalizing before with
  | done => simp at hcs
  | @blank position d cs ls hd _ ih =>
    cases before with
    | nil =>
      obtain ⟨rfl, -⟩ := List.cons.inj hcs
      exact hd
    | cons e before =>
      obtain ⟨rfl, htail⟩ := List.cons.inj hcs
      refine ih htail fun l hl => ?_
      rw [Nat.add_assoc, ← byteLength_cons]
      exact hls l hl
  | @token position us cs t ls hus _ ih =>
    obtain ⟨hfirst, hothers⟩ := List.forall_mem_cons.1 hls
    obtain ⟨vs, rfl, htail⟩ | ⟨vs, rfl, hvs⟩ := List.append_eq_append_iff.1 hcs
    · refine ih htail fun l hl => ?_
      rw [Nat.add_assoc, ← byteLength_append]
      exact hothers l hl
    · cases vs with
      | nil =>
        refine ih (show cs = [] ++ c :: after from hvs.symm) fun l hl => ?_
        simpa using hothers l hl
      | cons d vs =>
        -- here the character would be one of the token's
        have hsize := d.utf8Size_pos
        simp only [byteLength_append, byteLength_cons] at hfirst
        omega

/-! ## (4) Tokens with blanks between them -/

/-- `spaced gaps texts`: texts with a gap before each. -/
def spaced (gaps texts : List String) : String := String.join (List.zipWith (· ++ ·) gaps texts)

/-- Whether a gap between tokens is some blanks and nothing else. -/
def IsGap (gap : String) : Prop := gap ≠ "" ∧ ∀ c ∈ gap.toList, Token.isBlank c = true

/-- Blanks in front of a text are skipped: `Lexes rest position (gap ++ cs) ls`. -/
theorem Lexes.blanks {gap : List Char} (hgap : ∀ c ∈ gap, Token.isBlank c = true)
    (h : Lexes rest (position + byteLength gap) cs ls) : Lexes rest position (gap ++ cs) ls := by
  induction gap generalizing position with
  | nil => exact h
  | cons c gap ih =>
    obtain ⟨hc, hgap⟩ := List.forall_mem_cons.1 hgap
    refine .blank hc (ih hgap ?_)
    rwa [Nat.add_assoc, ← byteLength_cons]

section Gaps

variable {gap text : String} {gaps texts : List String} {ts : List Token}

/-- The characters of a text with a gap before it, and of what follows:
`(spaced (gap :: gaps) (text :: texts)).toList` is
`gap.toList ++ (text.toList ++ (spaced gaps texts).toList)`. -/
theorem toList_spaced_cons : (spaced (gap :: gaps) (text :: texts)).toList =
    gap.toList ++ (text.toList ++ (spaced gaps texts).toList) := by
  rw [spaced, List.zipWith_cons_cons, String.join_cons, String.toList_append,
    String.toList_append, List.append_assoc]
  rfl

/-- Texts with gaps before them begin with a blank, if with anything:
`∀ c ∈ (spaced gaps texts).toList.head?, Token.isBlank c = true`. -/
theorem isBlank_head?_spaced (hgaps : ∀ gap ∈ gaps, IsGap gap) :
    ∀ c ∈ (spaced gaps texts).toList.head?, Token.isBlank c = true := by
  intro c hc
  match gaps, texts with
  | [], _ => cases hc
  | _ :: _, [] => cases hc
  | gap :: gaps, text :: texts =>
    obtain ⟨hne, hblank⟩ := hgaps gap List.mem_cons_self
    rw [toList_spaced_cons] at hc
    cases hgap : gap.toList with
    | nil => exact absurd (String.toList_eq_nil_iff.1 hgap) hne
    | cons d more =>
      rw [hgap] at hc hblank
      obtain rfl := Option.some.inj hc
      exact hblank d List.mem_cons_self

/-- Tokens with gaps before them are read as these tokens:
`∃ ls, Lexes [] position (spaced gaps texts).toList ls ∧ ls.map Lexeme.token = ts`. -/
theorem lexes_spaced
    (hts : List.Forall₂ (fun text t => IsLongest text.toList text.toList t) texts ts)
    (hlength : gaps.length = texts.length) (hgaps : ∀ gap ∈ gaps, IsGap gap) (position : Nat) :
    ∃ ls, Lexes [] position (spaced gaps texts).toList ls ∧ ls.map Lexeme.token = ts := by
  induction hts generalizing gaps position with
  | nil =>
    obtain rfl := List.eq_nil_of_length_eq_zero hlength
    exact ⟨[], .done position, rfl⟩
  | @cons text t texts ts ht _ ih =>
    obtain ⟨gap, gaps, rfl⟩ := List.exists_cons_of_length_eq_add_one hlength
    obtain ⟨hgap, hgaps⟩ := List.forall_mem_cons.1 hgaps
    obtain ⟨ls, hls, rfl⟩ := ih (Nat.succ.inj hlength) hgaps
      (position + byteLength gap.toList + byteLength text.toList)
    rw [toList_spaced_cons]
    refine ⟨_ :: ls, .blanks hgap.2 (.token ?_ hls), rfl⟩
    rw [List.append_nil]
    exact ht.append (isBlank_head?_spaced hgaps)

/-- **Tokens with gaps between them** are read as these tokens:
`∃ ls, Lexes [] position (spaced ("" :: gaps) texts).toList ls ∧ ls.map Lexeme.token = ts`. -/
theorem lexes_spaced_between
    (hts : List.Forall₂ (fun text t => IsLongest text.toList text.toList t) texts ts)
    (hlength : gaps.length + 1 = texts.length) (hgaps : ∀ gap ∈ gaps, IsGap gap) (position : Nat) :
    ∃ ls, Lexes [] position (spaced ("" :: gaps) texts).toList ls ∧ ls.map Lexeme.token = ts := by
  cases hts with
  | nil => cases hlength
  | @cons text t texts ts ht hts =>
    obtain ⟨ls, hls, rfl⟩ := lexes_spaced hts (Nat.succ.inj hlength) hgaps
      (position + byteLength text.toList)
    rw [toList_spaced_cons, String.toList_empty, List.nil_append]
    refine ⟨_ :: ls, .token ?_ hls, rfl⟩
    rw [List.append_nil]
    exact ht.append (isBlank_head?_spaced hgaps)

end Gaps

/-! ## (5) Whole texts -/

/-- `Lexeme.slice source l`: the part of a text that a lexeme takes. -/
def Lexeme.slice (source : String) (l : Lexeme) : String :=
  String.Pos.Raw.extract source ⟨l.start⟩ ⟨l.stop⟩

/-- **What a text's lexemes are**: the longest token at each place, with blanks between them that
make no difference. -/
structure Lexed (source : String) (ls : List Lexeme) : Prop where
  /-- There are some. -/
  nonempty : ls ≠ []
  /-- Each takes some bytes of the text. -/
  within : ∀ l ∈ ls, l.start < l.stop ∧ l.stop ≤ source.utf8ByteSize
  /-- They follow each other. -/
  apart : ls.Pairwise fun l m => l.stop ≤ m.start
  /-- Each is the longest token at its place. -/
  longest : ∀ l ∈ ls, ∃ before us after, source.toList = before ++ (us ++ after) ∧
    l.start = byteLength before ∧ l.slice source = String.ofList us ∧
    IsLongest (us ++ after) us l.token
  /-- What is beside them is blank. -/
  blank_outside : ∀ before c after, source.toList = before ++ c :: after →
    (∀ l ∈ ls, byteLength before < l.start ∨ l.stop ≤ byteLength before) → Token.isBlank c = true
  /-- Their slices of the text are the same tokens with any gaps between them. -/
  respaced : ∀ gaps : List String, gaps.length + 1 = ls.length → (∀ gap ∈ gaps, IsGap gap) →
    ∃ ls', tokenize (spaced ("" :: gaps) (ls.map (Lexeme.slice source))) = .ok ls' ∧
      ls'.map Lexeme.token = ls.map Lexeme.token

/-- **Where a text is refused**: no token begins at the byte `position`, where there is a character
that is no blank, and what stands before it is blank or has lexemes. -/
def RefusedAt (source : String) (position : Nat) : Prop :=
  ∃ before c rest, source.toList = before ++ c :: rest ∧ byteLength before = position ∧
    Token.isBlank c = false ∧ (∀ us, us <+: c :: rest → ¬ Matched us) ∧
    ((∀ d ∈ before, Token.isBlank d = true) ∨ ∃ ls, tokenize (String.ofList before) = .ok ls)

variable {source : String}

/-- `tokenize source = .ok ls`: the lexemes of a text are those that it is read as, if any. -/
theorem tokenize_of_lexes (h : Lexes [] 0 source.toList ls) (hne : ls ≠ []) :
    tokenize source = .ok ls := by
  rw [tokenize, h.lexemes_eq]
  cases ls with
  | nil => exact absurd rfl hne
  | cons l ls => rfl

/-- A text without lexemes is blank: `∀ c ∈ cs, Token.isBlank c = true`. -/
theorem Lexes.isBlank_of_nil (h : Lexes rest position cs []) :
    ∀ c ∈ cs, Token.isBlank c = true := by
  intro c hc
  obtain ⟨before, after, hcs⟩ := List.append_of_mem hc
  exact h.isBlank_of_outside hcs nofun

/-- `l.slice source = String.ofList us`: the slice of a text between two of its characters. -/
theorem slice_eq {before us after : List Char} {l : Lexeme}
    (hsource : source.toList = before ++ (us ++ after)) (hstart : l.start = byteLength before)
    (hstop : l.stop = l.start + byteLength us) : l.slice source = String.ofList us := by
  have hofList : source = String.ofList (before ++ us ++ after) := by
    rw [List.append_assoc, ← hsource, String.ofList_toList]
  rw [Lexeme.slice, hstop, hstart, byteLength_eq, byteLength_eq, hofList, String.extract_of_valid]

/-- Each lexeme of a text is the longest token at its place, and its slice is the text of it: there
are `before`, `us` and `after` with `source.toList = before ++ (us ++ after)`,
`l.start = byteLength before`, `l.slice source = String.ofList us` and
`IsLongest (us ++ after) us l.token`. -/
theorem Lexes.place_slice (h : Lexes [] 0 source.toList ls) {l : Lexeme} (hl : l ∈ ls) :
    ∃ before us after, source.toList = before ++ (us ++ after) ∧ l.start = byteLength before ∧
      l.slice source = String.ofList us ∧ IsLongest (us ++ after) us l.token := by
  obtain ⟨before, us, after, hsource, hstart, hstop, hlongest⟩ := h.place hl
  rw [Nat.zero_add] at hstart
  rw [List.append_nil] at hlongest
  exact ⟨before, us, after, hsource, hstart, slice_eq hsource hstart hstop, hlongest⟩

/-- **The slice of each lexeme** is its token when it stands alone: `List.Forall₂ (fun text t =>
IsLongest text.toList text.toList t) (ls.map (Lexeme.slice source)) (ls.map Lexeme.token)`. -/
theorem Lexes.slices (h : Lexes [] 0 source.toList ls) :
    List.Forall₂ (fun text t => IsLongest text.toList text.toList t)
      (ls.map (Lexeme.slice source)) (ls.map Lexeme.token) := by
  rw [List.forall₂_map_left_iff, List.forall₂_map_right_iff, List.forall₂_same]
  intro l hl
  obtain ⟨before, us, after, -, -, hslice, hlongest⟩ := h.place_slice hl
  rw [hslice, String.toList_ofList]
  exact hlongest.alone

/-- **What a text is read as** are its lexemes, in the sense above: `Lexed source ls`. -/
theorem lexed_of_lexes (h : Lexes [] 0 source.toList ls) (hne : ls ≠ []) : Lexed source ls where
  nonempty := hne
  within l hl := by
    have hbounds := h.within l hl
    rw [byteLength_toList] at hbounds
    omega
  apart := h.apart
  longest l hl := h.place_slice hl
  blank_outside before c after hsource hls :=
    h.isBlank_of_outside hsource fun l hl => by
      rw [Nat.zero_add]
      exact hls l hl
  respaced gaps hlength hgaps := by
    obtain ⟨ls', hls', htokens⟩ := lexes_spaced_between h.slices (by rwa [List.length_map]) hgaps 0
    refine ⟨ls', tokenize_of_lexes hls' ?_, htokens⟩
    rintro rfl
    exact hne (List.map_eq_nil_iff.1 htokens.symm)

/-- **Blanks between tokens make no difference.** The lexemes of a text follow each other and take
all of it but blanks, and their slices with any gaps between them are the same tokens. A text
without lexemes is blank, or is refused where no token begins. -/
theorem tokenize_blanks (source : String) : Meets (tokenize source) (Lexed source) fun e =>
    (e = .empty ∧ ∀ c ∈ source.toList, Token.isBlank c = true) ∨
      ∃ position input, e = .unexpectedInput position input ∧ RefusedAt source position := by
  have hmeets := lexemes_meets 0 source.toList
  cases hlexemes : lexemes 0 source.toList with
  | ok ls =>
    have hlexes := hmeets.of_ok hlexemes
    rw [tokenize, hlexemes]
    cases ls with
    | nil => exact .inl ⟨rfl, hlexes.isBlank_of_nil⟩
    | cons l ls => exact lexed_of_lexes hlexes (List.cons_ne_nil l ls)
  | error e =>
    obtain ⟨before, c, rest, ls, hsource, hlexes, hc, hnone, rfl⟩ := hmeets.of_error hlexemes
    rw [tokenize, hlexemes]
    refine .inr ⟨_, _, rfl, before, c, rest, hsource, (Nat.zero_add _).symm, hc, hnone, ?_⟩
    -- what stands before the fault is read in the same way without it
    cases ls with
    | nil => exact .inl hlexes.isBlank_of_nil
    | cons l ls =>
      exact .inr ⟨_, tokenize_of_lexes (by simpa using hlexes.alone) (List.cons_ne_nil l ls)⟩

end PanelQuery.Formula
