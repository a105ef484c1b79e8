import PanelQuery.Formula.Grammar
import PanelQuery.Proofs.Formula.Spacing

/-! # Tokens and texts

The texts of tokens with blanks between them are a text of these tokens. Some tokens are spelled in
several ways, and mean the same in each.

* **`Token.canonical`** — tokens that mean the same as one token;
* **`Token.IsText`, `Token.IsText.isLongest`** — the text of a token;
* **`tokenize_spelled`** — texts of tokens with blanks after them;
* **`IsName`, `Token.isText_spelling`** — the text that a token is spelled with. -/

namespace PanelQuery.Formula

/-! ## (1) Different spellings -/

/-- **The usual spelling.** Names and keywords are in lower case, the logical operators are signs,
and the average has one name. -/
def Token.canonical : Token → Token
  | .word raw =>
      let name := Text.asciiLower raw
      if name = "or" then .eitherOr
      else if name = "and" then .bothAnd
      else if name = "not" then .bang
      else if name = "mean" then .word "average"
      else .word name
  | t => t

/-- Tokens with one spelling only. -/
def Token.hasOneSpelling : Token → Bool
  | .word _ | .eitherOr | .bothAnd | .bang => false
  | _ => true

namespace Token

variable {t u : Token} {name : String}

/-- `u = t`: such tokens are what they are. -/
theorem eq_of_canonical (h : u.canonical = t) (ht : t.hasOneSpelling = true) : u = t := by
  cases u with
  | word raw =>
    unfold canonical at h
    dsimp only at h
    split_ifs at h <;> subst h <;> cases ht
  | _ => exact h

/-- Only a word is a word, and in lower case it is the same or another name of the average: there is
`raw` with `u = .word raw` and
`(Text.asciiLower raw = name ∨ Text.asciiLower raw = "mean" ∧ name = "average")`. -/
theorem exists_word_of_canonical (h : u.canonical = .word name) : ∃ raw, u = .word raw ∧
    (Text.asciiLower raw = name ∨ Text.asciiLower raw = "mean" ∧ name = "average") := by
  cases u with
  | word raw =>
    refine ⟨raw, rfl, ?_⟩
    unfold canonical at h
    dsimp only at h
    split_ifs at h with _ _ _ hmean
    · exact .inr ⟨hmean, (Token.word.inj h).symm⟩
    · exact .inl (Token.word.inj h)
  | _ => cases h

/-- A name but that of the average has one spelling in lower case:
`∃ raw, u = .word raw ∧ Text.asciiLower raw = name`. -/
theorem asciiLower_of_canonical (h : u.canonical = .word name) (hname : name ≠ "average") :
    ∃ raw, u = .word raw ∧ Text.asciiLower raw = name := by
  obtain ⟨raw, rfl, hraw | ⟨-, haverage⟩⟩ := exists_word_of_canonical h
  · exact ⟨raw, rfl, hraw⟩
  · exact absurd haverage hname

/-- `u.isKeyword name = true`: keywords are recognized in every spelling. -/
theorem isKeyword_of_canonical (h : u.canonical = .word name) (hname : name ≠ "average") :
    u.isKeyword name = true := by
  obtain ⟨raw, rfl, hraw⟩ := asciiLower_of_canonical h hname
  exact beq_iff_eq.2 hraw

/-- `Chain.disjunction.operator? u = some .either`: a disjunction is a sign or a keyword. -/
theorem operator?_of_canonical_eitherOr (h : u.canonical = .eitherOr) :
    Chain.disjunction.operator? u = some .either := by
  cases u with
  | word raw =>
    unfold canonical at h
    dsimp only at h
    split_ifs at h with hor
    exact if_pos (beq_iff_eq.2 hor)
  | eitherOr => rfl
  | _ => cases h

/-- `Chain.conjunction.operator? u = some .both`: a conjunction is a sign or a keyword. -/
theorem operator?_of_canonical_bothAnd (h : u.canonical = .bothAnd) :
    Chain.conjunction.operator? u = some .both := by
  cases u with
  | word raw =>
    unfold canonical at h
    dsimp only at h
    split_ifs at h with hor hand
    exact if_pos (beq_iff_eq.2 hand)
  | bothAnd => rfl
  | _ => cases h

/-- `u.isNot = true`: a negation is a sign or a keyword. -/
theorem isNot_of_canonical (h : u.canonical = .bang) : u.isNot = true := by
  cases u with
  | word raw =>
    unfold canonical at h
    dsimp only at h
    split_ifs at h with hor hand hnot
    exact beq_iff_eq.2 hnot
  | bang => rfl
  | _ => cases h

/-! ## (2) The text of a token -/

/-- **The text of a token**: all of it is scanned as the token. -/
def IsText (cs : List Char) (t : Token) : Prop :=
  ∃ c rest, cs = c :: rest ∧ isBlank c = false ∧ scan c rest = some (t, rest.length)

/-- The text of a token is that token and no shorter one: `IsLongest cs cs t`. -/
theorem IsText.isLongest {cs : List Char} {t : Token} (h : IsText cs t) : IsLongest cs cs t := by
  obtain ⟨c, rest, rfl, -, hscan⟩ := h
  have hlongest := (isLongest_of_scan hscan).2
  rwa [List.take_length] at hlongest

end Token

/-! ## (3) Texts of tokens -/

section Texts

variable {spell : Token → List Char} {ts : List Token}

/-- `spelled spell ts`: the texts of tokens, with a blank after each. -/
def spelled (spell : Token → List Char) (ts : List Token) : List Char :=
  ts.flatMap fun t => spell t ++ [' ']

/-- Tokens with blanks after them are read as these tokens:
`∃ us, Lexes [] position (spelled spell ts) us ∧ us.map Lexeme.token = ts`. -/
theorem lexes_spelled (h : ∀ t ∈ ts, Token.IsText (spell t) t) (position : Nat) :
    ∃ us, Lexes [] position (spelled spell ts) us ∧ us.map Lexeme.token = ts := by
  induction ts generalizing position with
  | nil => exact ⟨[], .done position, rfl⟩
  | cons t ts ih =>
    obtain ⟨ht, hts⟩ := List.forall_mem_cons.1 h
    have htext : spelled spell (t :: ts) = spell t ++ ' ' :: spelled spell ts := by
      rw [spelled, List.flatMap_cons, List.append_assoc]
      rfl
    obtain ⟨us, hus, rfl⟩ := ih hts (position + byteLength (spell t) + 1)
    rw [htext]
    refine ⟨_ :: us, .token (ht.isLongest.append ?_) (.blank rfl hus), rfl⟩
    exact fun c hc => Option.some.inj hc ▸ rfl

/-- **Tokens with blanks after them** are the tokens of the text:
`∃ us, tokenize (String.ofList (spelled spell ts)) = .ok us ∧ us.map Lexeme.token = ts`. -/
theorem tokenize_spelled (h : ∀ t ∈ ts, Token.IsText (spell t) t) (hts : ts ≠ []) :
    ∃ us, tokenize (String.ofList (spelled spell ts)) = .ok us ∧ us.map Lexeme.token = ts := by
  obtain ⟨us, hus, hmap⟩ := lexes_spelled h 0
  refine ⟨us, tokenize_of_lexes (by rwa [String.toList_ofList]) ?_, hmap⟩
  rintro rfl
  exact hts hmap.symm

end Texts

/-! ## (4) Names -/

/-- Whether all of a text is a word. -/
def isWordText : List Char → Bool
  | c :: rest =>
      !Token.isBlank c && !isDigit c && c != '.' && Token.startsWord c &&
        rest.all Token.continuesWord
  | [] => false

/-- A name or keyword in its usual spelling. -/
def IsName (w : String) : Prop :=
  Text.asciiLower w = w ∧ w ∉ ["or", "and", "not", "mean"] ∧ isWordText w.toList = true

instance (w : String) : Decidable (IsName w) :=
  inferInstanceAs (Decidable (Text.asciiLower w = w ∧ w ∉ ["or", "and", "not", "mean"] ∧
    isWordText w.toList = true))

/-- A word is scanned as that: `IsText w.toList (.word w)`. -/
theorem Token.isText_word {w : String} (h : isWordText w.toList = true) :
    IsText w.toList (.word w) := by
  cases hw : w.toList with
  | nil => rw [hw] at h; cases h
  | cons c rest =>
    rw [hw] at h
    simp only [isWordText, Bool.and_eq_true, Bool.not_eq_true', bne_iff_ne, ne_eq] at h
    obtain ⟨⟨⟨⟨hblank, hdigit⟩, hpoint⟩, hword⟩, hrest⟩ := h
    refine ⟨c, rest, rfl, hblank, ?_⟩
    have htail : rest.takeWhile continuesWord = rest :=
      List.takeWhile_eq_self_iff.2 (List.all_eq_true.1 hrest)
    rw [scan, if_neg (by rw [hdigit]; decide), if_neg hpoint, if_pos hword, htail]
    dsimp only
    rw [← hw, String.ofList_toList]

/-- `(Token.word w).canonical = .word w`: a name is spelled as usual. -/
theorem Token.canonical_word {w : String} (h : IsName w) : (Token.word w).canonical = .word w := by
  obtain ⟨hlower, hother, -⟩ := h
  simp only [List.mem_cons, List.not_mem_nil, or_false, not_or] at hother
  obtain ⟨hor, hand, hnot, hmean⟩ := hother
  rw [canonical, hlower, if_neg hor, if_neg hand, if_neg hnot, if_neg hmean]

/-! ## (5) The spelling of tokens -/

namespace Token

/-- Quotes for a text that lacks one kind of them. -/
def quoteFor (s : String) : Char := if '"' ∈ s.toList then '\'' else '"'

/-- **The text of a token**, where `numeral` writes numbers. -/
def spelling (numeral : Float → List Char) : Token → List Char
  | number x => numeral x
  | text s => quoteFor s :: (s.toList ++ [quoteFor s])
  | word w => w.toList
  | plus => ['+']
  | minus => ['-']
  | star => ['*']
  | slash => ['/']
  | percent => ['%']
  | caret => ['^']
  | openParen => ['(']
  | closeParen => [')']
  | openBracket => ['[']
  | closeBracket => [']']
  | colon => [':']
  | comma => [',']
  | less => ['<']
  | lessEqual => ['<', '=']
  | greater => ['>']
  | greaterEqual => ['>', '=']
  | equal => ['=', '=']
  | unequal => ['!', '=']
  | bothAnd => ['&', '&']
  | eitherOr => ['|', '|']
  | bang => ['!']

/-- What it takes to spell a token: a numeral of the number, a kind of quotes that the text lacks,
and a word that is a name. -/
def CanSpell (numeral : Float → List Char) : Token → Prop
  | number x => IsText (numeral x) (.number x)
  | text s => '"' ∉ s.toList ∨ '\'' ∉ s.toList
  | word w => IsName w
  | _ => True

/-- Text between quotes that it lacks is scanned as that:
`IsText (quoteFor s :: (s.toList ++ [quoteFor s])) (.text s)`. -/
theorem isText_text {s : String} (h : '"' ∉ s.toList ∨ '\'' ∉ s.toList) :
    IsText (quoteFor s :: (s.toList ++ [quoteFor s])) (.text s) := by
  have hquote : quoteFor s ∉ s.toList ∧ (quoteFor s = '"' ∨ quoteFor s = '\'') := by
    unfold quoteFor
    split_ifs with hmem
    · exact ⟨h.resolve_left (not_not_intro hmem), .inr rfl⟩
    · exact ⟨hmem, .inl rfl⟩
  obtain ⟨hlacks, hkind⟩ := hquote
  refine ⟨_, _, rfl, by rcases hkind with hkind | hkind <;> rw [hkind] <;> decide, ?_⟩
  have hscan : scan (quoteFor s) (s.toList ++ [quoteFor s]) =
      scanQuoted (quoteFor s) (s.toList ++ [quoteFor s]) := by
    rcases hkind with hkind | hkind <;> rw [hkind] <;> rfl
  rw [hscan, scanQuoted, takeWhile_bne_append hlacks]
  simp

/-- **A token is scanned from its text**: `IsText (t.spelling numeral) t`. -/
theorem isText_spelling {numeral : Float → List Char} {t : Token} (h : t.CanSpell numeral) :
    IsText (t.spelling numeral) t := by
  cases t with
  | number x => exact h
  | text s => exact isText_text h
  | word w => exact isText_word h.2.2
  | _ => exact ⟨_, _, rfl, rfl, rfl⟩

end Token

end PanelQuery.Formula
