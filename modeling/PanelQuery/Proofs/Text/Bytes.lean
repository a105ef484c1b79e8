import Mathlib.Data.List.Infix
import PanelQuery.Text.Blank

/-! # Bytes of a text

In its encoding by bytes a text begins nowhere within a character: places of characters tell all
places at which words may stand.

* **`Text.bytes`** — the bytes of a text;
* **`Text.isPrefix_of_bytes`** — words that begin the bytes of a text begin the text;
* **`Text.isPrefix_drop_bytes_iff`** — where the bytes of words stand among those of a text. -/

namespace PanelQuery.Text

/-- The bytes of a text. -/
def bytes (text : List Char) : List UInt8 := text.flatMap String.utf8EncodeChar

variable {words text : List Char} {k : Nat}

/-- Words that begin the bytes of a text begin the text: `words <+: text`. -/
theorem isPrefix_of_bytes (h : bytes words <+: bytes text) : words <+: text := by
  obtain ⟨rest, hrest⟩ := h
  refine List.isPrefix_of_utf8Encode_append_eq_utf8Encode rest.toByteArray ?_
  rw [List.utf8Encode, List.utf8Encode, ← List.toByteArray_append]
  exact congrArg List.toByteArray hrest

/-- `bytes (c :: rest) = String.utf8EncodeChar c ++ bytes rest`: the bytes of a text are those of
its first character and those of the rest. -/
theorem bytes_cons (c : Char) (rest : List Char) :
    bytes (c :: rest) = String.utf8EncodeChar c ++ bytes rest := rfl

/-- `(bytes text).drop (bytes (text.take i)).length = bytes (text.drop i)`: behind the bytes of its
first characters a text has the bytes of what is left of it. -/
theorem drop_bytes (text : List Char) (i : Nat) :
    (bytes text).drop (bytes (text.take i)).length = bytes (text.drop i) := by
  have happend : bytes text = bytes (text.take i) ++ bytes (text.drop i) := by
    rw [bytes, bytes, bytes, ← List.flatMap_append, List.take_append_drop]
  rw [happend, List.drop_left]

/-- Words begin with a byte that no character has further on:
`∃ b others, bytes words = b :: others ∧ b.IsUTF8FirstByte`. -/
theorem exists_first_byte (hwords : words ≠ []) :
    ∃ b others, bytes words = b :: others ∧ b.IsUTF8FirstByte := by
  obtain ⟨c, rest, rfl⟩ := List.exists_cons_of_ne_nil hwords
  obtain ⟨b, others, hc⟩ := List.exists_cons_of_ne_nil (String.utf8EncodeChar_ne_nil (c := c))
  refine ⟨b, others ++ bytes rest, congrArg (· ++ bytes rest) hc, ?_⟩
  have hfirst := UInt8.isUTF8FirstByte_getElem_zero_utf8EncodeChar (c := c)
  simpa only [hc, List.getElem_cons_zero] using hfirst

/-- **Words begin at characters**: `bytes words <+: (bytes text).drop k` just when
`∃ i, (bytes (text.take i)).length = k ∧ words <+: text.drop i`. The bytes of words stand among
those of a text just where the words stand behind as many characters as take up the bytes before. -/
theorem isPrefix_drop_bytes_iff (hwords : words ≠ []) :
    bytes words <+: (bytes text).drop k ↔
      ∃ i, (bytes (text.take i)).length = k ∧ words <+: text.drop i := by
  constructor
  · intro h
    obtain ⟨b, others, hb, hfirst⟩ := exists_first_byte hwords
    induction text generalizing k with
    | nil =>
      rw [hb, show bytes [] = [] from rfl, List.drop_nil] at h
      cases List.prefix_nil.1 h
    | cons c rest ih =>
      rcases Nat.eq_zero_or_pos k with rfl | hk
      · exact ⟨0, rfl, isPrefix_of_bytes h⟩
      rw [bytes_cons, List.drop_append] at h
      rcases Nat.lt_or_ge k (String.utf8EncodeChar c).length with hlt | hge
      · -- a byte within a character begins no words
        rw [hb, List.drop_eq_getElem_cons hlt] at h
        rw [(List.cons_prefix_cons.1 h).1, UInt8.isUTF8FirstByte_getElem_utf8EncodeChar] at hfirst
        omega
      · rw [List.drop_eq_nil_of_le hge, List.nil_append] at h
        obtain ⟨i, hi, hbegins⟩ := ih h
        refine ⟨i + 1, ?_, hbegins⟩
        rw [List.take_succ_cons, bytes_cons, List.length_append, hi]
        omega
  · rintro ⟨i, rfl, hbegins⟩
    rw [drop_bytes]
    exact hbegins.flatMap _

end PanelQuery.Text
