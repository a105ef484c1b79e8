import PanelQuery.Query.Node
import PanelQuery.Text.Blank

/-! # Terms

Free text as arguments, by a table of known phrases. Case does not matter.

* **`PhraseTable`** — phrases and what they stand for;
* **`occurrences`** — where a phrase stands in a text;
* **`PhraseTable.resolve`** — the arguments of a text: of overlapping phrases the one that starts
  first counts, and of those with one start the longest. -/

namespace PanelQuery

/-- A phrase, in lower case and without blanks around it, and what it stands for. -/
structure Phrase where
  words : List Char
  argument : Argument

/-- Phrases, the first of which counts among equals. -/
abbrev PhraseTable := List Phrase

/-- `Phrase.of words argument`: a phrase as it is looked up. -/
def Phrase.of (words : String) (argument : Argument) : Phrase :=
  ⟨(Text.asciiLower (Text.trim words)).toList, argument⟩

/-- The places at which words occur in a text that starts at place `n`, from left to right and
without overlap. The next `skip` characters belong to the last occurrence. -/
def occurrencesFrom (words : List Char) (n skip : Nat) : List Char → List Nat
  | [] => []
  | c :: rest =>
      match skip with
      | skip + 1 => occurrencesFrom words (n + 1) skip rest
      | 0 =>
          if words.isPrefixOf (c :: rest) then
            n :: occurrencesFrom words (n + 1) (words.length - 1) rest
          else occurrencesFrom words (n + 1) 0 rest

/-- `occurrences words text`: the places at which words occur, from left to right and without
overlap; empty words occur nowhere. -/
def occurrences (words text : List Char) : List Nat :=
  if words.isEmpty then [] else occurrencesFrom words 0 0 text

/-- A phrase at a place of a text. -/
structure Hit where
  place : Nat
  size : Nat
  argument : Argument

/-- Whether one hit comes before another, when neither is the earlier in the table: it starts first,
or at the same place and is longer. -/
def Hit.precedes (a b : Hit) : Bool :=
  if a.place = b.place then decide (b.size ≤ a.size) else decide (a.place < b.place)

/-- The hits that do not overlap with one before them; the text up to `covered` belongs to one. -/
def uncovered (covered : Nat) : List Hit → List Hit
  | [] => []
  | h :: rest =>
      if h.place < covered then uncovered covered rest
      else h :: uncovered (h.place + h.size) rest

namespace PhraseTable

/-- `hits table text`: all hits of the phrases in a text, which is in lower case. -/
def hits (table : PhraseTable) (text : List Char) : List Hit :=
  table.flatMap fun p =>
    (occurrences p.words text).map fun place => ⟨place, p.words.length, p.argument⟩

/-- `resolve table text`: the arguments of a text, each with the words that it was found by. -/
def resolve (table : PhraseTable) (text : String) : List Argument :=
  let cs := text.toList
  let ordered := (table.hits (cs.map Char.toLower)).mergeSort Hit.precedes
  (uncovered 0 ordered).map fun h =>
    { h.argument with originalText := String.ofList ((cs.drop h.place).take h.size) }

end PhraseTable

end PanelQuery
