import PanelQuery.Proofs.Json.Scalars

/-! # Documents read back

What is written as the text of a document is read as that document: texts with any characters,
integers of one word, floats that are read back by themselves, and containers of such values that
nest no deeper than reading goes. What has no value in a text, a float that is no finite number
among it, is written as nothing and read as nothing.

* **`Readable`** — the documents that are read back, at most so deep;
* **`Readable.readsAs`** — such a document in front of what may follow it;
* **`parse?_render`** — the text of such a document;
* **`printed`, `parse?_render_printed`** — a document as it stands in its text. -/

namespace PanelQuery.Json

variable {depth fuel : Nat} {cs more rest r : List Char}

/-! ## (1) Space -/

/-- `skipSpace (skipSpace cs) = skipSpace cs`: space is passed over once. -/
theorem skipSpace_skipSpace (cs : List Char) : skipSpace (skipSpace cs) = skipSpace cs := by
  unfold skipSpace
  induction cs with
  | nil => rfl
  | cons c cs ih =>
    rw [List.dropWhile_cons]
    split
    · exact ih
    · rename_i hc
      exact List.dropWhile_cons_of_neg hc

/-- `skipSpace (cs ++ rest) = skipSpace cs ++ rest`: a text with more than space keeps what follows
it. -/
theorem skipSpace_append (h : skipSpace cs ≠ []) (rest : List Char) :
    skipSpace (cs ++ rest) = skipSpace cs ++ rest := by
  unfold skipSpace at h ⊢
  rw [List.dropWhile_append, if_neg (by simpa using h)]

/-- `value? depth fuel (skipSpace cs) = value? depth fuel cs`: space in front of a value does not
count. -/
theorem value?_skipSpace (depth fuel : Nat) (cs : List Char) :
    value? depth fuel (skipSpace cs) = value? depth fuel cs := by
  cases fuel with
  | zero => rfl
  | succ fuel => rw [value?, value?, skipSpace_skipSpace]

/-- `items? depth fuel (skipSpace cs) = items? depth fuel cs`: space in front of items does not
count. -/
theorem items?_skipSpace (depth fuel : Nat) (cs : List Char) :
    items? depth fuel (skipSpace cs) = items? depth fuel cs := by
  cases fuel with
  | zero => rfl
  | succ fuel => rw [items?, items?, value?_skipSpace]

/-! ## (2) Which values are numbers -/

/-- The characters that tell what a value is. Any other begins a number without sign. -/
def marks : List Char := ['n', 't', 'f', '"', '[', '\x7b', '-']

/-- `isSpace c = false ∧ c ∉ marks`: a digit is neither space nor a mark. -/
theorem isSpace_and_marks_of_isDigit {c : Char} (hc : isDigit c = true) :
    isSpace c = false ∧ c ∉ marks := by
  refine ⟨Bool.eq_false_iff.2 fun hspace => ?_, fun hmark => ?_⟩
  · have hall : [' ', '\n', '\t', '\r'].all (fun d => !isDigit d) = true := by decide
    have hmem : c ∈ [' ', '\n', '\t', '\r'] := by simpa [isSpace, or_assoc] using hspace
    have hother := List.all_eq_true.1 hall c hmem
    rw [hc] at hother
    exact Bool.false_ne_true hother
  · have hall : marks.all (fun d => !isDigit d) = true := by decide
    have hother := List.all_eq_true.1 hall c hmark
    rw [hc] at hother
    exact Bool.false_ne_true hother

/-- `value? depth (fuel + 1) cs = number? false (c :: more)`: without mark, a value is a number. -/
theorem value?_number {c : Char} (hcs : skipSpace cs = c :: more) (hc : c ∉ marks) :
    value? depth (fuel + 1) cs = number? false (c :: more) := by
  rw [value?, hcs]
  split
  case h_8 => rfl
  all_goals
    rename_i heq
    cases heq
    exact absurd (by decide) hc

/-- `value? depth (fuel + 1) cs = number? true more`: with a minus, a value is a number. -/
theorem value?_minus (hcs : skipSpace cs = '-' :: more) :
    value? depth (fuel + 1) cs = number? true more := by
  rw [value?, hcs]
  rfl

/-- A container is no float: `nested depth container ≠ real x`. -/
theorem nested_ne_real {container : Json} (h : ∀ y, container ≠ real y) (x : Float) :
    nested depth container ≠ real x := by
  unfold nested
  split
  · nofun
  · exact h x

/-- An object is no float: `ofMembers members ≠ real x`. -/
theorem ofMembers_ne_real (members : List (Option String × Json)) (x : Float) :
    ofMembers members ≠ real x := by
  unfold ofMembers
  split <;> nofun

/-- Where no value is a float, none is read: `read.map f ≠ some (real x, r)`. -/
theorem map_ne_real {β : Type} {read : Option β} {f : β → Json × List Char} {x : Float}
    (h : ∀ b, (f b).1 ≠ real x) : read.map f ≠ some (real x, r) := by
  intro heq
  obtain ⟨b, -, hb⟩ := Option.map_eq_some_iff.1 heq
  exact h b (congrArg Prod.fst hb)

/-- **A float comes from a number**, with a minus or without mark: `∃ c more, skipSpace cs = c ::
more ∧ (c = '-' ∧ number? true more = some (real x, r) ∨ c ∉ marks ∧ number? false (c :: more) =
some (real x, r))`. -/
theorem value?_eq_real {x : Float} (h : value? depth fuel cs = some (real x, r)) :
    ∃ c more, skipSpace cs = c :: more ∧
      (c = '-' ∧ number? true more = some (real x, r) ∨
        c ∉ marks ∧ number? false (c :: more) = some (real x, r)) := by
  cases fuel with
  | zero => cases h
  | succ fuel =>
    rw [value?] at h
    split at h
    case h_7 hcs => exact ⟨_, _, hcs, .inl ⟨rfl, h⟩⟩
    case h_8 hn ht hf hquote hbracket hbrace hminus =>
      cases hcs : skipSpace cs with
      | nil =>
        rw [hcs] at h
        cases h
      | cons c more =>
        rw [hcs] at h hn ht hf hquote hbracket hbrace hminus
        refine ⟨c, more, rfl, .inr ⟨fun hc => ?_, h⟩⟩
        simp only [marks, List.mem_cons, List.not_mem_nil, or_false] at hc
        rcases hc with rfl | rfl | rfl | rfl | rfl | rfl | rfl
        · exact hn more rfl
        · exact ht more rfl
        · exact hf more rfl
        · exact hquote more rfl
        · exact hbracket more rfl
        · exact hbrace more rfl
        · exact hminus more rfl
    case h_4 =>
      refine absurd h (map_ne_real fun e => ?_)
      cases htext : e.1.text? <;> simp [htext]
    case h_5 =>
      split at h
      · exact absurd (congrArg Prod.fst (Option.some.inj h)) (nested_ne_real (by rintro _ ⟨⟩) x)
      · exact absurd h (map_ne_real fun e => nested_ne_real (by rintro _ ⟨⟩) x)
    case h_6 =>
      split at h
      · exact absurd (congrArg Prod.fst (Option.some.inj h)) (nested_ne_real (by rintro _ ⟨⟩) x)
      · exact absurd h (map_ne_real fun e => nested_ne_real (ofMembers_ne_real _) x)
    -- a word
    all_goals exact absurd h (map_ne_real (by rintro _ ⟨⟩))

/-! ## (3) Documents that are read back -/

/-- A float is read from the text it is written as. Numbers are read quickly, which may be off in the
last place, so this is a condition on the float. -/
def ReadsBack (x : Float) : Prop := parse? (real x).render = some (real x)

/-- The documents that are read back where containers may nest `depth` deep. -/
inductive Readable : Nat → Json → Prop
  | null {depth : Nat} : Readable depth null
  | bool {depth : Nat} (b : Bool) : Readable depth (bool b)
  | integer {depth : Nat} {n : Int} (h : FitsWord n) : Readable depth (integer n)
  | real {depth : Nat} {x : Float} (h : ReadsBack x) : Readable depth (real x)
  | text {depth : Nat} (s : String) : Readable depth (text s)
  | array {depth : Nat} {items : List Json} (h : ∀ j ∈ items, Readable depth j) :
      Readable (depth + 1) (array items)
  | object {depth : Nat} {members : List (String × Json)}
      (h : ∀ m ∈ members, Readable depth m.2) : Readable (depth + 1) (object members)

/-- `ReadsAs depth j`: the characters of a document, with what may follow a value behind them, are
read as the document, and what is left is what follows but for space. -/
def ReadsAs (depth : Nat) (j : Json) : Prop :=
  ∀ {fuel rest}, j.chars.length < fuel → Closing rest →
    ∃ r, value? depth fuel (j.chars ++ rest) = some (j, r) ∧ skipSpace r = skipSpace rest

/-! ### Plain values -/

/-- Nothing is read back: `ReadsAs depth null`. -/
theorem ReadsAs.null : ReadsAs depth null := by
  intro fuel rest hfuel hrest
  obtain ⟨fuel, rfl⟩ := Nat.exists_eq_add_of_lt hfuel
  exact ⟨rest, rfl, rfl⟩

/-- Truth values are read back: `ReadsAs depth (bool b)`. -/
theorem ReadsAs.bool (b : Bool) : ReadsAs depth (bool b) := by
  intro fuel rest hfuel hrest
  obtain ⟨fuel, rfl⟩ := Nat.exists_eq_add_of_lt hfuel
  cases b <;> exact ⟨rest, rfl, rfl⟩

/-- Texts are read back: `ReadsAs depth (text s)`. -/
theorem ReadsAs.text (s : String) : ReadsAs depth (text s) := by
  intro fuel rest hfuel hrest
  obtain ⟨fuel, rfl⟩ := Nat.exists_eq_add_of_lt hfuel
  obtain ⟨draft, hquoted, hbody, hdraft⟩ := textBody?_quoted s rest
  refine ⟨rest, ?_, rfl⟩
  have hvalue : value? depth ((Json.text s).chars.length + fuel + 1)
      ('"' :: (s.toList.flatMap escaped ++ '"' :: rest)) =
        (textBody? (.whole []) (s.toList.flatMap escaped ++ '"' :: rest)).map fun e =>
          ((e.1.text?.map Json.text).getD unreadable, e.2) := rfl
  rw [hbody, Option.map_some, hdraft] at hvalue
  rw [Json.chars, hquoted] at *
  exact hvalue

/-- `value? depth (fuel + 1) (Nat.toDigits 10 n ++ rest) = some (integer n, rest)`: the digits of a
count, with more behind them, are read as the count. -/
theorem value?_toDigits {n : Nat} (hn : n < wordLimit) (hrest : Closing rest) :
    value? depth (fuel + 1) (Nat.toDigits 10 n ++ rest) = some (integer n, rest) := by
  obtain ⟨c, more, hdigits⟩ := List.exists_cons_of_ne_nil (Nat.toDigits_ne_nil (n := n) (b := 10))
  have hc : isDigit c = true := isDigit_of_mem_toDigits (hdigits ▸ List.mem_cons_self)
  obtain ⟨hspace, hmark⟩ := isSpace_and_marks_of_isDigit hc
  have hskip : skipSpace (Nat.toDigits 10 n ++ rest) = c :: (more ++ rest) := by
    rw [hdigits]
    exact List.dropWhile_cons_of_neg (by simp [hspace])
  rw [value?_number hskip hmark, ← List.cons_append, ← hdigits,
    number?_append (number?_toDigits hn false) hrest]
  rfl

/-- Integers that fit a word are read back: `ReadsAs depth (integer n)`. -/
theorem ReadsAs.integer {n : Int} (h : FitsWord n) : ReadsAs depth (integer n) := by
  intro fuel rest hfuel hrest
  obtain ⟨fuel, rfl⟩ := Nat.exists_eq_add_of_lt hfuel
  refine ⟨rest, ?_, rfl⟩
  have hdigits : ∀ m : Nat, m.repr.toList = Nat.toDigits 10 m := by
    intro m
    rw [Nat.repr_eq_ofList_toDigits, String.toList_ofList]
  cases n with
  | ofNat n =>
    have hchars : (Json.integer (Int.ofNat n)).chars = Nat.toDigits 10 n := by
      rw [Json.chars, Int.toString_eq_repr, ← hdigits]
      rfl
    rw [hchars]
    exact value?_toDigits (Int.ofNat_lt.1 h.2) hrest
  | negSucc n =>
    have hchars : (Json.integer (Int.negSucc n)).chars = '-' :: Nat.toDigits 10 (n + 1) := by
      rw [Json.chars, Int.toString_eq_repr, ← hdigits]
      exact String.toList_append
    have hn : n + 1 ≤ twoPow 63 := by
      have hlow := h.1
      omega
    have hlimit : n + 1 < wordLimit := Nat.lt_of_le_of_lt hn (by decide)
    rw [hchars, List.cons_append, value?_minus rfl,
      number?_append (number?_toDigits hlimit true) hrest,
      Numeral.plain_negative (Nat.succ_pos n) hn]
    rfl

/-- Floats that are read back by themselves are read back in a document: `ReadsAs depth (real x)`.
The text of a float is some number, whatever it looks like, and a number is read with more behind
it. -/
theorem ReadsAs.real {x : Float} (h : ReadsBack x) : ReadsAs depth (real x) := by
  intro fuel rest hfuel hrest
  obtain ⟨fuel, rfl⟩ := Nat.exists_eq_add_of_lt hfuel
  unfold ReadsBack parse? at h
  obtain ⟨⟨j, r⟩, hvalue, hend⟩ := Option.bind_eq_some_iff.1 h
  rw [render, String.toList_ofList] at hvalue
  dsimp only at hend
  split at hend
  · rename_i hspace
    cases hend
    obtain ⟨c, more, hcs, hnumber⟩ := value?_eq_real hvalue
    have hskip : skipSpace ((Json.real x).chars ++ rest) = c :: (more ++ rest) := by
      rw [skipSpace_append (by rw [hcs]; nofun), hcs, List.cons_append]
    refine ⟨r ++ rest, ?_, ?_⟩
    · rcases hnumber with ⟨rfl, hnumber⟩ | ⟨hmark, hnumber⟩
      · rw [value?_minus hskip, number?_append hnumber hrest]
      · rw [value?_number hskip hmark, ← List.cons_append, number?_append hnumber hrest]
    · unfold skipSpace at hspace ⊢
      rw [List.dropWhile_append, if_pos hspace]
  · cases hend

/-! ### Arrays -/

/-- No items begin with a closing bracket: `items? depth fuel (']' :: cs) = none`. -/
theorem items?_bracket (depth fuel : Nat) (cs : List Char) :
    items? depth fuel (']' :: cs) = none := by
  cases fuel with
  | zero => rfl
  | succ fuel =>
    have hvalue : value? depth fuel (']' :: cs) = none := by
      cases fuel with
      | zero => rfl
      | succ fuel =>
        rw [value?_number (c := ']') rfl (by decide), number?_of_not_isDigit (by decide)]
    rw [items?, hvalue]
    rfl

/-- The last item: `items? depth (fuel + 1) cs = some ([j], rest)`. -/
theorem items?_last {j : Json} (hvalue : value? depth fuel cs = some (j, r))
    (hr : skipSpace r = ']' :: rest) : items? depth (fuel + 1) cs = some ([j], rest) := by
  simp [items?, hvalue, hr]

/-- `items? depth (fuel + 1) cs = some (j :: items, rest)`: an item before others. -/
theorem items?_cons {j : Json} {items : List Json} (hvalue : value? depth fuel cs = some (j, r))
    (hr : skipSpace r = ',' :: more) (hitems : items? depth fuel more = some (items, rest)) :
    items? depth (fuel + 1) cs = some (j :: items, rest) := by
  simp [items?, hvalue, hr, hitems]

/-- Items that are read back one by one are read back with commas between them:
`items? depth fuel (commaSeparated (charsOfItems items) ++ ']' :: rest) = some (items, rest)`. -/
theorem items?_charsOfItems {items : List Json} (hne : items ≠ [])
    (h : ∀ j ∈ items, ReadsAs depth j)
    (hfuel : (commaSeparated (charsOfItems items)).length + 1 < fuel) (rest : List Char) :
    items? depth fuel (commaSeparated (charsOfItems items) ++ ']' :: rest) =
      some (items, rest) := by
  induction items generalizing fuel with
  | nil => exact absurd rfl hne
  | cons j items ih =>
    obtain ⟨fuel, rfl⟩ : ∃ n, fuel = n + 1 := ⟨fuel - 1, by omega⟩
    cases items with
    | nil =>
      have hlength : j.chars.length < fuel := by
        simp only [charsOfItems, commaSeparated] at hfuel
        omega
      obtain ⟨r, hvalue, hr⟩ :=
        h j List.mem_cons_self hlength (closing_cons ']' (by decide) rest)
      exact items?_last hvalue hr
    | cons k items =>
      have hchars : commaSeparated (charsOfItems (j :: k :: items)) =
          j.chars ++ ',' :: commaSeparated (charsOfItems (k :: items)) := rfl
      rw [hchars, List.length_append, List.length_cons] at hfuel
      have hlength : j.chars.length < fuel := by omega
      have hmore : (commaSeparated (charsOfItems (k :: items))).length + 1 < fuel := by omega
      have hitems := ih (List.cons_ne_nil k items)
        (fun i hi => h i (List.mem_cons_of_mem j hi)) hmore
      obtain ⟨r, hvalue, hr⟩ :=
        h j List.mem_cons_self hlength (closing_cons ',' (by decide) _)
      rw [hchars, List.append_assoc, List.cons_append]
      exact items?_cons hvalue hr hitems

/-- An array with items: `more) : value? depth (fuel + 1) ('[' :: cs)` is
`(items? (depth - 1) fuel (skipSpace cs)).map fun e => (nested depth (array e.1), e.2)`. -/
theorem value?_array (hcs : ∀ more, skipSpace cs ≠ ']' :: more) :
    value? depth (fuel + 1) ('[' :: cs) =
      (items? (depth - 1) fuel (skipSpace cs)).map fun e => (nested depth (array e.1), e.2) := by
  have hskip : skipSpace ('[' :: cs) = '[' :: cs := rfl
  rw [value?, hskip]
  split
  case h_5 heq =>
    cases heq
    split
    · rename_i more heq
      exact absurd heq (hcs more)
    · rfl
  case h_8 hbracket _ _ => exact absurd rfl (hbracket cs)
  all_goals
    rename_i heq
    cases heq

/-- Arrays of what is read back are read back, one level deeper:
`ReadsAs (depth + 1) (array items)`. -/
theorem ReadsAs.array {items : List Json} (h : ∀ j ∈ items, ReadsAs depth j) :
    ReadsAs (depth + 1) (array items) := by
  intro fuel rest hfuel hrest
  obtain ⟨fuel, rfl⟩ : ∃ n, fuel = n + 1 := ⟨fuel - 1, by omega⟩
  refine ⟨rest, ?_, rfl⟩
  by_cases hne : items = []
  · subst hne
    rfl
  · have hlength : (commaSeparated (charsOfItems items)).length + 1 < fuel := by
      rw [Json.chars, List.length_append, List.length_cons, List.length_singleton] at hfuel
      omega
    have hitems := items?_charsOfItems hne h hlength rest
    rw [← items?_skipSpace] at hitems
    rw [Json.chars, List.append_assoc, List.cons_append, List.singleton_append, value?_array,
      Nat.add_sub_cancel, hitems]
    · rfl
    · intro more hbracket
      rw [hbracket, items?_bracket] at hitems
      cases hitems

/-! ### Objects -/

/-- A member in front of a closing brace or of other members. -/
theorem members?_quoted (depth fuel : Nat) (name : String) (cs : List Char) :
    members? depth (fuel + 1) (quoted name ++ ':' :: cs) =
      (value? depth fuel cs).bind fun e =>
        match skipSpace e.2 with
        | '\x7d' :: rest => some ([(some name, e.1)], rest)
        | ',' :: rest =>
            (members? depth fuel rest).map fun m => ((some name, e.1) :: m.1, m.2)
        | _ => none := by
  obtain ⟨draft, hquoted, hbody, hdraft⟩ := textBody?_quoted name (':' :: cs)
  have hskip : skipSpace (quoted name ++ ':' :: cs) =
      '"' :: (name.toList.flatMap escaped ++ '"' :: ':' :: cs) := by
    rw [hquoted]
    rfl
  have hcolon : skipSpace (':' :: cs) = ':' :: cs := rfl
  simp only [members?, hskip, hbody, hcolon, hdraft, Option.map_eq_bind, Option.bind_eq_bind,
    Option.bind_some]
  rfl

/-- `members? depth (fuel + 1) (quoted name ++ ':' :: cs) = some ([(some name, j)], rest)`: the last
member. -/
theorem members?_last {name : String} {j : Json} (hvalue : value? depth fuel cs = some (j, r))
    (hr : skipSpace r = '\x7d' :: rest) :
    members? depth (fuel + 1) (quoted name ++ ':' :: cs) = some ([(some name, j)], rest) := by
  simp [members?_quoted, hvalue, hr]

/-- A member before others: `members? depth (fuel + 1) (quoted name ++ ':' :: cs)` is
`some ((some name, j) :: members, rest)`. -/
theorem members?_cons {name : String} {j : Json} {members : List (Option String × Json)}
    (hvalue : value? depth fuel cs = some (j, r)) (hr : skipSpace r = ',' :: more)
    (hmembers : members? depth fuel more = some (members, rest)) :
    members? depth (fuel + 1) (quoted name ++ ':' :: cs) =
      some ((some name, j) :: members, rest) := by
  simp [members?_quoted, hvalue, hr, hmembers]

/-- Members whose values are read back one by one are read back with commas between them:
`members? depth fuel (commaSeparated (charsOfMembers members) ++ '\x7d' :: rest)` is
`some (members.map fun m => (some m.1, m.2), rest)`. -/
theorem members?_charsOfMembers {members : List (String × Json)} (hne : members ≠ [])
    (h : ∀ m ∈ members, ReadsAs depth m.2)
    (hfuel : (commaSeparated (charsOfMembers members)).length + 1 < fuel) (rest : List Char) :
    members? depth fuel (commaSeparated (charsOfMembers members) ++ '\x7d' :: rest) =
      some (members.map fun m => (some m.1, m.2), rest) := by
  induction members generalizing fuel with
  | nil => exact absurd rfl hne
  | cons m members ih =>
    obtain ⟨name, j⟩ := m
    have hj : ReadsAs depth j := h (name, j) List.mem_cons_self
    obtain ⟨fuel, rfl⟩ : ∃ n, fuel = n + 1 := ⟨fuel - 1, by omega⟩
    cases members with
    | nil =>
      have hchars : commaSeparated (charsOfMembers [(name, j)]) =
          quoted name ++ ':' :: j.chars := rfl
      rw [hchars, List.length_append, List.length_cons] at hfuel
      have hlength : j.chars.length < fuel := by omega
      obtain ⟨r, hvalue, hr⟩ := hj hlength (closing_cons '\x7d' (by decide) rest)
      rw [hchars, List.append_assoc, List.cons_append]
      exact members?_last hvalue hr
    | cons k members =>
      have hchars : commaSeparated (charsOfMembers ((name, j) :: k :: members)) =
          quoted name ++ ':' :: j.chars ++ ',' :: commaSeparated (charsOfMembers (k :: members)) :=
        rfl
      rw [hchars, List.length_append, List.length_append, List.length_cons, List.length_cons]
        at hfuel
      have hlength : j.chars.length < fuel := by omega
      have hmore : (commaSeparated (charsOfMembers (k :: members))).length + 1 < fuel := by omega
      have hmembers := ih (List.cons_ne_nil k members)
        (fun i hi => h i (List.mem_cons_of_mem _ hi)) hmore
      obtain ⟨r, hvalue, hr⟩ := hj hlength (closing_cons ',' (by decide) _)
      rw [hchars, List.append_assoc, List.append_assoc, List.cons_append, List.cons_append]
      exact members?_cons hvalue hr hmembers

/-- `ofMembers (members.map fun m => (some m.1, m.2)) = object members`: members whose names are all
texts are an object. -/
theorem ofMembers_map (members : List (String × Json)) :
    ofMembers (members.map fun m => (some m.1, m.2)) = object members := by
  have hall : (members.map fun m => (some m.1, m.2)).mapM
      (fun m : Option String × Json => m.1.map fun name => (name, m.2)) = some members := by
    rw [List.mapM_map]
    exact (List.mapM_pure (m := Option) (f := id) (l := members)).trans (by rw [List.map_id]; rfl)
  rw [ofMembers, hall]

/-- Objects of what is read back are read back, one level deeper:
`ReadsAs (depth + 1) (object members)`. -/
theorem ReadsAs.object {members : List (String × Json)} (h : ∀ m ∈ members, ReadsAs depth m.2) :
    ReadsAs (depth + 1) (object members) := by
  intro fuel rest hfuel hrest
  obtain ⟨fuel, rfl⟩ : ∃ n, fuel = n + 1 := ⟨fuel - 1, by omega⟩
  refine ⟨rest, ?_, rfl⟩
  by_cases hne : members = []
  · subst hne
    rfl
  · have hlength : (commaSeparated (charsOfMembers members)).length + 1 < fuel := by
      rw [Json.chars, List.length_append, List.length_cons, List.length_singleton] at hfuel
      omega
    have hmembers := members?_charsOfMembers hne h hlength rest
    -- a quote stands in front of the first name
    obtain ⟨more, hquote⟩ : ∃ more, commaSeparated (charsOfMembers members) = '"' :: more := by
      cases members with
      | nil => exact absurd rfl hne
      | cons m members => cases members <;> exact ⟨_, rfl⟩
    rw [Json.chars, List.append_assoc, List.cons_append, List.singleton_append]
    rw [hquote, List.cons_append] at hmembers ⊢
    have hdef : value? (depth + 1) (fuel + 1) ('\x7b' :: '"' :: (more ++ '\x7d' :: rest)) =
        (members? depth fuel ('"' :: (more ++ '\x7d' :: rest))).map fun e =>
          (nested (depth + 1) (ofMembers e.1), e.2) := rfl
    rw [hdef, hmembers, Option.map_some, ofMembers_map]
    rfl

/-! ## (4) Whole documents -/

/-- **A document is read back** in front of what may follow it: `ReadsAs depth j`. -/
theorem Readable.readsAs {j : Json} (h : Readable depth j) : ReadsAs depth j := by
  induction h with
  | null => exact ReadsAs.null
  | bool b => exact ReadsAs.bool b
  | integer h => exact ReadsAs.integer h
  | real h => exact ReadsAs.real h
  | text s => exact ReadsAs.text s
  | array _ ih => exact ReadsAs.array ih
  | object _ ih => exact ReadsAs.object ih

/-- **The text of a document is read as the document**: `parse? j.render = some j`. -/
theorem parse?_render {j : Json} (h : Readable depthLimit j) : parse? j.render = some j := by
  have hnil : Closing [] := nofun
  obtain ⟨r, hvalue, hr⟩ := h.readsAs (Nat.lt_succ_self j.chars.length) hnil
  rw [List.append_nil] at hvalue
  rw [parse?, render, String.toList_ofList]
  dsimp only [Option.bind_eq_bind]
  rw [hvalue, Option.bind_some]
  dsimp only
  rw [hr]
  rfl

mutual

/-- A document as it stands in its text: what has no value there is nothing. -/
def printed : Json → Json
  | null => null
  | bool b => bool b
  | integer n => integer n
  | real x => if x.isFinite then real x else null
  | text s => text s
  | unreadable => null
  | array items => array (printedItems items)
  | object members => object (printedMembers members)

/-- The items of an array as they stand in its text. -/
def printedItems : List Json → List Json
  | [] => []
  | item :: rest => item.printed :: printedItems rest

/-- The members of an object as they stand in its text. -/
def printedMembers : List (String × Json) → List (String × Json)
  | [] => []
  | (key, value) :: rest => (key, value.printed) :: printedMembers rest

end

mutual

/-- A document has the text of what stands in it: `∀ j : Json, j.printed.chars = j.chars`. -/
theorem chars_printed : ∀ j : Json, j.printed.chars = j.chars
  | null => rfl
  | bool b => rfl
  | integer n => rfl
  | real x => by
      rw [printed]
      split
      · rfl
      · rename_i hx
        rw [chars, chars, renderReal, if_neg hx]
  | text s => rfl
  | unreadable => rfl
  | array items => by rw [printed, chars, chars, charsOfItems_printedItems]
  | object members => by rw [printed, chars, chars, charsOfMembers_printedMembers]

/-- The items of a document have the texts of what stands in them:
`∀ items : List Json, charsOfItems (printedItems items) = charsOfItems items`. -/
theorem charsOfItems_printedItems :
    ∀ items : List Json, charsOfItems (printedItems items) = charsOfItems items
  | [] => rfl
  | item :: rest => by
      rw [printedItems, charsOfItems, charsOfItems, chars_printed item,
        charsOfItems_printedItems rest]

/-- The members of a document have the texts of what stands in them: for all
`members : List (String × Json)`,
`charsOfMembers (printedMembers members) = charsOfMembers members`. -/
theorem charsOfMembers_printedMembers :
    ∀ members : List (String × Json),
      charsOfMembers (printedMembers members) = charsOfMembers members
  | [] => rfl
  | (key, value) :: rest => by
      rw [printedMembers, charsOfMembers, charsOfMembers, chars_printed value,
        charsOfMembers_printedMembers rest]

end

/-- **The text of any document is read as what stands in it**, if that is read back:
`parse? j.render = some j.printed`. -/
theorem parse?_render_printed {j : Json} (h : Readable depthLimit j.printed) :
    parse? j.render = some j.printed := by
  have hrender : j.printed.render = j.render := congrArg String.ofList (chars_printed j)
  rw [← hrender]
  exact parse?_render h

/-- `printedItems items = items.map printed`: the items of an array are printed one by one. -/
theorem printedItems_eq_map (items : List Json) : printedItems items = items.map printed := by
  induction items with
  | nil => rfl
  | cons item rest ih => rw [printedItems, ih, List.map_cons]

end PanelQuery.Json
