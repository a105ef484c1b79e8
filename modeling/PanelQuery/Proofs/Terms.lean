import Mathlib.Data.List.Find
import Mathlib.Data.List.Infix
import PanelQuery.Proofs.Text.Bytes
import PanelQuery.Proofs.Time.Sorted
import PanelQuery.Terms

/-! # Terms of a text

How the arguments of a text are found, against a scan of the text from left to right.

* **`longest?`** — the longest of some phrases, the first of them among equals;
* **`scanFrom`** — a scan that takes a phrase where one counts and goes on right behind it, and else
  moves on by one place;
* **`PhraseTable.scan`** — the scan in which every phrase counts where it stands;
* **`PhraseTable.scanFound`** — the scan in which a phrase counts only where its own search finds
  it, which goes on behind each find;
* **`PhraseTable.resolve_scans`** — the arguments of a text are those of the second scan, and when
  that is the first one. -/

namespace PanelQuery

/-! ## (1) Scans -/

/-- The longest of some phrases, the first of them among equals. -/
def longest? (phrases : PhraseTable) : Option Phrase :=
  phrases.find? fun p => phrases.all fun q => decide (q.words.length ≤ p.words.length)

/-- `Phrase.hit p place`: a phrase as a hit. -/
def Phrase.hit (p : Phrase) (place : Nat) : Hit := ⟨place, p.words.length, p.argument⟩

/-- `(p.hit place).place = place`: a hit is at its place. -/
@[simp] theorem Phrase.hit_place (p : Phrase) (place : Nat) : (p.hit place).place = place := rfl

/-- `(p.hit place).size = p.words.length`: a hit is as long as its phrase. -/
@[simp] theorem Phrase.hit_size (p : Phrase) (place : Nat) :
    (p.hit place).size = p.words.length := rfl

/-- A scan of a text that starts at a place. `choose` tells which phrase counts at a place, in front
of what is left of the text. The next `skip` characters belong to the last phrase. -/
def scanFrom (choose : Nat → List Char → Option Phrase) (place skip : Nat) : List Char → List Hit
  | [] => []
  | c :: rest =>
      match skip with
      | skip + 1 => scanFrom choose (place + 1) skip rest
      | 0 =>
          match choose place (c :: rest) with
          | some p => p.hit place :: scanFrom choose (place + 1) (p.words.length - 1) rest
          | none => scanFrom choose (place + 1) 0 rest

/-- `Phrase.startsIn p text`: whether a phrase stands at the start of a text; one without words
stands nowhere. -/
def Phrase.startsIn (p : Phrase) (text : List Char) : Bool :=
  !p.words.isEmpty && p.words.isPrefixOf text

namespace PhraseTable

/-- The longest phrase that stands at a place, in front of what is left of a text. -/
def standing? (table : PhraseTable) (_place : Nat) (rest : List Char) : Option Phrase :=
  longest? (table.filter fun p => p.startsIn rest)

/-- `scan table text`: the scan of a text in which at each place the longest phrase counts that
stands there. -/
def scan (table : PhraseTable) (text : List Char) : List Hit := scanFrom table.standing? 0 0 text

/-- `finds text place p`: whether the search for a phrase finds it at a place of a text. -/
def finds (text : List Char) (place : Nat) (p : Phrase) : Bool :=
  (occurrences p.words text).contains place

/-- The longest phrase that is found at a place of a text. -/
def found? (table : PhraseTable) (text : List Char) (place : Nat) (_rest : List Char) :
    Option Phrase :=
  longest? (table.filter (finds text place))

/-- `scanFound table text`: the scan of a text in which at each place the longest phrase counts that
is found there. -/
def scanFound (table : PhraseTable) (text : List Char) : List Hit :=
  scanFrom (table.found? text) 0 0 text

/-- `chosen table text`: the hits that make the arguments of a text. -/
def chosen (table : PhraseTable) (text : List Char) : List Hit :=
  uncovered 0 ((table.hits text).mergeSort Hit.precedes)

end PhraseTable

/-- `Hit.argumentIn text h`: the argument of a hit, with the words of the text that it was found
by. -/
def Hit.argumentIn (text : List Char) (h : Hit) : Argument :=
  { h.argument with originalText := String.ofList ((text.drop h.place).take h.size) }

/-! ## (2) Occurrences -/

section Occurrences

variable {words text : List Char} {n skip i : Nat}

/-- **What is found stands there**:
`∃ k, skip ≤ k ∧ i = n + k ∧ k < text.length ∧ words <+: text.drop k`. -/
theorem of_mem_occurrencesFrom (h : i ∈ occurrencesFrom words n skip text) :
    ∃ k, skip ≤ k ∧ i = n + k ∧ k < text.length ∧ words <+: text.drop k := by
  induction text generalizing n skip with
  | nil => cases h
  | cons c rest ih =>
    -- a place further on, as one of the rest
    have hstep : ∀ {skip'}, i ∈ occurrencesFrom words (n + 1) skip' rest → ∃ k, skip' + 1 ≤ k ∧
        i = n + k ∧ k < (c :: rest).length ∧ words <+: (c :: rest).drop k := by
      intro skip' hi
      obtain ⟨k, hskip, rfl, hk, hbegins⟩ := ih hi
      exact ⟨k + 1, by omega, by omega, Nat.succ_lt_succ hk, hbegins⟩
    cases skip with
    | succ skip => exact hstep h
    | zero =>
      rw [occurrencesFrom] at h
      split at h
      · rename_i hbegins
        rcases List.mem_cons.1 h with rfl | h
        · exact ⟨0, Nat.le_refl 0, rfl, Nat.succ_pos _, List.isPrefixOf_iff_prefix.1 hbegins⟩
        · obtain ⟨k, -, hk⟩ := hstep h
          exact ⟨k, Nat.zero_le k, hk⟩
      · obtain ⟨k, -, hk⟩ := hstep h
        exact ⟨k, Nat.zero_le k, hk⟩

/-- Words are found from left to right: `(occurrencesFrom words n skip text).Pairwise (· < ·)`. -/
theorem pairwise_occurrencesFrom (words : List Char) (n skip : Nat) (text : List Char) :
    (occurrencesFrom words n skip text).Pairwise (· < ·) := by
  induction text generalizing n skip with
  | nil => exact .nil
  | cons c rest ih =>
    cases skip with
    | succ skip => exact ih (n + 1) skip
    | zero =>
      rw [occurrencesFrom]
      split
      · refine .cons (fun i hi => ?_) (ih _ _)
        obtain ⟨k, -, rfl, -⟩ := of_mem_occurrencesFrom hi
        omega
      · exact ih _ _

/-- Words of which no end is also a beginning: two of their occurrences never overlap. -/
def Unbordered (words : List Char) : Prop :=
  ∀ k < words.length, 0 < k → ¬words.drop k <+: words

instance (words : List Char) : Decidable (Unbordered words) :=
  inferInstanceAs (Decidable (∀ k < words.length, 0 < k → ¬words.drop k <+: words))

/-- Where words stand twice with less than their length between, they are bordered:
`words.length ≤ k`. -/
theorem Unbordered.le_of_isPrefix (h : Unbordered words) {k : Nat} (hk : 0 < k)
    (hfirst : words <+: text) (hsecond : words <+: text.drop k) : words.length ≤ k := by
  refine Nat.le_of_not_lt fun hlt => h k hlt hk ?_
  refine List.prefix_of_prefix_length_le (hfirst.drop k) hsecond ?_
  rw [List.length_drop]
  omega

/-- **Unbordered words are found wherever they stand**:
`n + k ∈ occurrencesFrom words n skip text`. -/
theorem Unbordered.mem_occurrencesFrom (h : Unbordered words) {k : Nat} (hskip : skip ≤ k)
    (hk : k < text.length) (hbegins : words <+: text.drop k) :
    n + k ∈ occurrencesFrom words n skip text := by
  induction text generalizing n skip k with
  | nil => cases hk
  | cons c rest ih =>
    -- a place further on is one of the rest
    have hstep : ∀ {skip'}, 0 < k → skip' + 1 ≤ k →
        n + k ∈ occurrencesFrom words (n + 1) skip' rest := by
      intro skip' hpos hle
      obtain ⟨k, rfl⟩ := Nat.exists_eq_add_one_of_ne_zero (Nat.ne_of_gt hpos)
      have hrest := ih (n := n + 1) (Nat.le_of_succ_le_succ hle) (Nat.lt_of_succ_lt_succ hk) hbegins
      rwa [Nat.add_right_comm] at hrest
    cases skip with
    | succ skip => exact hstep (by omega) hskip
    | zero =>
      rw [occurrencesFrom]
      rcases Nat.eq_zero_or_pos k with rfl | hpos
      · rw [List.drop_zero] at hbegins
        rw [if_pos (List.isPrefixOf_iff_prefix.2 hbegins)]
        exact List.mem_cons_self
      · split
        · rename_i hfirst
          have hle := h.le_of_isPrefix hpos (List.isPrefixOf_iff_prefix.1 hfirst) hbegins
          exact List.mem_cons_of_mem _ (hstep hpos (by omega))
        · exact hstep hpos hpos

end Occurrences

/-! ## (3) Hits in order -/

namespace Hit

variable {a b : Hit}

/-- `a.precedes b = true ↔ a.place < b.place ∨ a.place = b.place ∧ b.size ≤ a.size`: what comes
before a hit starts first, or at the same place and is no shorter. -/
theorem precedes_iff :
    a.precedes b = true ↔ a.place < b.place ∨ a.place = b.place ∧ b.size ≤ a.size := by
  unfold precedes
  split
  · rename_i heq
    rw [decide_eq_true_eq]
    omega
  · rw [decide_eq_true_eq]
    omega

/-- `a.precedes c = true`: the order of hits is transitive. -/
theorem precedes_trans (a b c : Hit) (hab : a.precedes b = true) (hbc : b.precedes c = true) :
    a.precedes c = true := by
  rw [precedes_iff] at hab hbc ⊢
  omega

/-- `(a.precedes b || b.precedes a) = true`: of two hits one comes before the other. -/
theorem precedes_total (a b : Hit) : (a.precedes b || b.precedes a) = true := by
  rw [Bool.or_eq_true, precedes_iff, precedes_iff]
  omega

end Hit

/-- `hitsAt place hits`: the hits at a place. -/
def hitsAt (place : Nat) (hits : List Hit) : List Hit := hits.filter fun h => h.place == place

/-- The first of the longest hits. -/
def longestHit? (hits : List Hit) : Option Hit :=
  hits.find? fun h => hits.all fun k => decide (k.size ≤ h.size)

/-- **Sorted hits begin at each place with the longest**, the first of them among equals:
`(hitsAt place (hits.mergeSort Hit.precedes)).head? = longestHit? (hitsAt place hits)`. -/
theorem head?_hitsAt_mergeSort (hits : List Hit) (place : Nat) :
    (hitsAt place (hits.mergeSort Hit.precedes)).head? = longestHit? (hitsAt place hits) := by
  have hperm : (hitsAt place (hits.mergeSort Hit.precedes)).Perm (hitsAt place hits) :=
    (hits.mergeSort_perm Hit.precedes).filter _
  have hsorted : (hitsAt place (hits.mergeSort Hit.precedes)).Pairwise
      fun a b => a.precedes b = true :=
    (List.pairwise_mergeSort Hit.precedes_trans Hit.precedes_total hits).filter _
  cases hat : hitsAt place (hits.mergeSort Hit.precedes) with
  | nil =>
    rw [hat] at hperm
    rw [← hperm.nil_eq]
    rfl
  | cons h rest =>
    have hplace : ∀ k ∈ hitsAt place (hits.mergeSort Hit.precedes), k.place = place :=
      fun k hk => beq_iff_eq.1 (List.mem_filter.1 hk).2
    rw [hat] at hperm hsorted hplace
    have hmax : ∀ k ∈ hitsAt place hits, k.size ≤ h.size := by
      intro k hk
      rcases List.mem_cons.1 (hperm.mem_iff.2 hk) with rfl | hk
      · exact Nat.le_refl _
      · have hle := Hit.precedes_iff.1 (List.rel_of_pairwise_cons hsorted hk)
        have hfirst := hplace h List.mem_cons_self
        have hother := hplace k (List.mem_cons_of_mem h hk)
        omega
    -- those of its size are in the order of all hits
    have hlevel : (hits.mergeSort Hit.precedes).filter
        (fun k => k.size == h.size && k.place == place) =
          hits.filter fun k => k.size == h.size && k.place == place := by
      refine filter_mergeSort_of_pairwise Hit.precedes_trans Hit.precedes_total ?_
      refine List.pairwise_of_forall_mem_list fun a ha b hb => Hit.precedes_iff.2 (.inr ?_)
      have ha := (List.mem_filter.1 ha).2
      have hb := (List.mem_filter.1 hb).2
      rw [Bool.and_eq_true, beq_iff_eq, beq_iff_eq] at ha hb
      omega
    have hfirst : ((hitsAt place hits).filter fun k => k.size == h.size).head? = some h := by
      rw [hitsAt, List.filter_filter, ← hlevel, ← List.filter_filter, ← hitsAt, hat,
        List.filter_cons_of_pos (p := fun k : Hit => k.size == h.size) (beq_self_eq_true h.size),
        List.head?_cons]
    have hmem : h ∈ hitsAt place hits := hperm.mem_iff.1 List.mem_cons_self
    rw [List.head?_cons, ← hfirst, List.head?_filter, longestHit?]
    -- the longest are those of its size
    refine List.find?_congr fun k hk => ?_
    rw [Bool.eq_iff_iff, beq_iff_eq, List.all_eq_true]
    simp only [decide_eq_true_eq]
    constructor
    · intro hsize x hx
      rw [hsize]
      exact hmax x hx
    · intro hall
      exact Nat.le_antisymm (hmax k hk) (hall h hmem)

/-- `uncovered covered (hits ++ others) = uncovered covered others`: hits that start before the text
that is left belong to another one. -/
theorem uncovered_append {covered : Nat} {hits : List Hit} (h : ∀ k ∈ hits, k.place < covered)
    (others : List Hit) : uncovered covered (hits ++ others) = uncovered covered others := by
  induction hits with
  | nil => rfl
  | cons k hits ih =>
    obtain ⟨hk, hrest⟩ := List.forall_mem_cons.1 h
    rw [List.cons_append, uncovered, if_pos hk, ih hrest]

/-- `uncovered covered hits = uncovered covered' hits`: before the first hit it does not matter how
much of the text is covered. -/
theorem uncovered_congr {covered covered' : Nat} {hits : List Hit}
    (h : ∀ k ∈ hits, covered ≤ k.place ∧ covered' ≤ k.place) :
    uncovered covered hits = uncovered covered' hits := by
  cases hits with
  | nil => rfl
  | cons k hits =>
    obtain ⟨hle, hle'⟩ := h k List.mem_cons_self
    rw [uncovered, uncovered, if_neg (Nat.not_lt.2 hle), if_neg (Nat.not_lt.2 hle')]

/-- Hits from a place on are those at the place and then those further on:
`(hits.filter fun h => decide (n ≤ h.place))` is
`hitsAt n hits ++ hits.filter fun h => decide (n + 1 ≤ h.place)`. -/
theorem filter_le_eq {hits : List Hit} (hsorted : hits.Pairwise fun a b => a.place ≤ b.place)
    (n : Nat) : (hits.filter fun h => decide (n ≤ h.place)) =
      hitsAt n hits ++ hits.filter fun h => decide (n + 1 ≤ h.place) := by
  induction hits with
  | nil => rfl
  | cons h hits ih =>
    obtain ⟨hh, hsorted⟩ := List.pairwise_cons.1 hsorted
    have hrest := ih hsorted
    unfold hitsAt at hrest ⊢
    rcases Nat.lt_trichotomy h.place n with hlt | heq | hgt
    · rw [List.filter_cons_of_neg (by simp; omega), List.filter_cons_of_neg (by simp; omega),
        List.filter_cons_of_neg (by simp; omega), hrest]
    · rw [List.filter_cons_of_pos (by simp; omega), List.filter_cons_of_pos (by simp; omega),
        List.filter_cons_of_neg (by simp; omega), hrest, List.cons_append]
    · -- all others are further on as well
      have hnone : (hits.filter fun k => k.place == n) = [] := by
        refine List.filter_eq_nil_iff.2 fun k hk heq => ?_
        have hle := hh k hk
        have heq := beq_iff_eq.1 heq
        omega
      rw [hnone, List.nil_append] at hrest
      rw [List.filter_cons_of_pos (by simp; omega), List.filter_cons_of_neg (by simp; omega),
        List.filter_cons_of_pos (by simp; omega), hrest, hnone, List.nil_append]

/-- **Taking sorted hits that do not overlap is a scan** in which at each place the first of its
hits counts: `uncovered (n + skip) (hits.filter fun h => decide (n ≤ h.place))` is
`scanFrom choose n skip rest`. -/
theorem uncovered_eq_scanFrom {hits : List Hit} {choose : Nat → List Char → Option Phrase}
    (hsorted : hits.Pairwise fun a b => a.place ≤ b.place) (hsize : ∀ h ∈ hits, 0 < h.size)
    (hchoose : ∀ n rest, (hitsAt n hits).head? = (choose n rest).map fun p => p.hit n)
    (rest : List Char) (n skip : Nat) (hend : ∀ h ∈ hits, h.place < n + rest.length) :
    uncovered (n + skip) (hits.filter fun h => decide (n ≤ h.place)) =
      scanFrom choose n skip rest := by
  -- on what is left of the text; the hits are those that start in it
  induction rest generalizing n skip with
  | nil =>
    have hnone : (hits.filter fun h => decide (n ≤ h.place)) = [] :=
      List.filter_eq_nil_iff.2 fun h hh hle =>
        Nat.not_lt.2 (of_decide_eq_true hle) (hend h hh)
    rw [hnone]
    rfl
  | cons c rest ih =>
    have hstep := fun skip => ih (n + 1) skip fun h hh => by
      have hlt := hend h hh
      rw [List.length_cons] at hlt
      omega
    have hat : ∀ h ∈ hitsAt n hits, h ∈ hits ∧ h.place = n := fun h hh =>
      ⟨(List.mem_filter.1 hh).1, beq_iff_eq.1 (List.mem_filter.1 hh).2⟩
    have hfurther : ∀ h ∈ hits.filter fun h => decide (n + 1 ≤ h.place), n + 1 ≤ h.place :=
      fun h hh => of_decide_eq_true (List.mem_filter.1 hh).2
    rw [filter_le_eq hsorted]
    cases skip with
    | succ skip =>
      -- hits at the place overlap with the one before
      rw [uncovered_append fun h hh => by rw [(hat h hh).2]; omega, scanFrom, ← hstep skip]
      congr 1
      omega
    | zero =>
      have hhead := hchoose n (c :: rest)
      rw [scanFrom]
      cases hits_at : hitsAt n hits with
      | nil =>
        rw [hits_at, List.head?_nil] at hhead
        rw [Option.map_eq_none_iff.1 hhead.symm, List.nil_append, ← hstep 0]
        exact uncovered_congr fun h hh => ⟨Nat.le_of_succ_le (hfurther h hh), hfurther h hh⟩
      | cons first others =>
        rw [hits_at, List.head?_cons] at hhead
        rw [hits_at] at hat
        obtain ⟨p, hp, rfl⟩ := Option.map_eq_some_iff.1 hhead.symm
        have hpos : 0 < p.words.length := hsize _ (hat _ List.mem_cons_self).1
        rw [hp]
        dsimp only
        have hfree : ¬(p.hit n).place < n + 0 := Nat.lt_irrefl n
        have hcovered : (p.hit n).place + (p.hit n).size = n + 1 + (p.words.length - 1) := by
          simp only [Phrase.hit_place, Phrase.hit_size]
          omega
        rw [List.cons_append, uncovered, if_neg hfree, hcovered, ← hstep]
        -- all others at the place overlap with the first
        refine congrArg _ (uncovered_append (fun h hh => ?_) _)
        rw [(hat h (List.mem_cons_of_mem _ hh)).2]
        omega

/-! ## (4) What is found -/

namespace PhraseTable

variable {table : PhraseTable} {text : List Char}

/-- What is found of a phrase, which has words:
`words ≠ [] ∧ place < text.length ∧ words <+: text.drop place`. -/
theorem mem_occurrences {words : List Char} {place : Nat} (h : place ∈ occurrences words text) :
    words ≠ [] ∧ place < text.length ∧ words <+: text.drop place := by
  unfold occurrences at h
  split at h
  · cases h
  · rename_i hwords
    obtain ⟨k, -, rfl, hk, hbegins⟩ := of_mem_occurrencesFrom h
    rw [Nat.zero_add]
    exact ⟨fun hnil => hwords (List.isEmpty_iff.2 hnil), hk, hbegins⟩

/-- `h ∈ table.hits text ↔ ∃ p ∈ table, finds text h.place p = true ∧ h = p.hit h.place`: the hits
are the phrases where they are found. -/
theorem mem_hits {h : Hit} : h ∈ table.hits text ↔
    ∃ p ∈ table, finds text h.place p = true ∧ h = p.hit h.place := by
  unfold hits
  simp only [List.mem_flatMap, List.mem_map, finds, List.contains_iff_mem]
  constructor
  · rintro ⟨p, hp, place, hplace, rfl⟩
    exact ⟨p, hp, hplace, rfl⟩
  · rintro ⟨p, hp, hplace, heq⟩
    exact ⟨p, hp, h.place, hplace, heq.symm⟩

/-- A phrase is found once at a place, or not at all:
`hitsAt place ((occurrences p.words text).map p.hit)` is
`if finds text place p then [p.hit place] else []`. -/
theorem hitsAt_map_occurrences (p : Phrase) (text : List Char) (place : Nat) :
    hitsAt place ((occurrences p.words text).map p.hit) =
      if finds text place p then [p.hit place] else [] := by
  have hnodup : (occurrences p.words text).Nodup := by
    unfold occurrences
    split
    · exact List.nodup_nil
    · exact (pairwise_occurrencesFrom _ _ _ _).imp fun h => Nat.ne_of_lt h
  have hfilter : hitsAt place ((occurrences p.words text).map p.hit) =
      ((occurrences p.words text).filter fun n => n == place).map p.hit := by
    rw [hitsAt, List.filter_map]
    rfl
  unfold finds
  rw [hfilter, List.filter_beq, hnodup.count]
  simp only [List.contains_iff_mem]
  split <;> rfl

/-- At one place there is a hit for each phrase that is found there:
`hitsAt place (table.hits text) = (table.filter (finds text place)).map fun p => p.hit place`. -/
theorem hitsAt_hits (table : PhraseTable) (text : List Char) (place : Nat) :
    hitsAt place (table.hits text) =
      (table.filter (finds text place)).map fun p => p.hit place := by
  have hphrase := fun p => hitsAt_map_occurrences p text place
  unfold hits
  induction table with
  | nil => rfl
  | cons p table ih =>
    rw [List.flatMap_cons, List.filter_cons]
    unfold hitsAt at hphrase ih ⊢
    rw [List.filter_append, ih]
    refine (congrArg (· ++ _) (hphrase p)).trans ?_
    split <;> rfl

/-- The longest of hits at one place is that of the longest phrase:
`longestHit? (phrases.map fun p => p.hit place) = (longest? phrases).map fun p => p.hit place`. -/
theorem longestHit?_map (phrases : PhraseTable) (place : Nat) :
    longestHit? (phrases.map fun p => p.hit place) =
      (longest? phrases).map fun p => p.hit place := by
  unfold longestHit? longest?
  rw [List.find?_map]
  refine congrArg _ (List.find?_congr fun p _ => ?_)
  rw [Function.comp_apply, List.all_map]
  rfl

/-- **The hits that make the arguments of a text** are those of a scan in which a phrase counts
where it is found: `table.chosen text = table.scanFound text`. -/
theorem chosen_eq_scanFound (table : PhraseTable) (text : List Char) :
    table.chosen text = table.scanFound text := by
  have hall : ∀ h ∈ (table.hits text).mergeSort Hit.precedes, 0 < h.size ∧
      h.place < 0 + text.length := by
    intro h hh
    obtain ⟨p, -, hfinds, heq⟩ := mem_hits.1 (List.mem_mergeSort.1 hh)
    obtain ⟨hwords, hplace, -⟩ := mem_occurrences (List.contains_iff_mem.1 hfinds)
    rw [heq, Nat.zero_add]
    exact ⟨List.length_pos_of_ne_nil hwords, hplace⟩
  have hsorted : ((table.hits text).mergeSort Hit.precedes).Pairwise
      fun a b => a.place ≤ b.place := by
    refine (List.pairwise_mergeSort Hit.precedes_trans Hit.precedes_total _).imp fun h => ?_
    have hprecedes := Hit.precedes_iff.1 h
    omega
  have hchoose : ∀ place rest,
      (hitsAt place ((table.hits text).mergeSort Hit.precedes)).head? =
        (table.found? text place rest).map fun p => p.hit place := by
    intro place rest
    rw [head?_hitsAt_mergeSort, hitsAt_hits, longestHit?_map, found?]
  have hscan := uncovered_eq_scanFrom hsorted (fun h hh => (hall h hh).1) hchoose text 0 0
    fun h hh => (hall h hh).2
  rw [chosen, scanFound, ← hscan]
  congr 1
  exact (List.filter_eq_self.2 fun _ _ => decide_eq_true (Nat.zero_le _)).symm

/-! ## (5) When all that stands is found -/

/-- `p.startsIn (text.drop place) = true`: what is found at a place stands there. -/
theorem startsIn_of_finds {place : Nat} {p : Phrase} (h : finds text place p = true) :
    p.startsIn (text.drop place) = true := by
  obtain ⟨hwords, -, hbegins⟩ := mem_occurrences (List.contains_iff_mem.1 h)
  rw [Phrase.startsIn, Bool.and_eq_true, Bool.not_eq_true']
  exact ⟨List.isEmpty_eq_false_iff.2 hwords, List.isPrefixOf_iff_prefix.2 hbegins⟩

/-- `phrases = []`: there is a longest phrase unless there is none at all. -/
theorem eq_nil_of_longest?_eq_none {phrases : PhraseTable} (h : longest? phrases = none) :
    phrases = [] := by
  by_contra hne
  obtain ⟨size, hsize⟩ := Option.isSome_iff_exists.1 <|
    List.isSome_max?_of_ne_nil (l := phrases.map fun p => p.words.length) (by simpa using hne)
  obtain ⟨hmem, hmax⟩ := List.max?_eq_some_iff.1 hsize
  obtain ⟨p, hp, rfl⟩ := List.mem_map.1 hmem
  refine List.find?_eq_none.1 h p hp (List.all_eq_true.2 fun q hq => decide_eq_true ?_)
  exact hmax _ (List.mem_map_of_mem hq)

/-- `longest? (phrases.filter test) = some p`: the longest of some phrases is the longest of any of
them that it is among. -/
theorem longest?_filter {phrases : PhraseTable} {p : Phrase} (h : longest? phrases = some p)
    {test : Phrase → Bool} (hp : test p = true) : longest? (phrases.filter test) = some p := by
  unfold longest? at h ⊢
  obtain ⟨hlongest, before, after, rfl, hbefore⟩ := List.find?_eq_some_iff_append.1 h
  have hall := List.all_eq_true.1 hlongest
  have hmem : p ∈ (before ++ p :: after).filter test :=
    List.mem_filter.2 ⟨List.mem_append_right _ List.mem_cons_self, hp⟩
  refine List.find?_eq_some_iff_append.2 ⟨?_, before.filter test, after.filter test, ?_, ?_⟩
  · exact List.all_eq_true.2 fun q hq => hall q (List.mem_filter.1 hq).1
  · rw [List.filter_append, List.filter_cons_of_pos hp]
  · -- what is no shorter than this phrase is no shorter than any
    intro q hq
    have hshort := hbefore q (List.mem_filter.1 hq).1
    rw [Bool.not_eq_true', List.all_eq_false] at hshort ⊢
    obtain ⟨r, hr, hlt⟩ := hshort
    refine ⟨p, hmem, fun hle => hlt (decide_eq_true ?_)⟩
    exact Nat.le_trans (of_decide_eq_true (hall r hr)) (of_decide_eq_true hle)

/-- What a scan takes is what counts where it is taken:
`∃ k p, k < text.length ∧ choose (n + k) (text.drop k) = some p ∧ h = p.hit (n + k)`. -/
theorem mem_scanFrom {choose : Nat → List Char → Option Phrase} {h : Hit} {n skip : Nat}
    (hh : h ∈ scanFrom choose n skip text) :
    ∃ k p, k < text.length ∧ choose (n + k) (text.drop k) = some p ∧ h = p.hit (n + k) := by
  induction text generalizing n skip with
  | nil => cases hh
  | cons c rest ih =>
    have hstep : ∀ {skip'}, h ∈ scanFrom choose (n + 1) skip' rest → ∃ k p,
        k < (c :: rest).length ∧ choose (n + k) ((c :: rest).drop k) = some p ∧
          h = p.hit (n + k) := by
      intro skip' hrest
      obtain ⟨k, p, hk, hp, rfl⟩ := ih hrest
      rw [Nat.add_right_comm] at hp ⊢
      exact ⟨k + 1, p, Nat.succ_lt_succ hk, hp, rfl⟩
    cases skip with
    | succ skip => exact hstep hh
    | zero =>
      rw [scanFrom] at hh
      split at hh
      · rename_i p hp
        rcases List.mem_cons.1 hh with rfl | hh
        · exact ⟨0, p, Nat.succ_pos _, hp, rfl⟩
        · exact hstep hh
      · exact hstep hh

/-- `finds text place p = true`: a phrase that stands at a place where there is a hit of its length
and argument is found there, as the hit has the same words. -/
theorem finds_of_hit_mem {place : Nat} {p : Phrase} (hstarts : p.startsIn (text.drop place) = true)
    (h : p.hit place ∈ table.hits text) : finds text place p = true := by
  obtain ⟨q, -, hfinds, heq⟩ := mem_hits.1 h
  have hlength : p.words.length = q.words.length := congrArg Hit.size heq
  obtain ⟨-, -, hq⟩ := mem_occurrences (List.contains_iff_mem.1 hfinds)
  have hp := List.isPrefixOf_iff_prefix.1 (Bool.and_eq_true_iff.1 hstarts).2
  have hwords : p.words = q.words :=
    (List.prefix_of_prefix_length_le hp hq (Nat.le_of_eq hlength)).eq_of_length hlength
  rw [finds, hwords]
  exact hfinds

/-- `scanFrom (table.found? text) n skip rest = scanFrom table.standing? n skip rest`: both scans of
a text go on alike, as long as all that the first one takes is found. -/
theorem scanFrom_eq_of_found {n skip : Nat} {rest : List Char} (hrest : rest = text.drop n)
    (h : ∀ k ∈ scanFrom table.standing? n skip rest, k ∈ table.hits text) :
    scanFrom (table.found? text) n skip rest = scanFrom table.standing? n skip rest := by
  induction rest generalizing n skip with
  | nil => rfl
  | cons c rest ih =>
    have hnext : rest = text.drop (n + 1) := by
      rw [← List.drop_drop, ← hrest]
      rfl
    -- what is found is among what stands there
    have hamong : table.filter (finds text n) =
        (table.filter fun p => p.startsIn (c :: rest)).filter (finds text n) := by
      rw [List.filter_filter, hrest]
      refine List.filter_congr fun p _ => ?_
      rw [Bool.eq_iff_iff, Bool.and_eq_true]
      exact ⟨fun hp => ⟨hp, startsIn_of_finds hp⟩, And.left⟩
    cases skip with
    | succ skip => exact ih hnext h
    | zero =>
      rw [scanFrom, standing?] at h
      rw [scanFrom, scanFrom, found?, standing?, hamong]
      cases hp : longest? (table.filter fun p => p.startsIn (c :: rest)) with
      | none =>
        rw [hp] at h
        rw [eq_nil_of_longest?_eq_none hp]
        exact ih hnext h
      | some p =>
        rw [hp] at h
        obtain ⟨hhit, h⟩ := List.forall_mem_cons.1 h
        have hstarts := (List.mem_filter.1 (List.mem_of_find?_eq_some hp)).2
        rw [hrest] at hstarts
        rw [longest?_filter hp (finds_of_hit_mem hstarts hhit)]
        exact congrArg _ (ih hnext h)

/-- **When both scans agree**: when all that the first one takes is found.
`table.scanFound text = table.scan text ↔ ∀ h ∈ table.scan text, h ∈ table.hits text`. -/
theorem scanFound_eq_scan_iff :
    table.scanFound text = table.scan text ↔ ∀ h ∈ table.scan text, h ∈ table.hits text := by
  refine ⟨fun heq h hh => ?_, scanFrom_eq_of_found rfl⟩
  rw [← heq] at hh
  obtain ⟨k, p, -, hp, rfl⟩ := mem_scanFrom hh
  rw [Nat.zero_add] at hp ⊢
  obtain ⟨hmem, hfinds⟩ := List.mem_filter.1 (List.mem_of_find?_eq_some hp)
  exact mem_hits.2 ⟨p, hmem, hfinds, rfl⟩

/-- **Unbordered phrases are found wherever they stand**, so both scans agree:
`table.scanFound text = table.scan text`. -/
theorem scanFound_eq_scan (h : ∀ p ∈ table, Unbordered p.words) :
    table.scanFound text = table.scan text := by
  refine scanFound_eq_scan_iff.2 fun hit hhit => ?_
  obtain ⟨k, p, hk, hp, rfl⟩ := mem_scanFrom hhit
  obtain ⟨hmem, hstarts⟩ := List.mem_filter.1 (List.mem_of_find?_eq_some hp)
  obtain ⟨hwords, hbegins⟩ := Bool.and_eq_true_iff.1 hstarts
  have hfound := (h p hmem).mem_occurrencesFrom (n := 0) (Nat.zero_le k) hk
    (List.isPrefixOf_iff_prefix.1 hbegins)
  refine mem_hits.2 ⟨p, hmem, List.contains_iff_mem.2 ?_, rfl⟩
  rw [occurrences, if_neg (by simpa using hwords)]
  exact hfound

/-! ## (6) The arguments of a text -/

/-- The arguments of a text are those of the scan in which a phrase counts where it is found:
`table.resolve text` is
`(table.scanFound (text.toList.map Char.toLower)).map (Hit.argumentIn text.toList)`. -/
theorem resolve_eq (table : PhraseTable) (text : String) :
    table.resolve text =
      (table.scanFound (text.toList.map Char.toLower)).map (Hit.argumentIn text.toList) := by
  rw [← chosen_eq_scanFound]
  rfl

/-- **The arguments of a text.**

* They are those of the scan in which a phrase counts where its own search finds it.
* This is the scan in which every phrase counts where it stands when all that the latter takes is
  found, and only then.
* So it is when no phrase ends as it begins.

In the encoding by bytes phrases stand nowhere else than at characters. -/
theorem resolve_scans (table : PhraseTable) (text : String) :
    let lower := text.toList.map Char.toLower
    table.resolve text = (table.scanFound lower).map (Hit.argumentIn text.toList) ∧
      (table.scanFound lower = table.scan lower ↔
        ∀ h ∈ table.scan lower, h ∈ table.hits lower) ∧
      ((∀ p ∈ table, Unbordered p.words) →
        table.resolve text = (table.scan lower).map (Hit.argumentIn text.toList)) ∧
      ∀ p ∈ table, p.words ≠ [] → ∀ place,
        Text.bytes p.words <+: (Text.bytes lower).drop place ↔
          ∃ i, (Text.bytes (lower.take i)).length = place ∧ p.words <+: lower.drop i := by
  refine ⟨resolve_eq table text, scanFound_eq_scan_iff, fun hunbordered => ?_,
    fun p _ hwords place => Text.isPrefix_drop_bytes_iff hwords⟩
  rw [resolve_eq, scanFound_eq_scan hunbordered]

/-- Phrases of which one begins another. -/
def indexPhrases : PhraseTable :=
  [.of "price" { canonicalName := "Price", kind := .data },
    .of "Top 10" { canonicalName := "Top N", kind := .classification, parameters := ["10"] },
    .of "S&P 500" { canonicalName := "S&P 500", kind := .entities },
    .of "S&P" { canonicalName := "S&P", kind := .entities }]

/-- The longer one of two phrases counts. -/
theorem resolve_scans_indexPhrases :
    (∀ p ∈ indexPhrases, Unbordered p.words) ∧
      (indexPhrases.resolve "Top 10 S&P 500 by price").map
          (fun a => (a.canonicalName, a.originalText)) =
        [("Top N", "Top 10"), ("S&P 500", "S&P 500"), ("Price", "price")] := by
  have hunbordered : ∀ p ∈ indexPhrases, Unbordered p.words := by decide +kernel
  obtain ⟨-, -, hscan, -⟩ := resolve_scans indexPhrases "Top 10 S&P 500 by price"
  refine ⟨hunbordered, ?_⟩
  rw [hscan hunbordered]
  decide +kernel

/-- Phrases of which one ends as it begins. -/
def borderedPhrases : PhraseTable :=
  [.of "ba" { canonicalName := "B", kind := .data },
    .of "aa" { canonicalName := "A", kind := .data }]

/-- **A phrase that stands in a text may get lost**: the search for it goes on behind a find that
overlaps with another phrase. -/
theorem not_resolve_scan_borderedPhrases :
    borderedPhrases.resolve "baaa" ≠
      (borderedPhrases.scan ("baaa".toList.map Char.toLower)).map
        (Hit.argumentIn "baaa".toList) := by
  rw [resolve_eq]
  decide +kernel

end PhraseTable

end PanelQuery
