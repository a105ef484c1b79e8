import Mathlib.Data.List.Infix
import Mathlib.Data.List.TakeWhile

/-! # Patterns of text

Patterns with a choice of what they match, and a reading that takes as much as it can at each step
and never goes back. In a pattern where nothing that goes on with a part could also begin the next
one, such a reading finds the longest match.

* **`Pattern`, `Pattern.Matches`** — patterns and the texts that they match;
* **`Pattern.Starts`, `Pattern.GoesOn`** — characters that begin a match, or follow one within a
  longer match;
* **`Pattern.munch`** — how much a reading takes;
* **`Pattern.matches_of_munch`, `Pattern.Matches.le_munch`** — it takes a match, and the longest. -/

namespace PanelQuery.Formula

/-- A pattern of text. -/
inductive Pattern where
  /-- One character of a kind. -/
  | one (kind : Char → Bool)
  /-- Any number of characters of a kind. -/
  | many (kind : Char → Bool)
  /-- Certain characters. -/
  | exactly (word : List Char)
  /-- What a pattern matches, or nothing. -/
  | optional (inner : Pattern)
  /-- What a pattern matches, and then what another one does. -/
  | seq (first second : Pattern)

namespace Pattern

/-! ## (1) Matches -/

/-- **The texts that a pattern matches.** -/
def Matches : Pattern → List Char → Prop
  | one kind, us => ∃ c, us = [c] ∧ kind c = true
  | many kind, us => ∀ c ∈ us, kind c = true
  | exactly word, us => us = word
  | optional inner, us => us = [] ∨ inner.Matches us
  | seq first second, us => ∃ vs ws, us = vs ++ ws ∧ first.Matches vs ∧ second.Matches ws

/-- Whether a pattern matches nothing. -/
def Nullable : Pattern → Prop
  | one _ => False
  | many _ => True
  | exactly word => word = []
  | optional _ => True
  | seq first second => first.Nullable ∧ second.Nullable

/-- **The characters that can begin a match.** -/
def Starts : Pattern → Char → Prop
  | one kind, c => kind c = true
  | many kind, c => kind c = true
  | exactly word, c => word.head? = some c
  | optional inner, c => inner.Starts c
  | seq first second, c => first.Starts c ∨ first.Nullable ∧ second.Starts c

/-- **The characters that can follow a match** where a longer one goes on. -/
def GoesOn : Pattern → Char → Prop
  | one _, _ => False
  | many kind, c => kind c = true
  | exactly _, _ => False
  | optional inner, c => inner.Starts c ∨ inner.GoesOn c
  | seq first second, c => second.GoesOn c ∨ second.Nullable ∧ first.GoesOn c

/-- Whether no character both goes on with a part and begins the next one. -/
def Deterministic : Pattern → Prop
  | optional inner => inner.Deterministic
  | seq first second =>
      first.Deterministic ∧ second.Deterministic ∧ ∀ c, first.GoesOn c → ¬ second.Starts c
  | _ => True

variable {p : Pattern} {us ws cs : List Char} {c : Char}

/-- Only such patterns match nothing: `p.Nullable`. -/
theorem Matches.nullable (h : p.Matches []) : p.Nullable := by
  induction p with
  | one kind =>
    obtain ⟨c, hc, -⟩ := h
    cases hc
  | many kind => trivial
  | exactly word => exact h.symm
  | optional inner => trivial
  | seq first second ihfirst ihsecond =>
    obtain ⟨vs, ws, hnil, hvs, hws⟩ := h
    obtain ⟨rfl, rfl⟩ := List.append_eq_nil_iff.1 hnil.symm
    exact ⟨ihfirst hvs, ihsecond hws⟩

/-- **A match begins** with such a character: `p.Starts c`. -/
theorem Matches.starts (h : p.Matches (c :: us)) : p.Starts c := by
  induction p generalizing us with
  | one kind =>
    obtain ⟨d, hd, hkind⟩ := h
    obtain ⟨rfl, -⟩ := List.cons.inj hd
    exact hkind
  | many kind => exact h c List.mem_cons_self
  | exactly word => exact congrArg List.head? (Eq.symm h)
  | optional inner ih => exact ih (h.resolve_left (List.cons_ne_nil c us))
  | seq first second ihfirst ihsecond =>
    obtain ⟨vs, ws, hcs, hvs, hws⟩ := h
    cases vs with
    | nil =>
      obtain rfl : c :: us = ws := hcs
      exact .inr ⟨hvs.nullable, ihsecond hws⟩
    | cons d vs =>
      obtain ⟨rfl, -⟩ := List.cons.inj hcs
      exact .inl (ihfirst hvs)

/-- **A match goes on** with such a character to a longer one: `p.GoesOn c`. -/
theorem Matches.goesOn (hp : p.Deterministic) (h : p.Matches us)
    (hmore : p.Matches (us ++ c :: ws)) : p.GoesOn c := by
  induction p generalizing us ws c with
  | one kind =>
    obtain ⟨d, rfl, -⟩ := h
    obtain ⟨e, he, -⟩ := hmore
    cases (List.cons.inj he).2
  | many kind => exact hmore c (List.mem_append_right us List.mem_cons_self)
  | exactly word =>
    have hlength := congrArg List.length (Eq.trans hmore (Eq.symm h))
    rw [List.length_append, List.length_cons] at hlength
    omega
  | optional inner ih =>
    rcases h with rfl | h
    · exact .inl (hmore.resolve_left (List.cons_ne_nil c ws)).starts
    · exact .inr (ih hp h (hmore.resolve_left (by simp)))
  | seq first second ihfirst ihsecond =>
    obtain ⟨hfirst, hsecond, hapart⟩ := hp
    obtain ⟨v, w, rfl, hv, hw⟩ := h
    obtain ⟨v', w', hsplit, hv', hw'⟩ := hmore
    rw [List.append_assoc] at hsplit
    -- where the first parts differ, what goes on with one of them begins the second part
    obtain ⟨x, rfl, hx⟩ | ⟨x, rfl, rfl⟩ := List.append_eq_append_iff.1 hsplit
    · cases x with
      | nil =>
        rw [List.nil_append] at hx
        exact .inl (ihsecond hsecond hw (hx ▸ hw'))
      | cons d x =>
        have hgoesOn := ihfirst hfirst hv hv'
        cases w with
        | nil =>
          obtain ⟨rfl, -⟩ := List.cons.inj hx
          exact .inr ⟨hw.nullable, hgoesOn⟩
        | cons e w =>
          obtain ⟨rfl, -⟩ := List.cons.inj hx
          exact absurd hw.starts (hapart _ hgoesOn)
    · cases x with
      | nil => exact .inl (ihsecond hsecond hw hw')
      | cons d x => exact absurd hw'.starts (hapart _ (ihfirst hfirst hv' hv))

/-! ## (2) Reading a match -/

/-- **How much a reading takes**: each part as much as it can, and none where a part fails. -/
def munch : Pattern → List Char → Option Nat
  | one kind, cs =>
      match cs with
      | c :: _ => if kind c then some 1 else none
      | [] => none
  | many kind, cs => some (cs.takeWhile kind).length
  | exactly word, cs => if word <+: cs then some word.length else none
  | optional inner, cs => some ((inner.munch cs).getD 0)
  | seq first second, cs =>
      (first.munch cs).bind fun m => (second.munch (cs.drop m)).map (m + ·)

/-- `(seq p q).munch cs = (p.munch cs).bind fun m => (q.munch (cs.drop m)).map (m + ·)`: a reading
of two parts takes what the first one does, and then what the second one does. -/
theorem munch_seq (p q : Pattern) (cs : List Char) : (seq p q).munch cs =
    (p.munch cs).bind fun m => (q.munch (cs.drop m)).map (m + ·) :=
  rfl

/-- **What a reading takes is a match**: `n ≤ cs.length ∧ p.Matches (cs.take n)`. -/
theorem matches_of_munch {n : Nat} (h : p.munch cs = some n) :
    n ≤ cs.length ∧ p.Matches (cs.take n) := by
  induction p generalizing cs n with
  | one kind =>
    cases cs with
    | nil => cases h
    | cons c cs =>
      obtain ⟨hkind, hn⟩ := Option.ite_none_right_eq_some.1 h
      obtain rfl := Option.some.inj hn
      exact ⟨by simp, c, rfl, hkind⟩
  | many kind =>
    obtain rfl := Option.some.inj h
    have hbegins := List.takeWhile_prefix (l := cs) kind
    refine ⟨hbegins.length_le, ?_⟩
    rw [← List.prefix_iff_eq_take.1 hbegins]
    exact fun c hc => List.mem_takeWhile_imp hc
  | exactly word =>
    obtain ⟨hbegins, hn⟩ := Option.ite_none_right_eq_some.1 h
    obtain rfl := Option.some.inj hn
    exact ⟨hbegins.length_le, (List.prefix_iff_eq_take.1 hbegins).symm⟩
  | optional inner ih =>
    obtain rfl := Option.some.inj h
    cases hinner : inner.munch cs with
    | none => exact ⟨Nat.zero_le _, .inl rfl⟩
    | some n =>
      obtain ⟨hn, hmatch⟩ := ih hinner
      exact ⟨hn, .inr hmatch⟩
  | seq first second ihfirst ihsecond =>
    rw [munch_seq] at h
    obtain ⟨m, hm, hrest⟩ := Option.bind_eq_some_iff.1 h
    obtain ⟨k, hk, rfl⟩ := Option.map_eq_some_iff.1 hrest
    obtain ⟨hlem, hfirst⟩ := ihfirst hm
    obtain ⟨hlek, hsecond⟩ := ihsecond hk
    rw [List.length_drop] at hlek
    exact ⟨by omega, _, _, List.take_add, hfirst, hsecond⟩

/-- **No match at the start of a text is longer** than what a reading takes:
`∃ n, p.munch cs = some n ∧ us.length ≤ n`. -/
theorem Matches.le_munch (hp : p.Deterministic) (h : p.Matches us) (hcs : us <+: cs) :
    ∃ n, p.munch cs = some n ∧ us.length ≤ n := by
  induction p generalizing us cs with
  | one kind =>
    obtain ⟨c, rfl, hkind⟩ := h
    obtain ⟨rest, rfl⟩ := hcs
    exact ⟨1, if_pos hkind, Nat.le_refl 1⟩
  | many kind =>
    obtain ⟨rest, rfl⟩ := hcs
    refine ⟨_, rfl, ?_⟩
    rw [List.takeWhile_append_of_pos h, List.length_append]
    exact Nat.le_add_right _ _
  | exactly word =>
    obtain rfl : us = word := h
    exact ⟨_, if_pos hcs, Nat.le_refl _⟩
  | optional inner ih =>
    refine ⟨_, rfl, ?_⟩
    rcases h with rfl | h
    · exact Nat.zero_le _
    · obtain ⟨n, hn, hle⟩ := ih hp h hcs
      rw [hn]
      exact hle
  | seq first second ihfirst ihsecond =>
    obtain ⟨hfirst, hsecond, hapart⟩ := hp
    obtain ⟨v, w, rfl, hv, hw⟩ := h
    obtain ⟨rest, rfl⟩ := hcs
    rw [List.append_assoc]
    obtain ⟨m, hm, hle⟩ := ihfirst hfirst hv ⟨w ++ rest, rfl⟩
    obtain ⟨hlem, hmatch⟩ := matches_of_munch hm
    -- the second part is found behind the first one, or is nothing where the first took more
    have hfound : ∃ us, second.Matches us ∧ us <+: (v ++ (w ++ rest)).drop m ∧
        w.length ≤ m - v.length + us.length := by
      rcases Nat.eq_or_lt_of_le hle with rfl | hlt
      · exact ⟨w, hw, by rw [List.drop_left]; exact List.prefix_append w rest, by omega⟩
      · rw [List.take_append, List.take_of_length_le hle] at hmatch
        rw [List.length_append] at hlem
        cases w with
        | nil => exact ⟨[], hw, List.nil_prefix, Nat.zero_le _⟩
        | cons d w =>
          obtain ⟨k, hk⟩ := Nat.exists_eq_add_of_lt hlt
          rw [hk, Nat.add_assoc, Nat.add_sub_cancel_left, List.cons_append,
            List.take_succ_cons] at hmatch
          exact absurd hw.starts (hapart d (hv.goesOn hfirst hmatch))
    obtain ⟨us, hus, hbegins, hlength⟩ := hfound
    obtain ⟨n, hn, hlen⟩ := ihsecond hsecond hus hbegins
    refine ⟨m + n, ?_, by rw [List.length_append]; omega⟩
    rw [munch_seq, hm, Option.bind_some, hn, Option.map_some]

end Pattern

end PanelQuery.Formula
