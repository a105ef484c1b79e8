import Mathlib.Logic.Relation
import PanelQuery.Proofs.Query.Dialogues
import PanelQuery.Proofs.Query.Runs

/-! # Stages of an evaluation

Nodes need not be evaluated one after the other. Here an evaluation goes on in single moves: a node
whose children have handed their outcomes on is computed, and is counted when it is complete; some
time later the message on it is sent, and only then it hands its outcome on. Nodes that do not wait
for each other may do so in any order, and messages may overtake each other.

* **`Stage`, `Engine.Move`, `Engine.Reaches`** — how far an evaluation is, what may happen next, and
  what may happen at all;
* **`Stage.Sound`, `Engine.Reaches.sound`** — what holds at every stage: no node is touched twice,
  and the root is counted last and has the last message;
* **`Engine.Reaches.outcomes`, `Engine.Reaches.computed`** — induction on the outcomes of a query,
  and what each of them was computed on;
* **`Engine.exists_move`** — an evaluation never gets stuck;
* **`Stage.Sound.size_le`** — and comes to an end;
* **`Stage.Sound.counted`** — at the end every node is counted, and its message is sent. -/

namespace PanelQuery

/-! ## (1) Stages and moves -/

/-- How far the evaluation of a query is. -/
structure Stage where
  /-- The complete nodes with their outcomes, in the order in which they were counted. -/
  completed : List (Path × Outcome) := []
  /-- The messages that were sent, by the places of their nodes in that order. -/
  sent : List Nat := []
  /-- The nodes that have no outcome, and why. -/
  failed : List (Path × QueryError) := []
  /-- The calls that were made, with their answers. -/
  asked : List Exchange := []

namespace Stage

/-- The paths of the complete nodes. -/
def paths (s : Stage) : List Path := s.completed.map Prod.fst

/-- The paths of the nodes that have no outcome. -/
def failures (s : Stage) : List Path := s.failed.map Prod.fst

/-- `HandsOn s path o`: a node is complete, and the message on it is sent. -/
def HandsOn (s : Stage) (path : Path) (o : Outcome) : Prop :=
  ∃ k ∈ s.sent, s.completed[k]? = some (path, o)

/-- A node that may be computed on the outcomes of its children, and has not been so before. -/
structure Ready (s : Stage) (root : Node) (path : Path) (n : Node) (os : List Outcome) : Prop where
  at? : root.at? path = some n
  notComplete : path ∉ s.paths
  notFailed : path ∉ s.failures
  children : Outcome.AtPlaces (fun o path _ => s.HandsOn path o) path os n.children.zipIdx

/-- What the whole evaluation returns: the outcome of the root, once that is handed on, or the error
of a node that has failed. -/
inductive Returns (s : Stage) : Except QueryError Outcome → Prop
  | ok {o : Outcome} (h : s.HandsOn [] o) : Returns s (.ok o)
  | error {path : Path} {cause : QueryError} (h : (path, cause) ∈ s.failed) :
      Returns s (.error cause)

/-- `fraction total k`: the part that is done with the node that is counted at a place. -/
def fraction (total k : Nat) : Float := Scalar.ofNat (k + 1) / Scalar.ofNat (max total 1)

/-- `message? s total k`: the message on the node that is counted at a place. -/
def message? (s : Stage) (total k : Nat) : Option Progress :=
  s.completed[k]?.map fun c => ⟨c.2.title, fraction total k⟩

/-- `messages s total`: the messages, in the order in which they were sent. -/
def messages (s : Stage) (total : Nat) : List Progress := s.sent.filterMap (s.message? total)

/-- The number of moves up to a stage. -/
def size (s : Stage) : Nat := s.completed.length + s.failed.length + s.sent.length

end Stage

namespace Engine

/-- What may happen next, when calls get answers of some kind: a node is computed, and is counted
when it is complete, or the message on a node that is counted is sent. -/
inductive Move (e : Engine) (root : Node) (allowed : Exchange → Prop) (s : Stage) : Stage → Prop
  | complete {path : Path} {n : Node} {os : List Outcome} {own : List Exchange} {o : Outcome}
      (hready : s.Ready root path n os) (hheld : (e.converse path n os).Held own (.ok o))
      (hallowed : ∀ x ∈ own, allowed x) :
      Move e root allowed s
        { s with completed := s.completed ++ [(path, o)], asked := s.asked ++ own }
  | fail {path : Path} {n : Node} {os : List Outcome} {own : List Exchange} {cause : QueryError}
      (hready : s.Ready root path n os) (hheld : (e.converse path n os).Held own (.error cause))
      (hallowed : ∀ x ∈ own, allowed x) :
      Move e root allowed s
        { s with failed := s.failed ++ [(path, cause)], asked := s.asked ++ own }
  | send {k : Nat} (hk : k < s.completed.length) (hnew : k ∉ s.sent) :
      Move e root allowed s { s with sent := s.sent ++ [k] }

/-- `Reaches e root allowed s`: a stage that an evaluation may reach. -/
def Reaches (e : Engine) (root : Node) (allowed : Exchange → Prop) (s : Stage) : Prop :=
  Relation.ReflTransGen (e.Move root allowed) {} s

end Engine

/-! ## (2) Outcomes that are handed on -/

namespace Stage

variable {s s' : Stage} {root n : Node} {path : Path} {o : Outcome} {os : List Outcome}

/-- What is handed on belongs to a complete node: `(path, o) ∈ s.completed`. -/
theorem HandsOn.mem_completed (h : s.HandsOn path o) : (path, o) ∈ s.completed := by
  obtain ⟨k, -, hk⟩ := h
  exact List.mem_of_getElem? hk

/-- A node whose outcome is handed on is complete: `path ∈ s.paths`. -/
theorem HandsOn.mem_paths (h : s.HandsOn path o) : path ∈ s.paths :=
  List.mem_map.2 ⟨_, h.mem_completed, rfl⟩

/-- What is handed on stays so when more nodes are complete and more messages are sent:
`s'.HandsOn path o`. -/
theorem HandsOn.mono {new : List (Path × Outcome)} {more : List Nat} (h : s.HandsOn path o)
    (hcompleted : s'.completed = s.completed ++ new) (hsent : s'.sent = s.sent ++ more) :
    s'.HandsOn path o := by
  obtain ⟨k, hk, hget⟩ := h
  refine ⟨k, hsent ▸ List.mem_append_left _ hk, ?_⟩
  rw [hcompleted, List.getElem?_append_left (List.getElem?_eq_some_iff.1 hget).1, hget]

/-- The children of a node that may be computed have handed their outcomes on:
`∃ o, s.HandsOn (path ++ [i]) o`. -/
theorem Ready.handsOn_child (h : s.Ready root path n os) {i : Nat} {child : Node}
    (hchild : root.at? (path ++ [i]) = some child) : ∃ o, s.HandsOn (path ++ [i]) o := by
  rw [Node.at?_concat h.at?] at hchild
  obtain ⟨-, hnone⟩ | ⟨o, c, -, hplace, ho⟩ := h.children.getElem? i
  · rw [List.getElem?_zipIdx, hchild] at hnone
    cases hnone
  · rw [List.getElem?_zipIdx, hchild] at hplace
    obtain rfl := Option.some.inj hplace
    rw [Nat.zero_add] at ho
    exact ⟨o, ho⟩

/-! ## (3) What holds at every stage -/

/-- What holds at every stage of the evaluation of a query. -/
structure Sound (s : Stage) (root : Node) : Prop where
  at_paths : ∀ p ∈ s.paths, ∃ n, root.at? p = some n
  at_failures : ∀ p ∈ s.failures, ∃ n, root.at? p = some n
  /-- No node is counted twice. -/
  nodup : s.paths.Nodup
  failures_nodup : s.failures.Nodup
  /-- No node that is counted has failed. -/
  disjoint : ∀ p ∈ s.failures, p ∉ s.paths
  /-- No message is sent twice. -/
  sent_nodup : s.sent.Nodup
  sent_lt : ∀ k ∈ s.sent, k < s.completed.length
  /-- The children of a complete node have handed their outcomes on. -/
  below : ∀ p ∈ s.paths, ∀ i n, root.at? (p ++ [i]) = some n → ∃ o, s.HandsOn (p ++ [i]) o
  /-- When the root is complete, all other messages are sent, and the one on the root is the last
  one. -/
  root_last : ∀ k o, s.completed[k]? = some ([], o) → k + 1 = s.completed.length ∧
    (∀ j < k, j ∈ s.sent) ∧ (k ∈ s.sent → s.sent.getLast? = some k)

namespace Sound

/-- Where a node has handed its outcome on, so have all nodes below it:
`∃ o, s.HandsOn (path ++ below) o`. -/
theorem handsOn_below (h : s.Sound root) (hpath : s.HandsOn path o) {below : Path}
    (hn : root.at? (path ++ below) = some n) : ∃ o, s.HandsOn (path ++ below) o := by
  induction below generalizing path o with
  | nil => exact ⟨o, by rwa [List.append_nil]⟩
  | cons i below ih =>
    rw [List.append_cons] at hn ⊢
    have hchild := hn
    rw [Node.at?_append] at hchild
    obtain ⟨child, hat, -⟩ := Option.bind_eq_some_iff.1 hchild
    obtain ⟨o', ho'⟩ := h.below path hpath.mem_paths i child hat
    exact ih ho' hn

/-- Where the children of the root have handed their outcomes on, so have all nodes but the root:
`∃ o, s.HandsOn path o`. -/
theorem handsOn_of_root (h : s.Sound root)
    (hroot : ∀ i n, root.at? [i] = some n → ∃ o, s.HandsOn [i] o) (hpath : path ≠ [])
    (hn : root.at? path = some n) : ∃ o, s.HandsOn path o := by
  cases path with
  | nil => exact absurd rfl hpath
  | cons i below =>
    have hchild := hn
    rw [← List.singleton_append, Node.at?_append] at hchild
    obtain ⟨child, hat, -⟩ := Option.bind_eq_some_iff.1 hchild
    obtain ⟨o, ho⟩ := hroot i child hat
    exact h.handsOn_below ho hn

/-- `j = k`: the place of a complete node is told by its path. -/
theorem eq_of_getElem? (h : s.Sound root) {j k : Nat} {o o' : Outcome}
    (hj : s.completed[j]? = some (path, o)) (hk : s.completed[k]? = some (path, o')) : j = k := by
  have hpath : ∀ {i : Nat} {o : Outcome}, s.completed[i]? = some (path, o) →
      s.paths[i]? = some path := by
    intro i o hi
    rw [paths, List.getElem?_map, hi]
    rfl
  have hlt := (List.getElem?_eq_some_iff.1 (hpath hj)).1
  exact (List.getElem?_inj hlt h.nodup).1 ((hpath hj).trans (hpath hk).symm)

/-- Once the root is complete, there is no node left: `path ∈ s.paths`. -/
theorem mem_paths_of_root (h : s.Sound root) (hroot : [] ∈ s.paths)
    (hn : root.at? path = some n) : path ∈ s.paths := by
  by_cases hpath : path = []
  · exact hpath ▸ hroot
  · obtain ⟨o, ho⟩ := h.handsOn_of_root (h.below [] hroot) hpath hn
    exact ho.mem_paths

/-- At the beginning: `Sound {} root`. -/
theorem empty (root : Node) : Sound {} root where
  at_paths _ hp := absurd hp List.not_mem_nil
  at_failures _ hp := absurd hp List.not_mem_nil
  nodup := List.nodup_nil
  failures_nodup := List.nodup_nil
  disjoint _ hp := absurd hp List.not_mem_nil
  sent_nodup := List.nodup_nil
  sent_lt _ hk := absurd hk List.not_mem_nil
  below _ hp := absurd hp List.not_mem_nil
  root_last _ _ hk := nomatch hk

/-- One more node is complete:
`Sound { s with completed := s.completed ++ [(path, o)], asked := s.asked ++ own } root`. -/
theorem complete (h : s.Sound root) (hready : s.Ready root path n os) (o : Outcome)
    (own : List Exchange) :
    Sound { s with completed := s.completed ++ [(path, o)], asked := s.asked ++ own } root := by
  have hpaths : ∀ p, p ∈ (s.completed ++ [(path, o)]).map Prod.fst ↔ p ∈ s.paths ∨ p = path := by
    intro p
    rw [List.map_append, List.mem_append, List.map_singleton, List.mem_singleton]
    rfl
  have hmono : ∀ {p o'}, s.HandsOn p o' →
      HandsOn { s with completed := s.completed ++ [(path, o)], asked := s.asked ++ own } p o' :=
    fun ho => ho.mono rfl (List.append_nil _).symm
  constructor
  case at_paths =>
    intro p hp
    rcases (hpaths p).1 hp with hp | rfl
    · exact h.at_paths p hp
    · exact ⟨n, hready.at?⟩
  case at_failures => exact h.at_failures
  case nodup =>
    rw [paths, List.map_append, List.map_singleton, ← List.concat_eq_append, List.nodup_concat]
    exact ⟨hready.notComplete, h.nodup⟩
  case failures_nodup => exact h.failures_nodup
  case disjoint =>
    intro p hp hmem
    rcases (hpaths p).1 hmem with hmem | rfl
    · exact h.disjoint p hp hmem
    · exact hready.notFailed hp
  case sent_nodup => exact h.sent_nodup
  case sent_lt =>
    intro k hk
    rw [List.length_append]
    exact Nat.lt_add_right _ (h.sent_lt k hk)
  case below =>
    intro p hp i child hchild
    rcases (hpaths p).1 hp with hp | rfl
    · obtain ⟨o', ho'⟩ := h.below p hp i child hchild
      exact ⟨o', hmono ho'⟩
    · obtain ⟨o', ho'⟩ := hready.handsOn_child hchild
      exact ⟨o', hmono ho'⟩
  case root_last =>
    intro k o' hk
    dsimp only at hk ⊢
    rw [List.length_append, List.length_singleton]
    rcases Nat.lt_trichotomy k s.completed.length with hlt | rfl | hgt
    · -- the root has been complete before, so that no node is left
      rw [List.getElem?_append_left hlt] at hk
      have hroot : [] ∈ s.paths := List.mem_map.2 ⟨_, List.mem_of_getElem? hk, rfl⟩
      exact absurd (h.mem_paths_of_root hroot hready.at?) hready.notComplete
    · rw [List.getElem?_concat_length] at hk
      obtain ⟨rfl, -⟩ := Prod.mk.inj (Option.some.inj hk)
      refine ⟨rfl, fun j hj => ?_, fun hsent => absurd (h.sent_lt _ hsent) (Nat.lt_irrefl _)⟩
      -- the root is complete now, and all nodes below it have handed their outcomes on
      have hget : s.completed[j]? = some s.completed[j] := List.getElem?_eq_getElem hj
      have hmem : s.completed[j].1 ∈ s.paths := List.mem_map.2 ⟨_, List.getElem_mem hj, rfl⟩
      obtain ⟨m, hm⟩ := h.at_paths _ hmem
      obtain ⟨o', i, hi, hget'⟩ := h.handsOn_of_root (fun i child => hready.handsOn_child)
        (fun heq => hready.notComplete (heq ▸ hmem)) hm
      rwa [h.eq_of_getElem? hget hget']
    · rw [List.getElem?_eq_none (by rw [List.length_append]; exact hgt)] at hk
      cases hk

/-- One more node has failed:
`Sound { s with failed := s.failed ++ [(path, cause)], asked := s.asked ++ own } root`. -/
theorem fail (h : s.Sound root) (hready : s.Ready root path n os) (cause : QueryError)
    (own : List Exchange) :
    Sound { s with failed := s.failed ++ [(path, cause)], asked := s.asked ++ own } root := by
  have hfailures : ∀ p, p ∈ (s.failed ++ [(path, cause)]).map Prod.fst ↔
      p ∈ s.failures ∨ p = path := by
    intro p
    rw [List.map_append, List.mem_append, List.map_singleton, List.mem_singleton]
    rfl
  constructor
  case at_paths => exact h.at_paths
  case at_failures =>
    intro p hp
    rcases (hfailures p).1 hp with hp | rfl
    · exact h.at_failures p hp
    · exact ⟨n, hready.at?⟩
  case nodup => exact h.nodup
  case failures_nodup =>
    rw [failures, List.map_append, List.map_singleton, ← List.concat_eq_append, List.nodup_concat]
    exact ⟨hready.notFailed, h.failures_nodup⟩
  case disjoint =>
    intro p hp
    rcases (hfailures p).1 hp with hp | rfl
    · exact h.disjoint p hp
    · exact hready.notComplete
  case sent_nodup => exact h.sent_nodup
  case sent_lt => exact h.sent_lt
  case below => exact h.below
  case root_last => exact h.root_last

/-- One more message is sent: `Sound { s with sent := s.sent ++ [k] } root`. -/
theorem send (h : s.Sound root) {k : Nat} (hk : k < s.completed.length) (hnew : k ∉ s.sent) :
    Sound { s with sent := s.sent ++ [k] } root := by
  constructor
  case at_paths => exact h.at_paths
  case at_failures => exact h.at_failures
  case nodup => exact h.nodup
  case failures_nodup => exact h.failures_nodup
  case disjoint => exact h.disjoint
  case sent_nodup =>
    rw [← List.concat_eq_append, List.nodup_concat]
    exact ⟨hnew, h.sent_nodup⟩
  case sent_lt =>
    intro j hj
    rcases List.mem_append.1 hj with hj | hj
    · exact h.sent_lt j hj
    · rwa [List.mem_singleton.1 hj]
  case below =>
    intro p hp i child hchild
    obtain ⟨o, ho⟩ := h.below p hp i child hchild
    exact ⟨o, ho.mono (List.append_nil _).symm rfl⟩
  case root_last =>
    intro j o hj
    obtain ⟨hlength, hbefore, -⟩ := h.root_last j o hj
    refine ⟨hlength, fun i hi => List.mem_append_left _ (hbefore i hi), fun _ => ?_⟩
    -- all other messages are sent, so the one that is sent now is that on the root
    have heq : k = j := by
      by_contra hne
      exact hnew (hbefore k (by omega))
    rw [heq]
    exact List.getLast?_concat

end Sound

end Stage

namespace Engine

variable {e : Engine} {root n : Node} {allowed : Exchange → Prop} {s s' : Stage} {path : Path}

/-- Every move keeps a stage sound: `s'.Sound root`. -/
theorem Move.sound (hmove : e.Move root allowed s s') (h : s.Sound root) : s'.Sound root := by
  cases hmove with
  | complete hready hheld hallowed => exact h.complete hready _ _
  | fail hready hheld hallowed => exact h.fail hready _ _
  | send hk hnew => exact h.send hk hnew

/-- **Every stage is sound**: `s.Sound root`. -/
theorem Reaches.sound (h : e.Reaches root allowed s) : s.Sound root := by
  induction h with
  | refl => exact .empty root
  | tail _ hmove ih => exact hmove.sound ih

/-! ## (4) Calls and outcomes -/

/-- All calls have answers of the kind that is allowed: `∀ x ∈ s.asked, allowed x`. -/
theorem Reaches.asked (h : e.Reaches root allowed s) : ∀ x ∈ s.asked, allowed x := by
  induction h with
  | refl => exact List.forall_mem_nil _
  | tail _ hmove ih =>
    cases hmove with
    | complete hready hheld hallowed => exact List.forall_mem_append.2 ⟨ih, hallowed⟩
    | fail hready hheld hallowed => exact List.forall_mem_append.2 ⟨ih, hallowed⟩
    | send hk hnew => exact ih

/-- **Only the answers that were given count**: where these are of a kind, no others need be
allowed. `e.Reaches root kind s`. -/
theorem Reaches.restrict {kind : Exchange → Prop} (h : e.Reaches root allowed s)
    (hkind : ∀ x ∈ s.asked, kind x) : e.Reaches root kind s := by
  induction h with
  | refl => exact .refl
  | tail _ hmove ih =>
    cases hmove with
    | complete hready hheld hallowed =>
      obtain ⟨hbefore, hown⟩ := List.forall_mem_append.1 hkind
      exact (ih hbefore).tail (.complete hready hheld hown)
    | fail hready hheld hallowed =>
      obtain ⟨hbefore, hown⟩ := List.forall_mem_append.1 hkind
      exact (ih hbefore).tail (.fail hready hheld hown)
    | send hk hnew => exact (ih hkind).tail (.send hk hnew)

/-- Calls of any kind are allowed where some are: `e.Reaches root kind s`. -/
theorem Reaches.mono {kind : Exchange → Prop} (h : e.Reaches root allowed s)
    (himp : ∀ x, allowed x → kind x) : e.Reaches root kind s :=
  h.restrict fun x hx => himp x (h.asked x hx)

/-- **Induction on the outcomes of a query**: what a node's outcome satisfies as soon as the
outcomes of its children do is satisfied by every outcome, in whatever order the nodes are computed.
`∀ path o n, (path, o) ∈ s.completed → root.at? path = some n → rel o path n`. -/
theorem Reaches.outcomes (h : e.Reaches root allowed s) (rel : Outcome → Path → Node → Prop)
    (hnode : ∀ path n os own o, Outcome.AtPlaces rel path os n.children.zipIdx →
      (e.converse path n os).Held own (.ok o) → (∀ x ∈ own, allowed x) → rel o path n) :
    ∀ path o n, (path, o) ∈ s.completed → root.at? path = some n → rel o path n := by
  induction h with
  | refl => exact fun path o n hmem => absurd hmem List.not_mem_nil
  | tail _ hmove ih =>
    cases hmove with
    | complete hready hheld hallowed =>
      intro path o n hmem hn
      rcases List.mem_append.1 hmem with hmem | hmem
      · exact ih path o n hmem hn
      · obtain ⟨rfl, rfl⟩ := Prod.mk.inj (List.mem_singleton.1 hmem)
        obtain rfl := Option.some.inj (hready.at?.symm.trans hn)
        refine hnode _ _ _ _ _ (hready.children.mono fun child hchild o ho => ?_) hheld hallowed
        refine ih _ o child.1 ho.mem_completed ?_
        exact (Node.at?_concat hn _).trans (List.mem_zipIdx_iff_getElem?.1 hchild)
    | fail hready hheld hallowed => exact ih
    | send hk hnew => exact ih

/-- **Every complete node was computed** on the outcomes that its children have handed on: for all
`path o`, `(path, o) ∈ s.completed` gives `n`, `os` and `own` with `root.at? path = some n`,
`Outcome.AtPlaces (fun o path _ => s.HandsOn path o) path os n.children.zipIdx`,
`(e.converse path n os).Held own (.ok o)` and `∀ x ∈ own, x ∈ s.asked`. -/
theorem Reaches.computed (h : e.Reaches root allowed s) : ∀ path o, (path, o) ∈ s.completed →
    ∃ n os own, root.at? path = some n ∧
      Outcome.AtPlaces (fun o path _ => s.HandsOn path o) path os n.children.zipIdx ∧
      (e.converse path n os).Held own (.ok o) ∧ ∀ x ∈ own, x ∈ s.asked := by
  induction h with
  | refl => exact fun path o hmem => absurd hmem List.not_mem_nil
  | @tail t u _ hmove ih =>
    -- what was so before is still so
    have hkeeps : ∀ {new : List (Path × Outcome)} {more : List Nat} {own' : List Exchange},
        u.completed = t.completed ++ new → u.sent = t.sent ++ more →
        u.asked = t.asked ++ own' → ∀ path o, (path, o) ∈ t.completed →
        ∃ n os own, root.at? path = some n ∧
          Outcome.AtPlaces (fun o path _ => u.HandsOn path o) path os n.children.zipIdx ∧
          (e.converse path n os).Held own (.ok o) ∧ ∀ x ∈ own, x ∈ u.asked := by
      intro new more own' hcompleted hsent hasked path o hmem
      obtain ⟨n, os, own, hn, hos, hheld, hown⟩ := ih path o hmem
      refine ⟨n, os, own, hn, hos.mono fun _ _ _ ho => ho.mono hcompleted hsent, hheld, ?_⟩
      exact fun x hx => hasked ▸ List.mem_append_left _ (hown x hx)
    cases hmove with
    | complete hready hheld hallowed =>
      intro path o hmem
      rcases List.mem_append.1 hmem with hmem | hmem
      · exact hkeeps rfl (List.append_nil _).symm rfl path o hmem
      · obtain ⟨rfl, rfl⟩ := Prod.mk.inj (List.mem_singleton.1 hmem)
        refine ⟨_, _, _, hready.at?, hready.children.mono fun _ _ _ ho => ?_, hheld, ?_⟩
        · exact ho.mono rfl (List.append_nil _).symm
        · exact fun x hx => List.mem_append_right _ hx
    | fail hready hheld hallowed =>
      exact hkeeps (List.append_nil _).symm (List.append_nil _).symm rfl
    | send hk hnew => exact hkeeps (List.append_nil _).symm rfl (List.append_nil _).symm

/-! ## (5) Evaluations go on -/

/-- Children that are each in a relation to some outcome:
`∃ os, Outcome.AtPlaces rel path os children`. -/
theorem exists_atPlaces (rel : Outcome → Path → Node → Prop) {children : List (Node × Nat)}
    (h : ∀ child ∈ children, ∃ o, rel o (path ++ [child.2]) child.1) :
    ∃ os, Outcome.AtPlaces rel path os children := by
  induction children with
  | nil => exact ⟨[], .nil⟩
  | cons child children ih =>
    obtain ⟨⟨o, ho⟩, hrest⟩ := List.forall_mem_cons.1 h
    obtain ⟨os, hos⟩ := ih hrest
    exact ⟨o :: os, .cons ho hos⟩

/-- **An evaluation never gets stuck**: as long as a node has not handed its outcome on, and none
has failed, there is a move, whatever the sources answer. There are `s'` and `own` with
`e.Move root allowed s s' ∧ s'.asked = s.asked ++ own ∧ Dialogue.Follows answers s.asked own`. -/
theorem exists_move (e : Engine) (answers : List Exchange → Sources) (hfailed : s.failed = [])
    (hanswers : ∀ own, Dialogue.Follows answers s.asked own → ∀ x ∈ own, allowed x)
    (hn : root.at? path = some n) (hnot : ¬∃ o, s.HandsOn path o) :
    ∃ s' own, e.Move root allowed s s' ∧ s'.asked = s.asked ++ own ∧
      Dialogue.Follows answers s.asked own := by
  induction n using Node.induction generalizing path with
  | node n ih =>
    by_cases hmem : path ∈ s.paths
    · -- only the message is missing
      obtain ⟨⟨_, o⟩, hcompleted, rfl⟩ := List.mem_map.1 hmem
      obtain ⟨k, hk⟩ := List.mem_iff_getElem?.1 hcompleted
      refine ⟨_, [], .send (List.getElem?_eq_some_iff.1 hk).1 fun hsent => ?_,
        (List.append_nil _).symm, trivial⟩
      exact hnot ⟨o, k, hsent, hk⟩
    · by_cases hall : ∀ child ∈ n.children.zipIdx, ∃ o, s.HandsOn (path ++ [child.2]) o
      · obtain ⟨os, hos⟩ := exists_atPlaces (fun o path _ => s.HandsOn path o) hall
        have hnone : path ∉ s.failures := by
          rw [Stage.failures, hfailed]
          exact List.not_mem_nil
        have hready : s.Ready root path n os := ⟨hn, hmem, hnone, hos⟩
        obtain ⟨own, r, hheld, hfollows⟩ :=
          (e.converse path n os).exists_held answers s.asked
        cases r with
        | ok o => exact ⟨_, own, .complete hready hheld (hanswers own hfollows), rfl, hfollows⟩
        | error cause =>
          exact ⟨_, own, .fail hready hheld (hanswers own hfollows), rfl, hfollows⟩
      · -- some child has not handed its outcome on
        obtain ⟨⟨child, i⟩, hchild⟩ := Classical.not_forall.1 hall
        obtain ⟨hmem, hchild⟩ := Classical.not_imp.1 hchild
        have hget := List.mem_zipIdx_iff_getElem?.1 hmem
        exact ih child (List.mem_of_getElem? hget) ((Node.at?_concat hn i).trans hget) hchild

/-- `s'.size = s.size + 1`: a move is one. -/
theorem Move.size (hmove : e.Move root allowed s s') : s'.size = s.size + 1 := by
  cases hmove with
  | complete =>
    simp only [Stage.size, List.length_append, List.length_singleton]
    omega
  | fail =>
    simp only [Stage.size, List.length_append, List.length_singleton]
    omega
  | send =>
    simp only [Stage.size, List.length_append, List.length_singleton]
    omega

end Engine

namespace Stage

variable {s : Stage} {root : Node} {o : Outcome}

namespace Sound

/-- The nodes that are counted or have failed are nodes of the query:
`s.completed.length + s.failed.length ≤ root.count`. -/
theorem length_touched_le (h : s.Sound root) :
    s.completed.length + s.failed.length ≤ root.count := by
  have hnodup : (s.paths ++ s.failures).Nodup :=
    h.nodup.append h.failures_nodup fun p hp hfailed => h.disjoint p hfailed hp
  have hsubset : s.paths ++ s.failures ⊆ root.postOrder := fun p hp =>
    Node.mem_postOrder.2 ((List.mem_append.1 hp).elim (h.at_paths p) (h.at_failures p))
  have hlength := List.Nodup.length_le_of_subset hnodup hsubset
  rwa [List.length_append, paths, failures, List.length_map, List.length_map,
    Node.length_postOrder] at hlength

/-- Messages are sent on nodes that are counted: `s.sent.length ≤ s.completed.length`. -/
theorem length_sent_le (h : s.Sound root) : s.sent.length ≤ s.completed.length := by
  have hlength := List.Nodup.length_le_of_subset h.sent_nodup fun k hk =>
    List.mem_range.2 (h.sent_lt k hk)
  rwa [List.length_range] at hlength

/-- **An evaluation comes to an end** after at most two moves for each node:
`s.size ≤ 2 * root.count`. -/
theorem size_le (h : s.Sound root) : s.size ≤ 2 * root.count := by
  have htouched := h.length_touched_le
  have hsent := h.length_sent_le
  unfold size
  omega

/-! ## (6) The end of an evaluation -/

/-- **At the end every node is counted, and its message is sent**: `s.paths.Perm root.postOrder`,
`s.sent.Perm (List.range root.count)`, `s.failed = []` and
`∃ k, root.count = k + 1 ∧ s.completed[k]? = some ([], o) ∧ s.sent.getLast? = some k`. -/
theorem counted (h : s.Sound root) (hroot : s.HandsOn [] o) :
    s.paths.Perm root.postOrder ∧ s.sent.Perm (List.range root.count) ∧ s.failed = [] ∧
      ∃ k, root.count = k + 1 ∧ s.completed[k]? = some ([], o) ∧ s.sent.getLast? = some k := by
  have hall : ∀ p, p ∈ s.paths ↔ p ∈ root.postOrder := by
    intro p
    rw [Node.mem_postOrder]
    exact ⟨h.at_paths p, fun ⟨n, hn⟩ => h.mem_paths_of_root hroot.mem_paths hn⟩
  have hpaths := (List.perm_ext_iff_of_nodup h.nodup root.postOrder_nodup).2 hall
  have hlength : s.completed.length = root.count := by
    rw [← List.length_map (f := Prod.fst)]
    exact hpaths.length_eq.trans root.length_postOrder
  obtain ⟨k, hk, hget⟩ := hroot
  obtain ⟨hlast, hbefore, hsent⟩ := h.root_last k o hget
  refine ⟨hpaths, ?_, ?_, k, hlength.symm.trans hlast.symm, hget, hsent hk⟩
  · refine (List.perm_ext_iff_of_nodup h.sent_nodup List.nodup_range).2 fun j => ?_
    rw [List.mem_range, ← hlength]
    refine ⟨h.sent_lt j, fun hj => ?_⟩
    rcases Nat.lt_or_ge j k with hlt | hge
    · exact hbefore j hlt
    · rwa [show j = k by omega]
  · -- a node that has failed would be one that is left
    refine List.eq_nil_iff_forall_not_mem.2 fun f hf => ?_
    have hmem : f.1 ∈ s.failures := List.mem_map_of_mem hf
    obtain ⟨m, hm⟩ := h.at_failures _ hmem
    exact h.disjoint _ hmem (h.mem_paths_of_root (HandsOn.mem_paths ⟨k, hk, hget⟩) hm)

end Sound

/-- `(s.messages total).map Progress.fraction = s.sent.map (fraction total)`: the parts that
messages tell are those of the places in the order of sending. -/
theorem map_fraction_messages (h : ∀ k ∈ s.sent, k < s.completed.length) (total : Nat) :
    (s.messages total).map Progress.fraction = s.sent.map (fraction total) := by
  rw [messages, List.map_filterMap, ← List.filterMap_eq_map']
  refine List.filterMap_congr fun k hk => ?_
  rw [message?, List.getElem?_eq_getElem (h k hk)]
  rfl

/-- `(s.messages total).getLast? = some ⟨o.title, fraction total k⟩`: the last message is that on
the node whose message was sent last. -/
theorem getLast?_messages {k : Nat} {path : Path} (hsent : s.sent.getLast? = some k)
    (hget : s.completed[k]? = some (path, o)) (total : Nat) :
    (s.messages total).getLast? = some ⟨o.title, fraction total k⟩ := by
  obtain ⟨before, hbefore⟩ := List.getLast?_eq_some_iff.1 hsent
  have hmessage : s.message? total k = some ⟨o.title, fraction total k⟩ := by
    rw [message?, hget]
    rfl
  rw [messages, hbefore, List.filterMap_append, List.filterMap_cons_some hmessage]
  exact List.getLast?_concat

end Stage

end PanelQuery
