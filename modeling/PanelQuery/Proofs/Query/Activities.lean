import PanelQuery.Proofs.Query.Stages

/-! # Activities and their buffers

What goes on while a query is evaluated is a tree of calls. Each call has a buffer for the path of
its node. Children in turn share the buffer of their parent: the place of a child is pushed on it and
popped again. Children that may be evaluated at the same time have copies, and take their steps in
any order. Whether there are such children is up to `Settings.parallel`.

* **`Activity`, `Engine.Advances`** — the calls that are open at a node, and their single steps;
* **`Engine.Session`** — what may go on after some steps;
* **`Activity.weight`, `Engine.Advances.weight_lt`** — every session comes to an end;
* **`Activity.Fits`** — buffers that hold the paths of their nodes, at a stage of the evaluation;
* **`Engine.Advances.fits`, `Engine.Session.reaches`** — so it stays, and what goes on is a schedule
  of moves as in `Engine.Reaches`;
* **`Engine.exists_advances`** — no session gets stuck. -/

namespace PanelQuery

/-! ## (1) Activities and sessions -/

/-- The calls that are open at a node and below it. -/
inductive Activity where
  /-- The node is called, and nothing has been done yet. -/
  | called (n : Node) (buffer : Path)
  /-- Of children in turn, one is active and has the buffer. Those before it have handed on `done`. -/
  | inTurn (n : Node) (done : List Outcome) (child : Activity) (later : List Node)
  /-- Children that may be evaluated at the same time, on copies of `base`. -/
  | forked (n : Node) (base : Path) (children : List Activity)
  /-- All children have handed on their outcomes. -/
  | computing (n : Node) (buffer : Path) (os : List Outcome)
  /-- The node is counted at a place, and its message is not sent yet. -/
  | counted (o : Outcome) (k : Nat) (buffer : Path)
  | returned (o : Outcome) (buffer : Path)
  | failed (cause : QueryError) (buffer : Path)

/-- Nothing goes on any more, or nothing has been done yet. -/
def Activity.Settled : Activity → Prop
  | called _ _ => True
  | returned _ _ => True
  | failed _ _ => True
  | _ => False

namespace Engine

/-- A node begins with its children: with all of them, each on a copy of the buffer, or with the
first one, which shares it. -/
def begin (e : Engine) (n : Node) (buffer : Path) : Activity :=
  if e.settings.parallel ∧ 1 < n.children.length then
    .forked n buffer (n.children.zipIdx.map fun child => .called child.1 (buffer ++ [child.2]))
  else
    match n.children with
    | [] => .computing n buffer []
    | child :: later => .inTurn n [] (.called child (buffer ++ [0])) later

/-- One step of an activity, from one stage of the evaluation to the next, when calls get answers of
some kind. Reports are made with the path that the buffer holds. -/
inductive Advances (e : Engine) (allowed : Exchange → Prop) :
    Stage → Activity → Stage → Activity → Prop
  | begin {s : Stage} {n : Node} {buffer : Path} :
      Advances e allowed s (.called n buffer) s (e.begin n buffer)
  | inTurn {s s' : Stage} {n : Node} {done : List Outcome} {child child' : Activity}
      {later : List Node} (h : Advances e allowed s child s' child') :
      Advances e allowed s (.inTurn n done child later) s' (.inTurn n done child' later)
  | next {s : Stage} {n : Node} {done : List Outcome} {o : Outcome} {buffer : Path} {child : Node}
      {later : List Node} :
      Advances e allowed s (.inTurn n done (.returned o buffer) (child :: later)) s
        (.inTurn n (done ++ [o]) (.called child (buffer.dropLast ++ [done.length + 1])) later)
  | last {s : Stage} {n : Node} {done : List Outcome} {o : Outcome} {buffer : Path} :
      Advances e allowed s (.inTurn n done (.returned o buffer) []) s
        (.computing n buffer.dropLast (done ++ [o]))
  | leave {s : Stage} {n : Node} {done : List Outcome} {cause : QueryError} {buffer : Path}
      {later : List Node} :
      Advances e allowed s (.inTurn n done (.failed cause buffer) later) s
        (.failed cause buffer.dropLast)
  | forked {s s' : Stage} {n : Node} {base : Path} {before after : List Activity}
      {child child' : Activity} (h : Advances e allowed s child s' child') :
      Advances e allowed s (.forked n base (before ++ child :: after)) s'
        (.forked n base (before ++ child' :: after))
  | join {s : Stage} {n : Node} {base : Path} {children : List Activity} {os : List Outcome}
      (h : List.Forall₂ (fun o c => ∃ buffer, c = .returned o buffer) os children) :
      Advances e allowed s (.forked n base children) s (.computing n base os)
  | abandon {s : Stage} {n : Node} {base buffer : Path} {children : List Activity}
      {cause : QueryError} (h : .failed cause buffer ∈ children)
      (hall : ∀ c ∈ children, c.Settled) :
      Advances e allowed s (.forked n base children) s (.failed cause base)
  | complete {s : Stage} {n : Node} {buffer : Path} {os : List Outcome} {own : List Exchange}
      {o : Outcome} (hheld : (e.converse buffer n os).Held own (.ok o))
      (hallowed : ∀ x ∈ own, allowed x) :
      Advances e allowed s (.computing n buffer os)
        { s with completed := s.completed ++ [(buffer, o)], asked := s.asked ++ own }
        (.counted o s.completed.length buffer)
  | fail {s : Stage} {n : Node} {buffer : Path} {os : List Outcome} {own : List Exchange}
      {cause : QueryError} (hheld : (e.converse buffer n os).Held own (.error cause))
      (hallowed : ∀ x ∈ own, allowed x) :
      Advances e allowed s (.computing n buffer os)
        { s with failed := s.failed ++ [(buffer, cause)], asked := s.asked ++ own }
        (.failed cause buffer)
  | send {s : Stage} {o : Outcome} {k : Nat} {buffer : Path} :
      Advances e allowed s (.counted o k buffer) { s with sent := s.sent ++ [k] }
        (.returned o buffer)

/-- What may go on after some steps of the evaluation of a query. At first the root is called with an
empty buffer. -/
inductive Session (e : Engine) (root : Node) (allowed : Exchange → Prop) :
    (steps : Nat) → Stage → Activity → Prop
  | start : Session e root allowed 0 {} (.called root [])
  | step {k : Nat} {s s' : Stage} {a a' : Activity} (h : Session e root allowed k s a)
      (hstep : e.Advances allowed s a s' a') : Session e root allowed (k + 1) s' a'

end Engine

/-! ## (2) Sessions come to an end -/

namespace Activity

mutual

/-- A bound on the number of steps that are left. -/
def weight : Activity → Nat
  | called n _ => 5 * n.count
  | inTurn _ _ child later => child.weight + 5 * Node.countAll later + 3
  | forked _ _ children => weightAll children + 4
  | computing _ _ _ => 3
  | counted _ _ _ => 2
  | returned _ _ => 1
  | failed _ _ => 1

/-- A bound on the number of steps that are left for several activities. -/
def weightAll : List Activity → Nat
  | [] => 0
  | a :: rest => a.weight + weightAll rest

end

/-- `weightAll (before ++ a :: after) = weightAll before + a.weight + weightAll after`: several
activities, one of them picked out. -/
theorem weightAll_append (before : List Activity) (a : Activity) (after : List Activity) :
    weightAll (before ++ a :: after) = weightAll before + a.weight + weightAll after := by
  induction before with
  | nil => rw [List.nil_append, weightAll, weightAll, Nat.zero_add]
  | cons b before ih =>
    rw [List.cons_append, weightAll, weightAll, ih]
    omega

/-- Nodes that are called:
`weightAll ((ns.zipIdx i).map fun child => .called child.1 (base ++ [child.2]))` is
`5 * Node.countAll ns`. -/
theorem weightAll_called (base : Path) (i : Nat) (ns : List Node) :
    weightAll ((ns.zipIdx i).map fun child => .called child.1 (base ++ [child.2])) =
      5 * Node.countAll ns := by
  induction ns generalizing i with
  | nil => rfl
  | cons n ns ih =>
    rw [List.zipIdx_cons, List.map_cons, weightAll, weight, ih, Node.countAll, Nat.mul_add]

end Activity

namespace Engine

variable {e : Engine} {root : Node} {allowed : Exchange → Prop} {s s' : Stage} {a a' : Activity}

/-- A node that begins has less to do: `(e.begin n buffer).weight < 5 * n.count`. -/
theorem weight_begin_lt (e : Engine) (n : Node) (buffer : Path) :
    (e.begin n buffer).weight < 5 * n.count := by
  cases n with
  | mk kind arguments children =>
    unfold begin
    split
    · rw [Activity.weight, Activity.weightAll_called, Node.count]
      dsimp only
      omega
    · cases children with
      | nil =>
        rw [Activity.weight, Node.count]
        omega
      | cons child later =>
        rw [Activity.weight, Activity.weight, Node.count, Node.countAll]
        omega

/-- **With every step there is less to do**: `a'.weight < a.weight`. -/
theorem Advances.weight_lt (h : e.Advances allowed s a s' a') : a'.weight < a.weight := by
  induction h with
  | begin =>
    rw [Activity.weight]
    exact e.weight_begin_lt _ _
  | inTurn _ ih =>
    rw [Activity.weight, Activity.weight]
    omega
  | next =>
    simp only [Activity.weight, Node.countAll]
    omega
  | forked _ ih =>
    rw [Activity.weight, Activity.weight, Activity.weightAll_append, Activity.weightAll_append]
    omega
  | _ =>
    simp only [Activity.weight]
    omega

/-- **Sessions come to an end** after at most five steps for each node: `k ≤ 5 * root.count`. -/
theorem Session.length_le {k : Nat} (h : e.Session root allowed k s a) : k ≤ 5 * root.count := by
  have hweight : k + a.weight ≤ 5 * root.count := by
    induction h with
    | start =>
      rw [Activity.weight]
      omega
    | step _ hstep ih =>
      have hlt := hstep.weight_lt
      omega
  omega

end Engine

/-! ## (3) Paths of other branches -/

/-- Neither path leads on from the other. -/
structure Path.Apart (p q : Path) : Prop where
  left : ¬p <+: q
  right : ¬q <+: p

namespace Path

variable {p q r : Path}

/-- What is below `p` is not below a path apart from it. -/
theorem Apart.not_below (h : Apart p q) (hr : p <+: r) : ¬q <+: r := fun hq =>
  (List.prefix_or_prefix_of_prefix hr hq).elim h.left h.right

/-- One step on from a path: `Apart p (q ++ [i])`. -/
theorem Apart.concat (h : Apart p q) (i : Nat) : Apart p (q ++ [i]) where
  left hp := h.right ((List.prefix_concat_iff.1 hp).elim (fun heq => heq ▸ List.prefix_append _ _)
    fun hp => absurd hp h.left)
  right hq := h.right ((List.prefix_append q [i]).trans hq)

/-- Steps to different children: `Apart (p ++ [i]) (p ++ [j])`. -/
theorem apart_concat {i j : Nat} (hne : i ≠ j) (p : Path) : Apart (p ++ [i]) (p ++ [j]) where
  left hp := hne <| by simpa using hp
  right hq := hne <| Eq.symm <| by simpa using hq

/-- A path does not lead on from its own children: `¬p ++ [i] <+: p`. -/
theorem not_concat_prefix (p : Path) (i : Nat) : ¬p ++ [i] <+: p := fun hp =>
  absurd hp.length_le (by simp)

end Path

namespace Stage

/-- More has been done, all of it at a path or below. -/
structure GrowsAt (s s' : Stage) (path : Path) : Prop where
  completed : ∃ new, s'.completed = s.completed ++ new ∧ ∀ c ∈ new, path <+: c.1
  failed : ∃ causes, s'.failed = s.failed ++ causes ∧ ∀ f ∈ causes, path <+: f.1
  sent : ∃ more, s'.sent = s.sent ++ more ∧ ∀ k ∈ more, ∃ c, s.completed[k]? = some c ∧ path <+: c.1

variable {s s' : Stage} {path : Path}

/-- Nothing more: `s.GrowsAt s path`. -/
theorem GrowsAt.refl (s : Stage) (path : Path) : s.GrowsAt s path where
  completed := ⟨[], (List.append_nil _).symm, List.forall_mem_nil _⟩
  failed := ⟨[], (List.append_nil _).symm, List.forall_mem_nil _⟩
  sent := ⟨[], (List.append_nil _).symm, List.forall_mem_nil _⟩

/-- What is done below a child is done below its parent: `s.GrowsAt s' path`. -/
theorem GrowsAt.parent {i : Nat} (h : s.GrowsAt s' (path ++ [i])) : s.GrowsAt s' path := by
  have hup : ∀ {q : Path}, path ++ [i] <+: q → path <+: q := (List.prefix_append path [i]).trans
  obtain ⟨⟨new, hnew, hcompleted⟩, ⟨causes, hcauses, hfailed⟩, more, hmore, hsent⟩ := h
  refine ⟨⟨new, hnew, fun c hc => hup (hcompleted c hc)⟩,
    ⟨causes, hcauses, fun f hf => hup (hfailed f hf)⟩, more, hmore, fun k hk => ?_⟩
  obtain ⟨c, hc, hbelow⟩ := hsent k hk
  exact ⟨c, hc, hup hbelow⟩

/-- What was handed on is so still: `s'.HandsOn q o`. -/
theorem GrowsAt.handsOn (h : s.GrowsAt s' path) {q : Path} {o : Outcome} (ho : s.HandsOn q o) :
    s'.HandsOn q o := by
  obtain ⟨new, hnew, -⟩ := h.completed
  obtain ⟨more, hmore, -⟩ := h.sent
  exact ho.mono hnew hmore

/-- `Untouched s path`: neither the node at a path nor any below it has been computed. -/
def Untouched (s : Stage) (path : Path) : Prop :=
  ∀ q, path <+: q → q ∉ s.paths ∧ q ∉ s.failures

/-- A node that is computed where another one is not is below the path at which more is done:
`q ∉ s'.paths ∧ q ∉ s'.failures`. -/
theorem GrowsAt.not_mem (h : s.GrowsAt s' path) {q : Path} (hq : ¬path <+: q)
    (hnot : q ∉ s.paths ∧ q ∉ s.failures) : q ∉ s'.paths ∧ q ∉ s'.failures := by
  obtain ⟨⟨new, hnew, hcompleted⟩, ⟨causes, hcauses, hfailed⟩, -⟩ := h
  constructor
  · rw [paths, hnew, List.map_append, List.mem_append, not_or]
    refine ⟨hnot.1, fun hmem => ?_⟩
    obtain ⟨c, hc, rfl⟩ := List.mem_map.1 hmem
    exact hq (hcompleted c hc)
  · rw [failures, hcauses, List.map_append, List.mem_append, not_or]
    refine ⟨hnot.2, fun hmem => ?_⟩
    obtain ⟨f, hf, rfl⟩ := List.mem_map.1 hmem
    exact hq (hfailed f hf)

/-- Nodes apart from where more is done are left untouched: `s'.Untouched q`. -/
theorem GrowsAt.untouched (h : s.GrowsAt s' path) {q : Path} (hapart : Path.Apart path q)
    (hq : s.Untouched q) : s'.Untouched q := fun r hr =>
  h.not_mem (fun hp => hapart.not_below hp hr) (hq r hr)

end Stage

/-! ## (4) Buffers that hold paths -/

/-- An activity at a path of a query, at a stage of its evaluation: every buffer holds the path of
its node, and all outcomes that are held are those that nodes have handed on. -/
inductive Activity.Fits (root : Node) (s : Stage) : Activity → Path → Prop
  | called {n : Node} {path : Path} (hn : root.at? path = some n) (hnew : s.Untouched path) :
      Fits root s (.called n path) path
  | inTurn {n : Node} {path : Path} {done : List Outcome} {child : Activity} {later : List Node}
      (hn : root.at? path = some n) (hnew : path ∉ s.paths ∧ path ∉ s.failures)
      (hdone : Outcome.AtPlaces (fun o path _ => s.HandsOn path o) path done
        (n.children.zipIdx.take done.length))
      (hlt : done.length < n.children.length)
      (hchild : Fits root s child (path ++ [done.length]))
      (hlater : later = n.children.drop (done.length + 1))
      (hwait : ∀ i, done.length < i → s.Untouched (path ++ [i])) :
      Fits root s (.inTurn n done child later) path
  | forked {n : Node} {path : Path} {children : List Activity} (hn : root.at? path = some n)
      (hnew : path ∉ s.paths ∧ path ∉ s.failures) (hlength : children.length = n.children.length)
      (hchildren : ∀ i c, children[i]? = some c → Fits root s c (path ++ [i])) :
      Fits root s (.forked n path children) path
  | computing {n : Node} {path : Path} {os : List Outcome} (hn : root.at? path = some n)
      (hnew : path ∉ s.paths ∧ path ∉ s.failures)
      (hos : Outcome.AtPlaces (fun o path _ => s.HandsOn path o) path os n.children.zipIdx) :
      Fits root s (.computing n path os) path
  | counted {o : Outcome} {k : Nat} {path : Path} (hk : s.completed[k]? = some (path, o))
      (hnew : k ∉ s.sent) : Fits root s (.counted o k path) path
  | returned {o : Outcome} {path : Path} (ho : s.HandsOn path o) :
      Fits root s (.returned o path) path
  | failed {cause : QueryError} {path q : Path} (hf : (q, cause) ∈ s.failed) :
      Fits root s (.failed cause path) path

namespace Activity

variable {root : Node} {s s' : Stage} {a : Activity} {path p : Path}

/-- **An activity is left as it is** by what is done apart from its node: `a.Fits root s' path`. -/
theorem Fits.frame (h : a.Fits root s path) (hgrows : s.GrowsAt s' p)
    (hapart : Path.Apart p path) : a.Fits root s' path := by
  induction h with
  | called hn hnew => exact .called hn (hgrows.untouched hapart hnew)
  | inTurn hn hnew hdone hlt _ hlater hwait ih =>
    refine .inTurn hn (hgrows.not_mem hapart.left hnew) ?_ hlt (ih (hapart.concat _)) hlater ?_
    · exact hdone.mono fun _ _ _ ho => hgrows.handsOn ho
    · exact fun i hi => hgrows.untouched (hapart.concat i) (hwait i hi)
  | forked hn hnew hlength _ ih =>
    exact .forked hn (hgrows.not_mem hapart.left hnew) hlength fun i c hc =>
      ih i c hc (hapart.concat i)
  | computing hn hnew hos =>
    exact .computing hn (hgrows.not_mem hapart.left hnew)
      (hos.mono fun _ _ _ ho => hgrows.handsOn ho)
  | @counted o k path hk hnew =>
    obtain ⟨new, hcompleted, -⟩ := hgrows.completed
    obtain ⟨more, hsent, hmore⟩ := hgrows.sent
    refine .counted ?_ ?_
    · rw [hcompleted, List.getElem?_append_left (List.getElem?_eq_some_iff.1 hk).1, hk]
    · -- messages on other nodes are sent
      rw [hsent, List.mem_append, not_or]
      refine ⟨hnew, fun hmem => ?_⟩
      obtain ⟨c, hc, hbelow⟩ := hmore k hmem
      obtain rfl := Option.some.inj (hk.symm.trans hc)
      exact hapart.left hbelow
  | returned ho => exact .returned (hgrows.handsOn ho)
  | failed hf =>
    obtain ⟨causes, hcauses, -⟩ := hgrows.failed
    exact .failed (hcauses ▸ List.mem_append_left _ hf)

/-- A node that begins on a buffer with its path: `(e.begin n path).Fits root s path`. -/
theorem Fits.begin {n : Node} (hn : root.at? path = some n) (hnew : s.Untouched path)
    (e : Engine) : (e.begin n path).Fits root s path := by
  have hself : path ∉ s.paths ∧ path ∉ s.failures := hnew path List.prefix_rfl
  have hchildren : ∀ i, s.Untouched (path ++ [i]) := fun i q hq =>
    hnew q ((List.prefix_append path [i]).trans hq)
  unfold Engine.begin
  split
  · refine .forked hn hself (by rw [List.length_map, List.length_zipIdx]) fun i c hc => ?_
    rw [List.getElem?_map, List.getElem?_zipIdx, Nat.zero_add] at hc
    obtain ⟨_, hget, rfl⟩ := Option.map_eq_some_iff.1 hc
    obtain ⟨child, hchild, rfl⟩ := Option.map_eq_some_iff.1 hget
    exact .called ((Node.at?_concat hn i).trans hchild) (hchildren i)
  · split
    · rename_i hnil
      refine .computing hn hself ?_
      rw [hnil]
      exact .nil
    · rename_i child later hcons
      refine .inTurn hn hself .nil ?_ (.called ?_ (hchildren 0)) ?_ fun i _ => hchildren i
      · rw [hcons]
        exact Nat.zero_lt_succ _
      · refine (Node.at?_concat hn 0).trans ?_
        rw [hcons]
        rfl
      · rw [hcons]
        rfl

/-- The outcome of one more child in turn: `Outcome.AtPlaces (fun o path _ => s.HandsOn path o) path
(done ++ [o]) (n.children.zipIdx.take (done.length + 1))`. -/
theorem atPlaces_concat {n : Node} {done : List Outcome} {o : Outcome}
    (hdone : Outcome.AtPlaces (fun o path _ => s.HandsOn path o) path done
      (n.children.zipIdx.take done.length)) (hlt : done.length < n.children.length)
    (ho : s.HandsOn (path ++ [done.length]) o) :
    Outcome.AtPlaces (fun o path _ => s.HandsOn path o) path (done ++ [o])
      (n.children.zipIdx.take (done.length + 1)) := by
  have hchild : n.children.zipIdx[done.length]? =
      some (n.children[done.length], done.length) := by
    rw [List.getElem?_zipIdx, List.getElem?_eq_getElem hlt, Option.map_some, Nat.zero_add]
  rw [List.take_add_one, hchild]
  exact List.rel_append hdone (.cons ho .nil)

/-- The outcomes of children that have all returned:
`Outcome.AtPlaces (fun o path _ => s.HandsOn path o) path os n.children.zipIdx`. -/
theorem atPlaces_join {n : Node} {children : List Activity} {os : List Outcome}
    (hlength : children.length = n.children.length)
    (hchildren : ∀ i (c : Activity), children[i]? = some c → c.Fits root s (path ++ [i]))
    (h : List.Forall₂ (fun o c => ∃ buffer, c = Activity.returned o buffer) os children) :
    Outcome.AtPlaces (fun o path _ => s.HandsOn path o) path os n.children.zipIdx := by
  obtain ⟨hos, hreturned⟩ := List.forall₂_iff_get.1 h
  refine List.forall₂_iff_get.2 ⟨by rw [hos, hlength, List.length_zipIdx], fun i hi hi' => ?_⟩
  have hlt : i < children.length := hos ▸ hi
  obtain ⟨buffer, hc⟩ := hreturned i hi hlt
  have hfits := hchildren i _ (List.getElem?_eq_getElem hlt)
  have hplace : (n.children.zipIdx.get ⟨i, hi'⟩).2 = i := by simp
  rw [List.get_eq_getElem] at hc
  rw [hc] at hfits
  rw [hplace]
  cases hfits with
  | returned ho => exact ho

/-- The child in turn: `child.Fits root s (path ++ [done.length])`. -/
theorem Fits.child {n : Node} {done : List Outcome} {child : Activity} {later : List Node}
    (h : (Activity.inTurn n done child later).Fits root s path) :
    child.Fits root s (path ++ [done.length]) := by
  cases h with
  | inTurn _ _ _ _ hchild _ _ => exact hchild

/-- The child in turn has gone on: `(inTurn n done child' later).Fits root s' path`. -/
theorem Fits.ofChild {n : Node} {done : List Outcome} {child child' : Activity} {later : List Node}
    (h : (Activity.inTurn n done child later).Fits root s path)
    (hgrows : s.GrowsAt s' (path ++ [done.length]))
    (hchild : child'.Fits root s' (path ++ [done.length])) :
    (Activity.inTurn n done child' later).Fits root s' path := by
  cases h with
  | inTurn hn hnew hdone hlt _ hlater hwait =>
    refine .inTurn hn (hgrows.not_mem (Path.not_concat_prefix path _) hnew) ?_ hlt hchild hlater ?_
    · exact hdone.mono fun _ _ _ ho => hgrows.handsOn ho
    · exact fun i hi => hgrows.untouched (Path.apart_concat (Nat.ne_of_lt hi) path) (hwait i hi)

/-- The child in turn has returned, and the next one is called on the same buffer:
`(inTurn n (done ++ [o]) (called child (buffer.dropLast ++ [done.length + 1])) later)` fits. -/
theorem Fits.next {n child : Node} {done : List Outcome} {o : Outcome} {buffer : Path}
    {later : List Node}
    (h : (Activity.inTurn n done (.returned o buffer) (child :: later)).Fits root s path) :
    (Activity.inTurn n (done ++ [o]) (.called child (buffer.dropLast ++ [done.length + 1]))
      later).Fits root s path := by
  cases h with
  | inTurn hn hnew hdone hlt hchild hlater hwait =>
    cases hchild with
    | returned ho =>
      have hlength : (done ++ [o]).length = done.length + 1 := List.length_append
      -- the children that are left are those behind the one that has returned
      have hget : n.children[done.length + 1]? = some child := by
        have hhead := congrArg List.head? hlater
        rw [List.head?_drop] at hhead
        exact hhead.symm
      have hdrop : later = n.children.drop (done.length + 1 + 1) := by
        have htail := congrArg List.tail hlater
        rwa [List.tail_drop] at htail
      have hfresh := hwait (done.length + 1) (Nat.lt_succ_self _)
      -- popping its place and pushing the next one gives the path of the next child
      rw [List.dropLast_concat]
      refine .inTurn hn hnew ?_ ?_ ?_ ?_ ?_
      · rw [hlength]
        exact atPlaces_concat hdone hlt ho
      · rw [hlength]
        exact (List.getElem?_eq_some_iff.1 hget).1
      · rw [hlength]
        exact .called ((Node.at?_concat hn _).trans hget) hfresh
      · rw [hlength, hdrop]
      · rw [hlength]
        exact fun i hi => hwait i (Nat.lt_of_succ_lt hi)

/-- The last child in turn has returned: `(computing n buffer.dropLast (done ++ [o])).Fits root s
path`. -/
theorem Fits.last {n : Node} {done : List Outcome} {o : Outcome} {buffer : Path}
    (h : (Activity.inTurn n done (.returned o buffer) []).Fits root s path) :
    (Activity.computing n buffer.dropLast (done ++ [o])).Fits root s path := by
  cases h with
  | inTurn hn hnew hdone hlt hchild hlater hwait =>
    cases hchild with
    | returned ho =>
      have hall := atPlaces_concat hdone hlt ho
      -- no children are left, so the outcomes are those of all
      have hle := List.drop_eq_nil_iff.1 hlater.symm
      rw [List.take_of_length_le (by rwa [List.length_zipIdx])] at hall
      rw [List.dropLast_concat]
      exact .computing hn hnew hall

/-- One of several children: `child.Fits root s (path ++ [before.length])`. -/
theorem Fits.branch {n : Node} {base : Path} {before after : List Activity} {child : Activity}
    (h : (Activity.forked n base (before ++ child :: after)).Fits root s path) :
    child.Fits root s (path ++ [before.length]) := by
  have hget : (before ++ child :: after)[before.length]? = some child := by simp
  cases h with
  | forked _ _ _ hchildren => exact hchildren _ _ hget

/-- One of several children has gone on:
`(forked n base (before ++ child' :: after)).Fits root s' path`. -/
theorem Fits.ofBranch {n : Node} {base : Path} {before after : List Activity}
    {child child' : Activity}
    (h : (Activity.forked n base (before ++ child :: after)).Fits root s path)
    (hgrows : s.GrowsAt s' (path ++ [before.length]))
    (hchild : child'.Fits root s' (path ++ [before.length])) :
    (Activity.forked n base (before ++ child' :: after)).Fits root s' path := by
  cases h with
  | forked hn hnew hlength hchildren =>
    refine .forked hn (hgrows.not_mem (Path.not_concat_prefix path _) hnew) ?_ fun i c hc => ?_
    · rw [← hlength, List.length_append, List.length_append, List.length_cons, List.length_cons]
    · by_cases hi : i = before.length
      · subst hi
        rw [List.getElem?_append_right (Nat.le_refl _), Nat.sub_self] at hc
        exact Option.some.inj hc ▸ hchild
      · -- the other children are apart from the one that has gone on
        have hset : before ++ child' :: after =
            (before ++ child :: after).set before.length child' := by
          simp
        rw [hset, List.getElem?_set_ne (Ne.symm hi)] at hc
        exact (hchildren i c hc).frame hgrows (Path.apart_concat (Ne.symm hi) path)

end Activity

/-! ## (5) Sessions as schedules -/

namespace Engine

variable {e : Engine} {root : Node} {allowed : Exchange → Prop} {s s' : Stage} {a a' : Activity}
  {path : Path}

/-- **Every step keeps the buffers right.** It is a move of the evaluation, at the node of the
activity or below, or changes nothing but the activity:
`a'.Fits root s' path ∧ (s' = s ∨ e.Move root allowed s s') ∧ s.GrowsAt s' path`. -/
theorem Advances.fits (h : e.Advances allowed s a s' a') (hs : s.Sound root)
    (hfits : a.Fits root s path) :
    a'.Fits root s' path ∧ (s' = s ∨ e.Move root allowed s s') ∧ s.GrowsAt s' path := by
  induction h generalizing path with
  | begin =>
    cases hfits with
    | called hn hnew => exact ⟨.begin hn hnew e, .inl rfl, .refl s _⟩
  | inTurn hstep ih =>
    obtain ⟨hchild, hmove, hgrows⟩ := ih hfits.child
    exact ⟨hfits.ofChild hgrows hchild, hmove, hgrows.parent⟩
  | next => exact ⟨hfits.next, .inl rfl, .refl s _⟩
  | last => exact ⟨hfits.last, .inl rfl, .refl s _⟩
  | leave =>
    cases hfits with
    | inTurn hn hnew hdone hlt hchild hlater hwait =>
      cases hchild with
      | failed hf =>
        rw [List.dropLast_concat]
        exact ⟨.failed hf, .inl rfl, .refl s _⟩
  | forked hstep ih =>
    obtain ⟨hchild, hmove, hgrows⟩ := ih hfits.branch
    exact ⟨hfits.ofBranch hgrows hchild, hmove, hgrows.parent⟩
  | join h =>
    cases hfits with
    | forked hn hnew hlength hchildren =>
      exact ⟨.computing hn hnew (Activity.atPlaces_join hlength hchildren h), .inl rfl,
        .refl s _⟩
  | abandon hmem hall =>
    cases hfits with
    | forked hn hnew hlength hchildren =>
      obtain ⟨i, hi⟩ := List.mem_iff_getElem?.1 hmem
      have hfits := hchildren i _ hi
      cases hfits with
      | failed hf => exact ⟨.failed hf, .inl rfl, .refl s _⟩
  | complete hheld hallowed =>
    cases hfits with
    | computing hn hnew hos =>
      refine ⟨.counted List.getElem?_concat_length fun hk => ?_,
        .inr (.complete ⟨hn, hnew.1, hnew.2, hos⟩ hheld hallowed), ?_⟩
      · exact Nat.lt_irrefl _ (hs.sent_lt _ hk)
      · exact ⟨⟨_, rfl, List.forall_mem_singleton.2 List.prefix_rfl⟩,
          (Stage.GrowsAt.refl s _).failed, (Stage.GrowsAt.refl s _).sent⟩
  | fail hheld hallowed =>
    cases hfits with
    | computing hn hnew hos =>
      refine ⟨.failed (List.mem_append_right _ (List.mem_singleton_self _)),
        .inr (.fail ⟨hn, hnew.1, hnew.2, hos⟩ hheld hallowed), ?_⟩
      exact ⟨(Stage.GrowsAt.refl s _).completed,
        ⟨_, rfl, List.forall_mem_singleton.2 List.prefix_rfl⟩, (Stage.GrowsAt.refl s _).sent⟩
  | send =>
    cases hfits with
    | counted hk hnew =>
      refine ⟨.returned ⟨_, List.mem_append_right _ (List.mem_singleton_self _), hk⟩,
        .inr (.send (List.getElem?_eq_some_iff.1 hk).1 hnew), ?_⟩
      exact ⟨(Stage.GrowsAt.refl s _).completed, (Stage.GrowsAt.refl s _).failed,
        ⟨_, rfl, List.forall_mem_singleton.2 ⟨_, hk, List.prefix_rfl⟩⟩⟩

/-- Children that have all returned hand their outcomes on together:
`∃ os, List.Forall₂ (fun o c => ∃ buffer, c = Activity.returned o buffer) os children`. -/
theorem exists_join {children : List Activity}
    (h : ∀ c ∈ children, ∃ o buffer, c = Activity.returned o buffer) :
    ∃ os, List.Forall₂ (fun o c => ∃ buffer, c = Activity.returned o buffer) os children := by
  induction children with
  | nil => exact ⟨[], .nil⟩
  | cons c children ih =>
    obtain ⟨⟨o, buffer, hc⟩, hrest⟩ := List.forall_mem_cons.1 h
    obtain ⟨os, hos⟩ := ih hrest
    exact ⟨o :: os, .cons ⟨buffer, hc⟩ hos⟩

/-- **No activity gets stuck**: it has returned, it has failed, or it takes one more step, whatever
the sources answer. `(∃ o, a = .returned o path)`, `(∃ cause, a = .failed cause path)` or there are
`s'`, `a'` and `own` with `e.Advances allowed s a s' a'`, `s'.asked = s.asked ++ own` and
`Dialogue.Follows answers s.asked own`. -/
theorem exists_advances (e : Engine) (answers : List Exchange → Sources)
    (hanswers : ∀ own, Dialogue.Follows answers s.asked own → ∀ x ∈ own, allowed x)
    (hfits : a.Fits root s path) :
    (∃ o, a = .returned o path) ∨ (∃ cause, a = .failed cause path) ∨
      ∃ s' a' own, e.Advances allowed s a s' a' ∧ s'.asked = s.asked ++ own ∧
        Dialogue.Follows answers s.asked own := by
  induction hfits with
  | called hn hnew => exact .inr (.inr ⟨s, _, [], .begin, (List.append_nil _).symm, trivial⟩)
  | @inTurn n path done child later hn hnew hdone hlt hchild hlater hwait ih =>
    refine .inr (.inr ?_)
    obtain ⟨o, rfl⟩ | ⟨cause, rfl⟩ | ⟨s', child', own, hstep, hasked, hfollows⟩ := ih
    · cases later with
      | nil => exact ⟨s, _, [], .last, (List.append_nil _).symm, trivial⟩
      | cons child later => exact ⟨s, _, [], .next, (List.append_nil _).symm, trivial⟩
    · exact ⟨s, _, [], .leave, (List.append_nil _).symm, trivial⟩
    · exact ⟨s', _, own, .inTurn hstep, hasked, hfollows⟩
  | @forked n path children hn hnew hlength hchildren ih =>
    refine .inr (.inr ?_)
    by_cases hgoes : ∃ c ∈ children, ∃ s' c' own, e.Advances allowed s c s' c' ∧
        s'.asked = s.asked ++ own ∧ Dialogue.Follows answers s.asked own
    · obtain ⟨c, hmem, s', c', own, hstep, hasked, hfollows⟩ := hgoes
      obtain ⟨before, after, rfl⟩ := List.append_of_mem hmem
      exact ⟨s', _, own, .forked hstep, hasked, hfollows⟩
    · -- every child has returned or failed
      have hover : ∀ c ∈ children, (∃ o buffer, c = .returned o buffer) ∨
          ∃ cause buffer, c = .failed cause buffer := by
        intro c hmem
        obtain ⟨i, hi⟩ := List.mem_iff_getElem?.1 hmem
        obtain ⟨o, hc⟩ | ⟨cause, hc⟩ | hstep := ih i c hi
        · exact .inl ⟨o, _, hc⟩
        · exact .inr ⟨cause, _, hc⟩
        · exact absurd ⟨c, hmem, hstep⟩ hgoes
      by_cases hfails : ∃ cause buffer, Activity.failed cause buffer ∈ children
      · obtain ⟨cause, buffer, hmem⟩ := hfails
        refine ⟨s, _, [], .abandon hmem fun c hc => ?_, (List.append_nil _).symm, trivial⟩
        obtain ⟨o, buffer, rfl⟩ | ⟨cause, buffer, rfl⟩ := hover c hc <;> trivial
      · obtain ⟨os, hos⟩ := exists_join fun c hc => (hover c hc).resolve_right <| by
          rintro ⟨cause, buffer, rfl⟩
          exact hfails ⟨cause, buffer, hc⟩
        exact ⟨s, _, [], .join hos, (List.append_nil _).symm, trivial⟩
  | @computing n path os hn hnew hos =>
    refine .inr (.inr ?_)
    obtain ⟨own, r, hheld, hfollows⟩ := (e.converse path n os).exists_held answers s.asked
    cases r with
    | ok o => exact ⟨_, _, own, .complete hheld (hanswers own hfollows), rfl, hfollows⟩
    | error cause => exact ⟨_, _, own, .fail hheld (hanswers own hfollows), rfl, hfollows⟩
  | counted hk hnew =>
    exact .inr (.inr ⟨_, _, [], .send, (List.append_nil _).symm, trivial⟩)
  | returned ho => exact .inl ⟨_, rfl⟩
  | failed hf => exact .inr (.inl ⟨_, rfl⟩)

/-- **Sessions are schedules of moves**, with buffers that hold the paths of their nodes:
`e.Reaches root allowed s ∧ a.Fits root s []`. -/
theorem Session.reaches {k : Nat} (h : e.Session root allowed k s a) :
    e.Reaches root allowed s ∧ a.Fits root s [] := by
  induction h with
  | start =>
    exact ⟨.refl, .called root.at?_nil fun q _ => ⟨List.not_mem_nil, List.not_mem_nil⟩⟩
  | step _ hstep ih =>
    obtain ⟨hreaches, hfits⟩ := ih
    obtain ⟨hfits', hmove, -⟩ := hstep.fits hreaches.sound hfits
    refine ⟨?_, hfits'⟩
    rcases hmove with rfl | hmove
    · exact hreaches
    · exact hreaches.tail hmove

/-- `s.HandsOn [] o ∧ buffer = []`: what a session returns is returned at its stage, and the buffer
is as empty as at first. -/
theorem Session.of_returned {k : Nat} {o : Outcome} {buffer : Path}
    (h : e.Session root allowed k s (.returned o buffer)) : s.HandsOn [] o ∧ buffer = [] := by
  obtain ⟨-, hfits⟩ := h.reaches
  cases hfits with
  | returned ho => exact ⟨ho, rfl⟩

/-- `s.Returns (.error cause) ∧ buffer = []`: a session fails with what a node has failed with. -/
theorem Session.of_failed {k : Nat} {cause : QueryError} {buffer : Path}
    (h : e.Session root allowed k s (.failed cause buffer)) :
    s.Returns (.error cause) ∧ buffer = [] := by
  obtain ⟨-, hfits⟩ := h.reaches
  cases hfits with
  | failed hf => exact ⟨.error hf, rfl⟩

end Engine

end PanelQuery
