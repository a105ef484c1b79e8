import Mathlib.Data.List.Nodup
import Mathlib.Data.List.Pairwise
import Mathlib.Data.List.TakeWhile
import Mathlib.Tactic.ByContra
import PanelQuery.Episode
import PanelQuery.Proofs.Series.Order

/-! # Episodes are stretches of nonzero weight

The episodes of a weight are found in one pass over its points. What the pass finds is said here
without it. Points are a zero and other points, or a stretch of nonzero points and others that begin
with a zero or are none; so what holds of the stretches of points is proved by induction on the
points in this form.

* **`Points.Stretch`, `Points.Stretch.episode`** — a maximal stretch of nonzero points, and the
  times it spans;
* **`Points.stretch_induction`** — induction on points, stretch by stretch;
* **`Points.episodes_append`** — what the pass does with a stretch;
* **`Points.Stretch.mem_points_iff`** — the points of a stretch, by their times;
* **`Points.EpisodesAreStretches`, `Points.episodes_areStretches`** — episodes and stretches. -/

namespace PanelQuery

variable {α : Type} [Scalar α]

/-! ## (1) Stretches -/

/-- Whether a point is other than zero. -/
def Point.isNonzero (p : Point α) : Bool := !(p.value == 0)

namespace Points

/-- Points that begin with a zero, or are none. -/
def StartsAtZero (ps : Points α) : Prop := ∀ p, ps.head? = some p → p.isNonzero = false

/-- Points that end with a zero, or are none. -/
def EndsAtZero (ps : Points α) : Prop := ∀ p, ps.getLast? = some p → p.isNonzero = false

/-- A stretch of nonzero points, which no nonzero point is next to. -/
@[ext] structure Stretch (ps : Points α) where
  /-- The points before the stretch. -/
  before : Points α
  points : Points α
  /-- The points behind the stretch. -/
  after : Points α
  eq : before ++ (points ++ after) = ps
  ne_nil : points ≠ []
  nonzero : ∀ p ∈ points, p.isNonzero = true
  left : before.EndsAtZero
  right : after.StartsAtZero

variable {ps run rest : Points α} {z : Point α}

/-- Points that end with a zero do so behind another one as well: `EndsAtZero (z :: ps)`. -/
theorem EndsAtZero.cons (hz : z.isNonzero = false) (h : ps.EndsAtZero) :
    EndsAtZero (z :: ps) := by
  intro p hp
  rw [List.getLast?_cons, Option.some_inj] at hp
  cases hlast : ps.getLast? with
  | none =>
    rw [hlast, Option.getD_none] at hp
    exact hp ▸ hz
  | some q =>
    rw [hlast, Option.getD_some] at hp
    exact hp ▸ h q hlast

/-- The last of some points counts when others come before it: `run.EndsAtZero`. -/
theorem EndsAtZero.of_append (h : EndsAtZero (ps ++ run)) : run.EndsAtZero := by
  intro p hp
  refine h p ?_
  rw [List.getLast?_append, hp, Option.some_or]

/-- Nonzero points do not end with a zero: `¬run.EndsAtZero`. -/
theorem not_endsAtZero (hne : run ≠ []) (hrun : ∀ p ∈ run, p.isNonzero = true) :
    ¬run.EndsAtZero := by
  intro h
  have hzero := h _ (List.getLast?_eq_some_getLast hne)
  rw [hrun _ (List.getLast_mem hne)] at hzero
  cases hzero

/-- `(run ++ rest).takeWhile Point.isNonzero = run`: the nonzero points that a list begins with end
where a zero follows. -/
theorem takeWhile_append_of_startsAtZero (hrun : ∀ p ∈ run, p.isNonzero = true)
    (hrest : rest.StartsAtZero) : (run ++ rest).takeWhile Point.isNonzero = run := by
  have hnone : rest.takeWhile Point.isNonzero = [] := by
    cases rest with
    | nil => rfl
    | cons p rest => exact List.takeWhile_cons_of_neg (by simp [hrest p rfl])
  rw [List.takeWhile_append_of_pos hrun, hnone, List.append_nil]

namespace Stretch

/-- The time of the first point. -/
def start (s : ps.Stretch) : Instant := (s.points.head s.ne_nil).time

/-- The time of the first zero behind the stretch, or of its last point where there is none. -/
def stop (s : ps.Stretch) : Instant := (s.after.head?.getD (s.points.getLast s.ne_nil)).time

/-- The times that a stretch spans. -/
def episode (s : ps.Stretch) : Episode := ⟨s.start, s.stop⟩

/-- The points of a stretch are some of the points: `p ∈ ps`. -/
theorem mem_of_mem_points (s : ps.Stretch) {p : Point α} (hp : p ∈ s.points) : p ∈ ps :=
  s.eq ▸ List.mem_append_right s.before (List.mem_append_left s.after hp)

/-- No points have no stretch: `False`. -/
theorem not_nil (s : Stretch ([] : Points α)) : False :=
  s.ne_nil (List.append_eq_nil_iff.1 (List.append_eq_nil_iff.1 s.eq).2).1

/-- A stretch behind a zero. -/
def behindZero (hz : z.isNonzero = false) (s : ps.Stretch) : Stretch (z :: ps) where
  before := z :: s.before
  points := s.points
  after := s.after
  eq := by rw [List.cons_append, s.eq]
  ne_nil := s.ne_nil
  nonzero := s.nonzero
  left := s.left.cons hz
  right := s.right

/-- **Behind a zero** there are the stretches of the points behind it:
`∃ s' : ps.Stretch, s = s'.behindZero hz`. -/
theorem exists_eq_behindZero (hz : z.isNonzero = false) (s : Stretch (z :: ps)) :
    ∃ s' : ps.Stretch, s = s'.behindZero hz := by
  obtain ⟨before, points, after, heq, hne, hnonzero, hleft, hright⟩ := s
  cases before with
  | nil =>
    -- the stretch would begin with the zero
    cases points with
    | nil => exact absurd rfl hne
    | cons p points =>
      obtain ⟨rfl, -⟩ := List.cons_eq_cons.1 heq
      rw [hnonzero p List.mem_cons_self] at hz
      cases hz
  | cons z' before =>
    obtain ⟨rfl, hrest⟩ := List.cons_eq_cons.1 heq
    have hleft' : EndsAtZero before :=
      EndsAtZero.of_append (show EndsAtZero ([z'] ++ before) from hleft)
    exact ⟨⟨before, points, after, hrest, hne, hnonzero, hleft', hright⟩, rfl⟩

/-- Nonzero points before a zero are a stretch. -/
def first (hne : run ≠ []) (hrun : ∀ p ∈ run, p.isNonzero = true) (hrest : rest.StartsAtZero) :
    Stretch (run ++ rest) where
  before := []
  points := run
  after := rest
  eq := rfl
  ne_nil := hne
  nonzero := hrun
  left := nofun
  right := hrest

/-- `behindStretch run hrest s`: a stretch behind another one. -/
def behindStretch (run : Points α) (hrest : rest.StartsAtZero) (s : rest.Stretch) :
    Stretch (run ++ rest) where
  before := run ++ s.before
  points := s.points
  after := s.after
  eq := by rw [List.append_assoc, s.eq]
  ne_nil := s.ne_nil
  nonzero := s.nonzero
  left p hp := by
    have hbefore : s.before ≠ [] := by
      -- the stretch would begin with the zero that follows the other one
      intro hnil
      have hhead : rest.head? = some (s.points.head s.ne_nil) := by
        have heq := congrArg List.head? s.eq
        rw [hnil, List.nil_append, List.head?_append, List.head?_eq_some_head s.ne_nil,
          Option.some_or] at heq
        exact heq.symm
      have hzero := hrest _ hhead
      rw [s.nonzero _ (List.head_mem s.ne_nil)] at hzero
      cases hzero
    rw [List.getLast?_append, List.getLast?_eq_some_getLast hbefore, Option.some_or,
      ← List.getLast?_eq_some_getLast hbefore] at hp
    exact s.left p hp
  right := s.right

/-- **From nonzero points on** there are the stretch of these points and those behind it:
`s = first hne hrun hrest ∨ ∃ s' : rest.Stretch, s = s'.behindStretch run hrest`. -/
theorem eq_first_or_behindStretch (hne : run ≠ []) (hrun : ∀ p ∈ run, p.isNonzero = true)
    (hrest : rest.StartsAtZero) (s : Stretch (run ++ rest)) :
    s = first hne hrun hrest ∨ ∃ s' : rest.Stretch, s = s'.behindStretch run hrest := by
  obtain ⟨before, points, after, heq, hne', hnonzero, hleft, hright⟩ := s
  rcases List.append_eq_append_iff.1 heq with ⟨c, rfl, hc⟩ | ⟨c, rfl, hc⟩
  · -- the zero that comes before the stretch is none of the nonzero points
    have hbefore : before = [] := by_contra fun hbefore =>
      not_endsAtZero hbefore (fun p hp => hrun p (List.mem_append_left c hp)) hleft
    subst hbefore
    have hpoints := congrArg (List.takeWhile Point.isNonzero) hc
    rw [takeWhile_append_of_startsAtZero hnonzero hright, ← List.nil_append c,
      takeWhile_append_of_startsAtZero hrun hrest, List.nil_append] at hpoints
    subst hpoints
    obtain rfl := List.append_cancel_left hc
    exact .inl rfl
  · exact .inr ⟨⟨c, points, after, hc.symm, hne', hnonzero, hleft.of_append, hright⟩, rfl⟩

end Stretch

/-- **Induction on points, stretch by stretch**: `motive ps`. -/
theorem stretch_induction {motive : Points α → Prop} (nil : motive [])
    (zero : ∀ z ps, z.isNonzero = false → motive ps → motive (z :: ps))
    (stretch : ∀ run rest, run ≠ [] → (∀ p ∈ run, p.isNonzero = true) → StartsAtZero rest →
      motive rest → motive (run ++ rest)) (ps : Points α) : motive ps := by
  induction hn : ps.length using Nat.strong_induction_on generalizing ps with
  | _ n ih =>
    subst hn
    cases ps with
    | nil => exact nil
    | cons p ps =>
      by_cases hp : p.isNonzero = true
      · have hsplit : (p :: ps).takeWhile Point.isNonzero ++ (p :: ps).dropWhile Point.isNonzero =
            p :: ps := List.takeWhile_append_dropWhile
        have hshorter : ((p :: ps).dropWhile Point.isNonzero).length < (p :: ps).length := by
          rw [List.dropWhile_cons_of_pos hp, List.length_cons]
          exact Nat.lt_succ_of_le (List.dropWhile_sublist _).length_le
        rw [← hsplit]
        refine stretch _ _ ?_ (fun q hq => List.mem_takeWhile_imp hq) (fun q hq => ?_)
          (ih _ hshorter _ rfl)
        · rw [List.takeWhile_cons_of_pos hp]
          exact List.cons_ne_nil _ _
        · have hnot := List.head?_dropWhile_not Point.isNonzero (p :: ps)
          rw [hq] at hnot
          exact hnot
      · exact zero p ps (Bool.of_not_eq_true hp) (ih ps.length (Nat.lt_succ_self _) ps rfl)

/-! ## (2) The pass over the points -/

/-- `(p.value == 0) = !p.isNonzero`: whether a point is a zero. -/
theorem value_beq_zero (p : Point α) : (p.value == 0) = !p.isNonzero :=
  (Bool.not_not _).symm

/-- `episodesFrom none last ps = ps.episodes`: between episodes, the time last seen plays no
part. -/
theorem episodesFrom_none (last : Instant) (ps : Points α) :
    episodesFrom none last ps = ps.episodes := by
  cases ps <;> rfl

/-- `episodes (z :: ps) = ps.episodes`: a zero is passed over. -/
theorem episodes_cons_of_zero (hz : z.isNonzero = false) : episodes (z :: ps) = ps.episodes := by
  simp only [episodes, episodesFrom, value_beq_zero, hz, Bool.not_false]
  exact episodesFrom_none z.time ps

/-- Under way, the pass goes on through nonzero points:
`episodesFrom (some start) p.time (run ++ rest)` is
`episodesFrom (some start) ((p :: run).getLast (List.cons_ne_nil p run)).time rest`. -/
theorem episodesFrom_append (start : Instant) (p : Point α)
    (hrun : ∀ q ∈ run, q.isNonzero = true) :
    episodesFrom (some start) p.time (run ++ rest) =
      episodesFrom (some start) ((p :: run).getLast (List.cons_ne_nil p run)).time rest := by
  induction run generalizing p with
  | nil => rfl
  | cons q run ih =>
    obtain ⟨hq, hrun⟩ := List.forall_mem_cons.1 hrun
    rw [List.getLast_cons (List.cons_ne_nil q run), ← ih q hrun]
    simp only [List.cons_append, episodesFrom, value_beq_zero, hq, Bool.not_true]

/-- **A stretch becomes an episode**, and the pass goes on behind it: `episodes (run ++ rest)` is
`⟨(run.head hne).time, (rest.head?.getD (run.getLast hne)).time⟩ :: rest.episodes`. -/
theorem episodes_append (hne : run ≠ []) (hrun : ∀ p ∈ run, p.isNonzero = true)
    (hrest : rest.StartsAtZero) : episodes (run ++ rest) =
      ⟨(run.head hne).time, (rest.head?.getD (run.getLast hne)).time⟩ :: rest.episodes := by
  obtain ⟨p, run, rfl⟩ := List.exists_cons_of_ne_nil hne
  obtain ⟨hp, hrun⟩ := List.forall_mem_cons.1 hrun
  have hbegin : episodes (p :: run ++ rest) = episodesFrom (some p.time) p.time (run ++ rest) := by
    simp only [episodes, List.cons_append, episodesFrom, value_beq_zero, hp, Bool.not_true]
  rw [hbegin, episodesFrom_append p.time p hrun]
  cases rest with
  | nil => rfl
  | cons z rest =>
    have hz := hrest z rfl
    rw [episodes_cons_of_zero hz]
    simp only [episodesFrom, value_beq_zero, hz, Bool.not_false, episodesFrom_none]
    rfl

/-! ## (3) Episodes and stretches -/

namespace Stretch

variable {hz : z.isNonzero = false}

/-- Stretches behind a zero are as different as before it:
`Function.Injective (behindZero hz : ps.Stretch → Stretch (z :: ps))`. -/
theorem behindZero_injective :
    Function.Injective (behindZero hz : ps.Stretch → Stretch (z :: ps)) := by
  intro s s' h
  obtain ⟨hbefore, hpoints, hafter⟩ := Stretch.ext_iff.1 h
  exact Stretch.ext (List.cons_eq_cons.1 hbefore).2 hpoints hafter

/-- Stretches behind another one are as different as before it:
`Function.Injective (behindStretch run hrest)`. -/
theorem behindStretch_injective (hrest : rest.StartsAtZero) :
    Function.Injective (behindStretch run hrest) := by
  intro s s' h
  obtain ⟨hbefore, hpoints, hafter⟩ := Stretch.ext_iff.1 h
  exact Stretch.ext (List.append_cancel_left hbefore) hpoints hafter

/-- The first stretch is not behind itself: `first hne hrun hrest ≠ s.behindStretch run hrest`. -/
theorem first_ne_behindStretch (hne : run ≠ []) (hrun : ∀ p ∈ run, p.isNonzero = true)
    (hrest : rest.StartsAtZero) (s : rest.Stretch) :
    first hne hrun hrest ≠ s.behindStretch run hrest := fun h =>
  hne (List.append_eq_nil_iff.1 (congrArg Stretch.before h).symm).1

end Stretch

/-- **The episodes are the times that the stretches span**, each stretch once:
`∃ all : List ps.Stretch, all.Nodup ∧ (∀ s, s ∈ all) ∧ ps.episodes = all.map Stretch.episode`. -/
theorem exists_stretches (ps : Points α) : ∃ all : List ps.Stretch,
    all.Nodup ∧ (∀ s, s ∈ all) ∧ ps.episodes = all.map Stretch.episode := by
  induction ps using stretch_induction with
  | nil => exact ⟨[], List.nodup_nil, fun s => s.not_nil.elim, rfl⟩
  | zero z ps hz ih =>
    obtain ⟨all, hnodup, hall, hepisodes⟩ := ih
    refine ⟨all.map (Stretch.behindZero hz), ?_, fun s => ?_, ?_⟩
    · exact List.Nodup.map Stretch.behindZero_injective hnodup
    · obtain ⟨s', rfl⟩ := s.exists_eq_behindZero hz
      exact List.mem_map_of_mem (hall s')
    · rw [episodes_cons_of_zero hz, hepisodes, List.map_map]
      rfl
  | stretch run rest hne hrun hrest ih =>
    obtain ⟨all, hnodup, hall, hepisodes⟩ := ih
    refine ⟨Stretch.first hne hrun hrest :: all.map (Stretch.behindStretch run hrest), ?_,
      fun s => ?_, ?_⟩
    · refine List.nodup_cons.2 ⟨fun hmem => ?_, ?_⟩
      · obtain ⟨s', -, heq⟩ := List.mem_map.1 hmem
        exact Stretch.first_ne_behindStretch hne hrun hrest s' heq.symm
      · exact List.Nodup.map (Stretch.behindStretch_injective hrest) hnodup
    · rcases s.eq_first_or_behindStretch hne hrun hrest with rfl | ⟨s', rfl⟩
      · exact List.mem_cons_self
      · exact List.mem_cons_of_mem _ (List.mem_map_of_mem (hall s'))
    · rw [episodes_append hne hrun hrest, hepisodes, List.map_cons, List.map_map]
      rfl

/-- Every nonzero point is in a stretch: `∃ s : ps.Stretch, p ∈ s.points`. -/
theorem exists_stretch_of_mem {p : Point α} (hp : p ∈ ps) (hnonzero : p.isNonzero = true) :
    ∃ s : ps.Stretch, p ∈ s.points := by
  induction ps using stretch_induction with
  | nil => cases hp
  | zero z ps hz ih =>
    rcases List.mem_cons.1 hp with rfl | hp
    · rw [hz] at hnonzero
      cases hnonzero
    · obtain ⟨s, hs⟩ := ih hp
      exact ⟨s.behindZero hz, hs⟩
  | stretch run rest hne hrun hrest ih =>
    rcases List.mem_append.1 hp with hp | hp
    · exact ⟨.first hne hrun hrest, hp⟩
    · obtain ⟨s, hs⟩ := ih hp
      exact ⟨s.behindStretch run hrest, hs⟩

/-- **The last episode** is that of a stretch behind which there is nothing:
`ps.episodes.getLast? = some s.episode`. -/
theorem Stretch.getLast?_episodes {s : ps.Stretch} (hafter : s.after = []) :
    ps.episodes.getLast? = some s.episode := by
  induction ps using stretch_induction with
  | nil => exact s.not_nil.elim
  | zero z ps hz ih =>
    obtain ⟨s', rfl⟩ := s.exists_eq_behindZero hz
    rw [episodes_cons_of_zero hz]
    exact ih hafter
  | stretch run rest hne hrun hrest ih =>
    rw [episodes_append hne hrun hrest]
    rcases s.eq_first_or_behindStretch hne hrun hrest with rfl | ⟨s', rfl⟩
    · obtain rfl : rest = [] := hafter
      rfl
    · rw [List.getLast?_cons, ih (s := s') hafter]
      rfl

/-! ## (4) Times -/

/-- An episode starts at the time of one of the points: `∃ p ∈ ps, p.time = e.start`. -/
theorem exists_start_eq_of_mem_episodes {e : Episode} (he : e ∈ ps.episodes) :
    ∃ p ∈ ps, p.time = e.start := by
  obtain ⟨all, -, -, hepisodes⟩ := exists_stretches ps
  rw [hepisodes] at he
  obtain ⟨s, -, rfl⟩ := List.mem_map.1 he
  exact ⟨s.points.head s.ne_nil, s.mem_of_mem_points (List.head_mem s.ne_nil), rfl⟩

/-- **Each episode ends before the next one starts**:
`ps.episodes.Pairwise fun e e' => e.stop < e'.start`. -/
theorem Increasing.episodes_pairwise (hps : ps.Increasing) :
    ps.episodes.Pairwise fun e e' => e.stop < e'.start := by
  induction ps using stretch_induction with
  | nil => exact List.Pairwise.nil
  | zero z ps hz ih =>
    rw [episodes_cons_of_zero hz]
    exact ih (increasing_cons.1 hps).2
  | stretch run rest hne hrun hrest ih =>
    have hrestOrder : rest.Increasing := (List.pairwise_append.1 hps).2.1
    rw [episodes_append hne hrun hrest]
    refine List.pairwise_cons.2 ⟨fun e he => ?_, ih hrestOrder⟩
    cases rest with
    | nil => cases he
    | cons z rest =>
      -- the next episode starts behind the zero at which the stretch stops
      rw [episodes_cons_of_zero (hrest z rfl)] at he
      obtain ⟨p, hp, htime⟩ := exists_start_eq_of_mem_episodes he
      rw [← htime]
      exact (increasing_cons.1 hrestOrder).1 p hp

/-- **The points of a stretch** are those from its start on that come before its stop, or no later
where it is not followed by a zero:
`p ∈ s.points ↔ s.start ≤ p.time ∧ (p.time < s.stop ∨ s.after = [] ∧ p.time ≤ s.stop)`. -/
theorem Stretch.mem_points_iff (hps : ps.Increasing) (s : ps.Stretch) {p : Point α} (hp : p ∈ ps) :
    p ∈ s.points ↔
      s.start ≤ p.time ∧ (p.time < s.stop ∨ s.after = [] ∧ p.time ≤ s.stop) := by
  obtain ⟨before, points, after, rfl, hne, hnonzero, hleft, hright⟩ := s
  obtain ⟨-, hbehind, hcross⟩ := List.pairwise_append.1 hps
  obtain ⟨hpoints, hafter, hcross'⟩ := List.pairwise_append.1 hbehind
  dsimp only [start, stop]
  constructor
  · intro hmem
    refine ⟨?_, ?_⟩
    · exact (hpoints.imp Int.le_of_lt).rel_head_of_rel_head_head hmem (Int.le_refl _)
    · cases after with
      | nil =>
        exact .inr ⟨rfl,
          (hpoints.imp Int.le_of_lt).rel_getLast_of_rel_getLast_getLast hmem (Int.le_refl _)⟩
      | cons z after => exact .inl (hcross' p hmem z List.mem_cons_self)
  · rintro ⟨hstart, hstop⟩
    rcases List.mem_append.1 hp with hp | hp
    · have hlt := hcross p hp _ (List.mem_append_left after (List.head_mem hne))
      exact absurd hlt (Int.not_lt.2 hstart)
    · rcases List.mem_append.1 hp with hp | hp
      · exact hp
      · cases after with
        | nil => cases hp
        | cons z after =>
          have hlt : p.time < z.time := hstop.resolve_right fun h => List.cons_ne_nil _ _ h.1
          have hle := (hafter.imp Int.le_of_lt).rel_head_of_rel_head_head hp (Int.le_refl _)
          exact absurd hlt (Int.not_lt.2 hle)

/-- A stretch does not stop before it starts: `s.start ≤ s.stop`. -/
theorem Stretch.start_le_stop (hps : ps.Increasing) (s : ps.Stretch) : s.start ≤ s.stop := by
  have hhead := List.head_mem s.ne_nil
  obtain ⟨-, hlt | ⟨-, hle⟩⟩ := (s.mem_points_iff hps (s.mem_of_mem_points hhead)).1 hhead
  · exact Int.le_of_lt hlt
  · exact hle

/-! ## (5) What the episodes of a weight are -/

/-- The episodes of points in order of time are their stretches. -/
structure EpisodesAreStretches (ps : Points α) : Prop where
  /-- There is one episode for each stretch, which spans the times of the stretch. -/
  stretches : ∃ all : List ps.Stretch,
    all.Nodup ∧ (∀ s, s ∈ all) ∧ ps.episodes = all.map Stretch.episode
  /-- An episode does not stop before it starts. -/
  forward : ∀ e ∈ ps.episodes, e.start ≤ e.stop
  /-- Episodes are in order of time, and each one stops before the next one starts. -/
  ordered : ps.episodes.Pairwise fun e e' => e.stop < e'.start
  /-- A point is nonzero when an episode has started and not stopped at its time, or when it comes
  no later than the last episode stops, if no zero has stopped that one. -/
  nonzero_iff : ∀ p ∈ ps, (p.value == 0) = false ↔
    (∃ e ∈ ps.episodes, e.start ≤ p.time ∧ p.time < e.stop) ∨
      ∃ s : ps.Stretch, s.after = [] ∧ ps.episodes.getLast? = some s.episode ∧
        s.start ≤ p.time ∧ p.time ≤ s.stop

/-- **Episodes are the maximal stretches of nonzero points**: `EpisodesAreStretches ps`. -/
theorem episodes_areStretches (hps : ps.Increasing) : EpisodesAreStretches ps := by
  obtain ⟨all, hnodup, hall, hepisodes⟩ := exists_stretches ps
  refine ⟨⟨all, hnodup, hall, hepisodes⟩, fun e he => ?_, hps.episodes_pairwise, fun p hp => ?_⟩
  · rw [hepisodes] at he
    obtain ⟨s, -, rfl⟩ := List.mem_map.1 he
    exact s.start_le_stop hps
  · rw [value_beq_zero, Bool.not_eq_false']
    constructor
    · intro hnonzero
      obtain ⟨s, hs⟩ := exists_stretch_of_mem hp hnonzero
      obtain ⟨hstart, hstop | ⟨hafter, hstop⟩⟩ := (s.mem_points_iff hps hp).1 hs
      · exact .inl ⟨s.episode, hepisodes ▸ List.mem_map_of_mem (hall s), hstart, hstop⟩
      · exact .inr ⟨s, hafter, Stretch.getLast?_episodes hafter, hstart, hstop⟩
    · rintro (⟨e, he, hstart, hstop⟩ | ⟨s, hafter, -, hstart, hstop⟩)
      · rw [hepisodes] at he
        obtain ⟨s, -, rfl⟩ := List.mem_map.1 he
        exact s.nonzero p ((s.mem_points_iff hps hp).2 ⟨hstart, .inl hstop⟩)
      · exact s.nonzero p ((s.mem_points_iff hps hp).2 ⟨hstart, .inr ⟨hafter, hstop⟩⟩)

/-- Two stretches, of which the second one has no zero behind it. -/
theorem episodes_areStretches_two :
    episodes ([⟨0, 0⟩, ⟨1, 1⟩, ⟨2, 1⟩, ⟨3, 0⟩, ⟨4, 2⟩] : Points Float) = [⟨1, 3⟩, ⟨4, 4⟩] ∧
      EpisodesAreStretches ([⟨0, 0⟩, ⟨1, 1⟩, ⟨2, 1⟩, ⟨3, 0⟩, ⟨4, 2⟩] : Points Float) :=
  ⟨by decide, episodes_areStretches (by decide)⟩

end Points

end PanelQuery
