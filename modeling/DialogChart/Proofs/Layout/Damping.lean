import DialogChart.Proofs.Layout.Embedding
import DialogChart.Proofs.Layout.Passes

/-!
# Damped relaxations

In exact arithmetic a move puts a turn at a weighted sum of ranks: of its own rank and of the ranks
of its neighbours along edges and in its flow.  If the weights of the neighbours do not add up to
more than one, all weights are at least zero, and the turn stays between the smallest and the
largest rank.  The condition is `Graph.Damped`; it counts only neighbours that can be reached, since
the others have no rank and do not pull.

So an interval that holds all ranks holds them after every single move (`Within.update`), and by
induction over the moves of a pass and over the passes it does so ever after (`Within.later`).  A
turn cannot move further than the interval is wide (`Confined`).  Without the condition ranks may
move ever further apart.
-/

namespace DialogChart

/-! ### The pulls on a turn -/

/-- Whether a turn can be reached is read off the preorder. -/
instance Adjacency.decidableReached {n : Nat} (adj : Adjacency n) (starts : List (Fin n)) :
    DecidablePred (adj.Reached starts) :=
  fun i => decidable_of_iff _ (Adjacency.mem_preorder_iff starts i)

namespace Graph

variable (g : Graph)

/-- A turn can be reached from the roots, by going from turn to child. -/
abbrev Reaches (i : Fin g.size) : Prop :=
  g.adjacency.Reached (g.roots g.adjacency) i

/-- The turns that can be reached, depth first, with their places. -/
abbrev visits : List (Fin g.size × Nat) :=
  g.adjacency.preorder (g.roots g.adjacency)

/-- The number of children and parents of a turn that can be reached, with multiplicity. -/
def degree (i : Fin g.size) : Nat :=
  (g.adjacency.children.get i ++ g.adjacency.parents.get i).countP fun j => g.Reaches j

/-- The number of other turns in the flow of a turn that can be reached. -/
def flowMates (i : Fin g.size) : Nat :=
  (List.finRange g.size).countP fun j =>
    g.Reaches j ∧ j ≠ i ∧ (g.turns.get j).flow = (g.turns.get i).flow

/-- The pulls on every turn that can be reached have weights that do not add up to more than one. -/
def Damped (tension : Tension ℚ) : Prop :=
  ∀ i, g.Reaches i →
    tension.edgeStiffness * g.degree i + tension.flowStiffness * g.flowMates i ≤ 1

end Graph

namespace Relaxation

variable {n : Nat}

/-- All ranks lie between two numbers. -/
def Within (ranks : Ranks ℚ n) (low high : ℚ) : Prop :=
  ∀ (j : Fin n) (rank : ℚ), ranks.get j = some rank → low ≤ rank ∧ rank ≤ high

/-- The smallest and the largest rank. -/
def Spans (ranks : Ranks ℚ n) (low high : ℚ) : Prop :=
  IsLeast {rank | ∃ j, ranks.get j = some rank} low ∧
    IsGreatest {rank | ∃ j, ranks.get j = some rank} high

/-- All ranks lie between the smallest and the largest one. -/
lemma Spans.within {ranks : Ranks ℚ n} {low high : ℚ} (h : Spans ranks low high) :
    Within ranks low high :=
  fun j _ hj => ⟨h.1.2 ⟨j, hj⟩, h.2.2 ⟨j, hj⟩⟩

/-- Where there are ranks, there is a smallest and a largest one. -/
lemma exists_spans {ranks : Ranks ℚ n} {i : Fin n} (h : (ranks.get i).isSome = true) :
    ∃ low high, Spans ranks low high := by
  have hfinite : {rank | ∃ j, ranks.get j = some rank}.Finite := by
    refine (Set.finite_range fun j => (ranks.get j).getD 0).subset ?_
    rintro rank ⟨j, hj⟩
    exact ⟨j, by simp only [hj, Option.getD_some]⟩
  have hnonempty : {rank | ∃ j, ranks.get j = some rank}.Nonempty := by
    obtain ⟨rank, hrank⟩ := Option.isSome_iff_exists.mp h
    exact ⟨rank, i, hrank⟩
  obtain ⟨low, hlow, hle⟩ := Set.exists_min_image _ id hfinite hnonempty
  obtain ⟨high, hhigh, hge⟩ := Set.exists_max_image _ id hfinite hnonempty
  exact ⟨low, high, ⟨hlow, hle⟩, hhigh, hge⟩

/-- A sum of distances to numbers of an interval is at most as many times the distances to its
ends. -/
lemma foldl_distance_le {low high : ℚ} {others : List ℚ}
    (h : ∀ rank ∈ others, low ≤ rank ∧ rank ≤ high) (own sum : ℚ) :
    sum + others.length * (low - own) ≤ others.foldl (fun sum rank => sum + (rank - own)) sum ∧
      others.foldl (fun sum rank => sum + (rank - own)) sum ≤
        sum + others.length * (high - own) := by
  induction others generalizing sum with
  | nil => simp
  | cons rank rest ih =>
    obtain ⟨⟨hlow, hhigh⟩, hrest⟩ := List.forall_mem_cons.mp h
    obtain ⟨hlower, hupper⟩ := ih hrest (sum + (rank - own))
    rw [List.foldl_cons, List.length_cons]
    push_cast
    constructor <;> linarith

/-- A pull by ranks of an interval is at most as many times the distances to its ends. -/
lemma Within.pull_le {ranks : Ranks ℚ n} {low high : ℚ} (h : Within ranks low high) (own : ℚ)
    (others : List (Fin n)) :
    others.countP (fun j => (ranks.get j).isSome) * (low - own) ≤ pull ranks own others ∧
      pull ranks own others ≤ others.countP (fun j => (ranks.get j).isSome) * (high - own) := by
  have hothers : ∀ rank ∈ others.filterMap ranks.get, low ≤ rank ∧ rank ≤ high := by
    intro rank hrank
    obtain ⟨j, -, hj⟩ := List.mem_filterMap.mp hrank
    exact h j rank hj
  have hbounds := foldl_distance_le hothers own 0
  rw [zero_add, zero_add, List.length_filterMap_eq_countP] at hbounds
  rw [pull_eq_foldl]
  exact hbounds

/-- A number that is pulled towards an interval by weights that do not add up to more than one does
not leave the interval. -/
lemma pulled_within {low high own edge flow edges flows edgePull flowPull : ℚ} (hlow : low ≤ own)
    (hhigh : own ≤ high) (hedge : 0 ≤ edge) (hflow : 0 ≤ flow)
    (hdamped : edge * edges + flow * flows ≤ 1)
    (hedges : edges * (low - own) ≤ edgePull ∧ edgePull ≤ edges * (high - own))
    (hflows : flows * (low - own) ≤ flowPull ∧ flowPull ≤ flows * (high - own)) :
    low ≤ own + (edge * edgePull + flow * flowPull) ∧
      own + (edge * edgePull + flow * flowPull) ≤ high := by
  constructor
  · have hpulls : (edge * edges + flow * flows) * (low - own) ≤
        edge * edgePull + flow * flowPull := by
      have h₁ := mul_le_mul_of_nonneg_left hedges.1 hedge
      have h₂ := mul_le_mul_of_nonneg_left hflows.1 hflow
      linarith
    have hweights := mul_le_mul_of_nonpos_right hdamped (sub_nonpos.mpr hlow)
    linarith
  · have hpulls : edge * edgePull + flow * flowPull ≤
        (edge * edges + flow * flows) * (high - own) := by
      have h₁ := mul_le_mul_of_nonneg_left hedges.2 hedge
      have h₂ := mul_le_mul_of_nonneg_left hflows.2 hflow
      linarith
    have hweights := mul_le_mul_of_nonneg_right hdamped (sub_nonneg.mpr hhigh)
    linarith

/-! ### Moves, passes and runs -/

variable {g : Graph} {tension : Tension ℚ} {low high : ℚ}

/-- The ranks of a graph after `k` whole passes and, in the pass after them, the moves of some
turns. -/
abbrev ranksAt (tension : Tension ℚ) (g : Graph) (k : Nat) (moved : List (Fin g.size)) :
    Ranks ℚ g.size :=
  during tension (springs g g.adjacency) g.visits k moved

/-- The turns that can be reached have ranks, and these lie in an interval. -/
structure Held (g : Graph) (low high : ℚ) (ranks : Ranks ℚ g.size) : Prop where
  ranked : ∀ j, (ranks.get j).isSome = true ↔ g.Reaches j
  within : Within ranks low high

/-- The edges that pull a turn are those to turns that can be reached. -/
lemma Held.countP_edges {ranks : Ranks ℚ g.size} (h : Held g low high ranks) (i : Fin g.size) :
    ((springs g g.adjacency).edges.get i).countP (fun j => (ranks.get j).isSome) = g.degree i := by
  unfold springs Graph.degree
  rw [get_ofFn]
  refine List.countP_congr fun j _ => ?_
  rw [h.ranked, decide_eq_true_iff]

/-- The turns of a flow that pull a turn are those that can be reached. -/
lemma Held.countP_flows {ranks : Ranks ℚ g.size} (h : Held g low high ranks) (i : Fin g.size) :
    ((springs g g.adjacency).flows.get i).countP (fun j => (ranks.get j).isSome) =
      g.flowMates i := by
  unfold springs Graph.flowMates
  simp only [get_ofFn]
  rw [List.countP_filter]
  refine List.countP_congr fun j _ => ?_
  rw [Bool.and_eq_true, h.ranked, Bool.and_eq_true, decide_eq_true_iff, decide_eq_true_iff,
    decide_eq_true_iff]

section Damped

variable (hedge : 0 ≤ tension.edgeStiffness) (hflow : 0 ≤ tension.flowStiffness)
  (hdamped : g.Damped tension)

include hedge hflow hdamped

/-- A move keeps the ranks in an interval, and is no longer than the interval is wide. -/
lemma Held.update {state : Ranks ℚ g.size × ℚ} (h : Held g low high state.1) (i : Fin g.size) :
    Held g low high (update tension (springs g g.adjacency) state i).1 ∧
      (update tension (springs g g.adjacency) state i).2 ≤ max state.2 (high - low) := by
  have hranked : ∀ j, ((Relaxation.update tension (springs g g.adjacency) state i).1.get j).isSome =
      true ↔ g.Reaches j := by
    intro j
    rw [isSome_update]
    exact h.ranked j
  obtain ⟨ranks, longest⟩ := state
  cases hi : ranks.get i with
  | none =>
    have hstay : Relaxation.update tension (springs g g.adjacency) (ranks, longest) i =
        (ranks, longest) := by
      simp only [Relaxation.update, hi]
    rw [hstay]
    exact ⟨h, le_max_left _ _⟩
  | some own =>
    obtain ⟨hlow, hhigh⟩ := h.within i own hi
    have hedges := h.within.pull_le own ((springs g g.adjacency).edges.get i)
    have hflows := h.within.pull_le own ((springs g g.adjacency).flows.get i)
    rw [h.countP_edges] at hedges
    rw [h.countP_flows] at hflows
    have hreaches : g.Reaches i := (h.ranked i).mp (by rw [hi]; rfl)
    have hmoved := pulled_within hlow hhigh hedge hflow (hdamped i hreaches) hedges hflows
    have hupdate : Relaxation.update tension (springs g g.adjacency) (ranks, longest) i =
        (ranks.set i (some (own + move tension (springs g g.adjacency) ranks i own)) i.isLt,
          max longest |move tension (springs g g.adjacency) ranks i own|) := by
      simp only [Relaxation.update, hi, Coordinate.larger_rat, Coordinate.magnitude_rat]
    rw [hupdate] at hranked ⊢
    refine ⟨⟨hranked, ?_⟩, max_le_max_left _ (abs_le.mpr ?_)⟩
    · intro j rank hj
      rw [get_set] at hj
      split at hj
      · obtain rfl := Option.some.inj hj
        exact hmoved
      · exact h.within j rank hj
    · unfold move
      constructor <;> linarith

/-- The moves of some turns keep the ranks in an interval, and none is longer than the interval is
wide. -/
lemma Held.foldl_update {state : Ranks ℚ g.size × ℚ} (h : Held g low high state.1)
    (moved : List (Fin g.size)) :
    Held g low high (moved.foldl (Relaxation.update tension (springs g g.adjacency)) state).1 ∧
      (moved.foldl (Relaxation.update tension (springs g g.adjacency)) state).2 ≤
        max state.2 (high - low) := by
  induction moved generalizing state with
  | nil => exact ⟨h, le_max_left _ _⟩
  | cons i rest ih =>
    obtain ⟨hranks, hlongest⟩ := h.update hedge hflow hdamped i
    obtain ⟨hlast, hle⟩ := ih hranks
    exact ⟨hlast, hle.trans (max_le hlongest (le_max_right _ _))⟩

/-- A pass keeps the ranks in an interval, and makes no move that is longer than the interval is
wide. -/
lemma Held.pass {ranks : Ranks ℚ g.size} (h : Held g low high ranks)
    (order : List (Fin g.size × Nat)) :
    Held g low high (Relaxation.pass tension (springs g g.adjacency) order ranks).1 ∧
      (Relaxation.pass tension (springs g g.adjacency) order ranks).2 ≤ max 0 (high - low) := by
  have hstate : Held g low high ((ranks, 0) : Ranks ℚ g.size × ℚ).1 := h
  exact hstate.foldl_update hedge hflow hdamped (order.map Prod.fst)

/-- Whole passes keep the ranks in an interval. -/
lemma Held.after {ranks : Ranks ℚ g.size} (h : Held g low high ranks)
    (order : List (Fin g.size × Nat)) (k : Nat) :
    Held g low high (after (Relaxation.pass tension (springs g g.adjacency) order) k ranks) := by
  induction k generalizing ranks with
  | zero => exact h
  | succ k ih => exact ih (h.pass hedge hflow hdamped order).1

omit hedge hflow hdamped in
/-- At every moment of a relaxation the turns that can be reached have ranks. -/
lemma Within.held {k : Nat} {moved : List (Fin g.size)}
    (h : Within (ranksAt tension g k moved) low high) :
    Held g low high (ranksAt tension g k moved) := by
  refine ⟨fun j => ?_, h⟩
  rw [isSome_during, Adjacency.mem_preorder_iff]

/-- From one moment of a relaxation to any later one the ranks stay in an interval. -/
lemma Within.later {k k' : Nat} {moved moved' : List (Fin g.size)}
    (hbegins : moved <+: g.visits.map Prod.fst) (hlater : k < k' ∨ k = k' ∧ moved <+: moved')
    (h : Within (ranksAt tension g k moved) low high) :
    Within (ranksAt tension g k' moved') low high := by
  rcases hlater with hlt | ⟨rfl, rest, rfl⟩
  · obtain ⟨rest, hrest⟩ := hbegins
    obtain ⟨m, rfl⟩ := Nat.exists_eq_add_of_lt hlt
    let onePass := pass tension (springs g g.adjacency) g.visits
    -- The pass is finished, others are made, and the last one comes to the later moment.
    have hpass := (h.held.foldl_update hedge hflow hdamped rest).1
    rw [← List.foldl_append, hrest] at hpass
    have hpasses : Held g low high (after onePass (k + m + 1) (start g.visits)) := by
      rw [after_add_succ]
      exact hpass.after hedge hflow hdamped g.visits m
    have hstate : Held g low high
        ((after onePass (k + m + 1) (start g.visits), 0) : Ranks ℚ g.size × ℚ).1 := hpasses
    exact (hstate.foldl_update hedge hflow hdamped moved').1.within
  · unfold ranksAt during
    rw [List.foldl_append]
    exact (h.held.foldl_update hedge hflow hdamped rest).1.within

end Damped

/-- The first ranks lie between the smallest and the largest place. -/
lemma within_start {low high : Nat}
    (hlow : low ∈ lowerBounds {place | ∃ i, (i, place) ∈ g.visits})
    (hhigh : high ∈ upperBounds {place | ∃ i, (i, place) ∈ g.visits}) :
    Within (start g.visits) (low : ℚ) high := by
  intro j rank hj
  obtain ⟨place, hplace, rfl⟩ := exists_place_of_start hj
  rw [Coordinate.ofCount_rat]
  exact ⟨Nat.cast_le.mpr (hlow ⟨j, hplace⟩), Nat.cast_le.mpr (hhigh ⟨j, hplace⟩)⟩

/-- Damped relaxations are stable.  In exact arithmetic, if the stiffnesses are not negative and the
weights of the pulls on every turn that can be reached do not add up to more than one, then at every
moment of a relaxation, the move of any turn leaves all ranks between the smallest and the largest
rank before it.  So from one moment to a later one the smallest rank never falls and the largest one
never rises; where there are turns, there is a smallest and a largest rank at every moment.
Whatever number of passes is asked for, and with or without a threshold, the ranks in the end are
those of such a moment.  They lie between the smallest and the largest place of the preorder, and
no pass has a move that is longer than these two are apart. -/
theorem damped_ranks_contract (g : Graph) (tension : Tension ℚ)
    (hedge : 0 ≤ tension.edgeStiffness) (hflow : 0 ≤ tension.flowStiffness)
    (hdamped : g.Damped tension) :
    (∀ (k : Nat) (moved : List (Fin g.size)) (i : Fin g.size) (longest low high : ℚ),
      Spans (ranksAt tension g k moved) low high →
      Within (update tension (springs g g.adjacency) (ranksAt tension g k moved, longest) i).1
        low high) ∧
    (∀ (k k' : Nat) (moved moved' : List (Fin g.size)) (low high low' high' : ℚ),
      moved <+: g.visits.map Prod.fst → k < k' ∨ k = k' ∧ moved <+: moved' →
      Spans (ranksAt tension g k moved) low high →
      Spans (ranksAt tension g k' moved') low' high' → low ≤ low' ∧ high' ≤ high) ∧
    (g.turns ≠ [] → ∀ (k : Nat) (moved : List (Fin g.size)),
      ∃ low high, Spans (ranksAt tension g k moved) low high) ∧
    let outcome := run tension g g.adjacency (g.roots g.adjacency)
    (∃ k ≤ tension.iterations, outcome.ranks = ranksAt tension g k []) ∧
    ∀ low high : Nat, IsLeast {place | ∃ i, (i, place) ∈ g.visits} low →
      IsGreatest {place | ∃ i, (i, place) ∈ g.visits} high →
      Within outcome.ranks low high ∧ ∀ longest ∈ outcome.longest, longest ≤ high - low := by
  obtain ⟨k, hk, converged, hrun⟩ := exists_run_eq tension g g.adjacency (g.roots g.adjacency)
  refine ⟨?_, ?_, ?_, ⟨k, hk, by rw [hrun]; rfl⟩, ?_⟩
  · intro k moved i longest low high hspans
    have hheld : Held g low high ((ranksAt tension g k moved, longest) : Ranks ℚ g.size × ℚ).1 :=
      hspans.within.held
    exact (hheld.update hedge hflow hdamped i).1.within
  · intro k k' moved moved' low high low' high' hbegins hlater hspans hspans'
    have hwithin := hspans.within.later hedge hflow hdamped hbegins hlater
    obtain ⟨⟨⟨j, hj⟩, -⟩, ⟨i, hi⟩, -⟩ := hspans'
    exact ⟨(hwithin j low' hj).1, (hwithin i high' hi).2⟩
  · intro hturns k moved
    obtain ⟨r, hr⟩ := List.exists_mem_of_ne_nil _
      (Graph.roots_ne_nil (List.length_pos_of_ne_nil hturns))
    have hranked : ((ranksAt tension g k moved).get r).isSome = true := by
      rw [isSome_during, Adjacency.mem_preorder_iff]
      exact .of_mem hr
    exact exists_spans hranked
  · intro low high hlow hhigh
    have hwithin : Within (ranksAt tension g 0 []) (low : ℚ) high := within_start hlow.2 hhigh.2
    have hstart : Held g (low : ℚ) high (start g.visits) := hwithin.held
    have hle : (low : ℚ) ≤ high := Nat.cast_le.mpr (hlow.2 hhigh.1)
    rw [hrun]
    refine ⟨(hstart.after hedge hflow hdamped g.visits k).within, ?_⟩
    intro longest hlongest
    obtain ⟨j, -, rfl⟩ := exists_of_mem_longestMoves _ hlongest
    have hmoves := ((hstart.after hedge hflow hdamped g.visits j).pass hedge hflow hdamped
      g.visits).2
    rwa [max_eq_right (sub_nonneg.mpr hle)] at hmoves

/-- An edge drawn twice, a loop, and a turn that cannot be reached but shares an edge and a flow:
with the default stiffnesses the relaxation is damped, and however long it runs, all ranks lie
between the places `0` and `2`. -/
theorem damped_ranks_contract_shared :
    let g : Graph :=
      { turns := [⟨"a", "a", .bot, "f"⟩, ⟨"b", "b", .user, "f"⟩, ⟨"c", "c", .user, "h"⟩,
          ⟨"x", "x", .bot, "f"⟩]
        edges := [⟨"a", "b"⟩, ⟨"a", "b"⟩, ⟨"a", "c"⟩, ⟨"b", "b"⟩, ⟨"x", "b"⟩, ⟨"x", "x"⟩,
          ⟨"y", "a"⟩] }
    g.visits = [(⟨0, by decide⟩, 0), (⟨1, by decide⟩, 0), (⟨2, by decide⟩, 2)] ∧
      g.degree ⟨1, by decide⟩ = 4 ∧ g.flowMates ⟨1, by decide⟩ = 1 ∧
      ∀ (count : Nat) (threshold : Option ℚ), g.Damped ⟨1 / 10, 1 / 100, count, threshold⟩ ∧
        let outcome := run ⟨1 / 10, 1 / 100, count, threshold⟩ g g.adjacency (g.roots g.adjacency)
        Within outcome.ranks 0 2 ∧ ∀ longest ∈ outcome.longest, longest ≤ 2 := by
  intro g
  have hvisits : g.visits = [(⟨0, by decide⟩, 0), (⟨1, by decide⟩, 0), (⟨2, by decide⟩, 2)] := by
    cbv
  have hdamped : ∀ (count : Nat) (threshold : Option ℚ),
      g.Damped ⟨1 / 10, 1 / 100, count, threshold⟩ := by
    intro count threshold i _
    have hlength : ∀ i, (g.adjacency.children.get i ++ g.adjacency.parents.get i).length ≤ 5 := by
      decide
    have hedges : (g.degree i : ℚ) ≤ 5 :=
      Nat.cast_le.mpr (List.countP_le_length.trans (hlength i))
    have hflows : (g.flowMates i : ℚ) ≤ 4 := Nat.cast_le.mpr List.countP_le_length
    dsimp only
    linarith
  refine ⟨hvisits, by cbv, by cbv, fun count threshold => ⟨hdamped count threshold, ?_⟩⟩
  obtain ⟨-, -, -, -, hbounds⟩ := damped_ranks_contract g ⟨1 / 10, 1 / 100, count, threshold⟩
    (by norm_num) (by norm_num) (hdamped count threshold)
  have hleast : IsLeast {place | ∃ i, (i, place) ∈ g.visits} 0 := by
    rw [hvisits]
    exact ⟨⟨_, List.mem_cons_self⟩, fun place _ => Nat.zero_le place⟩
  have hgreatest : IsGreatest {place | ∃ i, (i, place) ∈ g.visits} 2 := by
    rw [hvisits]
    refine ⟨⟨⟨2, by decide⟩, by decide⟩, ?_⟩
    rintro place ⟨i, hi⟩
    simp only [List.mem_cons, Prod.mk.injEq, List.not_mem_nil, or_false] at hi
    rcases hi with ⟨-, rfl⟩ | ⟨-, rfl⟩ | ⟨-, rfl⟩ <;> decide
  obtain ⟨hranks, hlongest⟩ := hbounds 0 2 hleast hgreatest
  norm_num at hranks hlongest
  exact ⟨hranks, hlongest⟩

end Relaxation

end DialogChart
