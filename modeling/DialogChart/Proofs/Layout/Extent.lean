import DialogChart.Proofs.Layout.Accounts
import DialogChart.Proofs.Layout.Positions
import Mathlib.Algebra.BigOperators.Group.Finset.Piecewise

/-!
# How far a layout reaches

In exact arithmetic, and with lengths that are whole numbers, every length that the walk computes
is a multiple of one half, and none exceeds a bound that depends only on the numbers of turns and
edges (`Spacing.extent`).  The same holds for the sides of the boxes of all turns.

Everything that is computed when a turn is placed lies between the heights of the stacks before and
after (`closing_within`), and these are bounded by the accounts of the walk.
-/

namespace DialogChart

/-! ### Multiples of one half -/

/-- A multiple of one half that is at most `bound` away from zero. -/
structure HalfWithin (bound : ℕ) (v : ℚ) : Prop where
  half : ∃ k : ℤ, v = k / 2
  le : |v| ≤ bound

namespace HalfWithin

variable {bound : ℕ}

/-- A larger bound holds as well. -/
lemma mono {larger : ℕ} {v : ℚ} (h : HalfWithin bound v) (hle : bound ≤ larger) :
    HalfWithin larger v :=
  ⟨h.half, h.le.trans (Nat.cast_le.mpr hle)⟩

/-- A difference of halves, from what bounds the two. -/
lemma of_halves {m n : ℕ} (hm : m ≤ 2 * bound) (hn : n ≤ 2 * bound) :
    HalfWithin bound ((m : ℚ) / 2 - n / 2) := by
  have hm' : (m : ℚ) ≤ 2 * bound := by exact_mod_cast hm
  have hn' : (n : ℚ) ≤ 2 * bound := by exact_mod_cast hn
  refine ⟨⟨m - n, by push_cast; ring⟩, ?_⟩
  rw [abs_le]
  have hm₀ := m.cast_nonneg (α := ℚ)
  have hn₀ := n.cast_nonneg (α := ℚ)
  constructor <;> linarith

/-- Half of a whole number. -/
lemma of_half {n : ℕ} (h : n ≤ 2 * bound) : HalfWithin bound ((n : ℚ) / 2) := by
  simpa using of_halves h (Nat.zero_le (2 * bound))

/-- A difference of whole numbers. -/
lemma of_sub {m n : ℕ} (hm : m ≤ bound) (hn : n ≤ bound) :
    HalfWithin bound ((m : ℚ) - n) := by
  have hdouble : (m : ℚ) - n = ((2 * m : ℕ) : ℚ) / 2 - ((2 * n : ℕ) : ℚ) / 2 := by
    push_cast
    ring
  rw [hdouble]
  exact of_halves (by omega) (by omega)

/-- A whole number. -/
lemma of_nat {n : ℕ} (h : n ≤ bound) : HalfWithin bound (n : ℚ) := by
  simpa using of_sub h (Nat.zero_le bound)

end HalfWithin

/-- The four sides of a box. -/
def Box.sides {α : Type} (box : Box α) : List α :=
  [box.minX, box.minY, box.maxX, box.maxY]

namespace Packing

/-! ### The lengths that are computed -/

section Formed

variable {α : Type} [Coordinate α] {n : ℕ}

/-- The lengths that are computed when a stack is finished and its owner is placed.  The number of
the column is a count, and not one of them. -/
def closing (spacing : Spacing α) (top : Frame α n) : List α :=
  let stack := stackHeight spacing top.height
  let offset := Coordinate.half stack - Coordinate.half spacing.nodeSize.height
  let reserved := Coordinate.larger spacing.nodeSize.height stack
  let place := corner spacing (top.column - 1) top.above stack
  [top.height - spacing.rowGap, stack, Coordinate.half stack,
    Coordinate.half spacing.nodeSize.height, offset, Coordinate.larger offset 0,
    top.above + spacing.rowGap, place.y, spacing.nodeSize.width + spacing.columnGap, place.x,
    reserved, reserved + spacing.rowGap]

/-- The lengths that the next move of the walk computes. -/
def formed (spacing : Spacing α) (state : State α n) : List α :=
  match state.frames with
  | [] => []
  | top :: below =>
    match top.waiting with
    | i :: _ =>
      if (state.slots.get i).isFree then [top.above + top.height]
      else [top.height + spacing.rowGap]
    | [] =>
      match top.owner with
      | none => []
      | some _ =>
        closing spacing top ++ (below.head?.map fun outer =>
          outer.height + (Coordinate.larger spacing.nodeSize.height
            (stackHeight spacing top.height) + spacing.rowGap)).toList

end Formed

section Bounds

variable {n : ℕ} {adj : Adjacency n} {ranks : Option (Vector (Option ℚ) n)}
  {roots : List (Fin n)} {w : Spacing ℕ}

/-- The box of a turn ends within the height that the stacks have when the turn is placed, and
within the columns. -/
lemma corner_within {above tall depth breadth column : ℕ} (hcolumn : 1 ≤ column)
    (hafter : above + (max w.nodeSize.height (tall - w.rowGap) + w.rowGap) ≤ depth)
    (hbreadth : column * (w.nodeSize.width + w.columnGap) ≤ breadth) :
    ∀ v ∈ (Box.ofCorner (corner w.exact (column - 1) above (stackHeight w.exact tall))
      w.exact.nodeSize).sides, HalfWithin (max depth breadth) v := by
  have hcolumns : (column - 1) * (w.nodeSize.width + w.columnGap) + w.nodeSize.width ≤ breadth := by
    obtain ⟨c, rfl⟩ := Nat.exists_eq_add_of_le' hcolumn
    rw [Nat.add_mul, Nat.one_mul] at hbreadth
    rw [Nat.add_sub_cancel]
    omega
  have hfar : ((2 * (above + w.rowGap) + (tall - w.rowGap - w.nodeSize.height) : ℕ) : ℚ) / 2 +
      w.nodeSize.height = ((2 * (above + w.rowGap + w.nodeSize.height) +
        (tall - w.rowGap - w.nodeSize.height) : ℕ) : ℚ) / 2 := by
    push_cast
    ring
  rw [stackHeight_exact, corner_exact]
  simp only [Box.sides, Box.ofCorner, List.forall_mem_cons, Spacing.exact_width,
    Spacing.exact_height]
  refine ⟨.of_nat (by omega), .of_half (by omega), ?_, ?_, by simp⟩
  · rw [← Nat.cast_add]
    exact .of_nat (by omega)
  · rw [hfar]
    exact .of_half (by omega)

/-- Every length that is computed for a finished stack is bounded by the heights before and after
its owner is placed, and by the columns. -/
lemma closing_within {top : Frame ℚ n} {above tall depth breadth : ℕ} (habove : top.above = above)
    (htall : top.height = tall) (hcolumn : 1 ≤ top.column) (hbefore : above + tall ≤ depth)
    (hafter : above + (max w.nodeSize.height (tall - w.rowGap) + w.rowGap) ≤ depth)
    (hbreadth : top.column * (w.nodeSize.width + w.columnGap) ≤ breadth) :
    ∀ v ∈ closing w.exact top, HalfWithin (max depth breadth) v := by
  have hplace := corner_within hcolumn hafter hbreadth
  have hunit : w.nodeSize.width + w.columnGap ≤ breadth :=
    (Nat.le_mul_of_pos_left _ hcolumn).trans hbreadth
  simp only [Box.sides, Box.ofCorner, List.forall_mem_cons] at hplace
  obtain ⟨hx, hy, -⟩ := hplace
  simp only [closing, habove, htall, List.forall_mem_cons]
  refine ⟨?_, ?_, ?_, ?_, ?_, ?_, ?_, hy, ?_, hx, ?_, ?_, by simp⟩
  · exact .of_sub (by omega) (by omega)
  · rw [stackHeight_exact]
    exact .of_nat (by omega)
  · rw [stackHeight_exact]
    exact .of_half (by omega)
  · exact .of_half (by omega)
  · rw [stackHeight_exact]
    exact .of_halves (by omega) (by omega)
  · rw [stackHeight_exact, Spacing.exact_height, offset_exact]
    exact .of_half (by omega)
  · rw [Spacing.exact_rowGap, ← Nat.cast_add]
    exact .of_nat (by omega)
  · rw [Spacing.exact_width, Spacing.exact_columnGap, ← Nat.cast_add]
    exact .of_nat (by omega)
  · rw [reserved_exact]
    exact .of_nat (by omega)
  · rw [reserved_exact, Spacing.exact_rowGap, ← Nat.cast_add]
    exact .of_nat (by omega)

/-- Before a turn is placed, and after it, the stacks keep within the depth, and the column of its
children within the breadth. -/
lemma Accounts.closing {placed skipped : ℕ} {slots : Vector (Slot ℚ) n} {i : Fin n}
    {met : List (Fin n)} {above : ℚ} {column : ℕ} {height : ℚ} {outer : Frame ℚ n}
    {below : List (Frame ℚ n)} (h : Accounts adj roots w placed skipped
      ⟨slots, ⟨some i, met, [], above, column, height⟩ :: outer :: below⟩)
    (hroots : roots.Nodup) :
    ∃ start tall : ℕ, above = start ∧ height = tall ∧ 1 ≤ column ∧
      start + tall ≤ w.depth n adj.arcCount ∧
      start + (max w.nodeSize.height (tall - w.rowGap) + w.rowGap) ≤ w.depth n adj.arcCount ∧
      column * (w.nodeSize.width + w.columnGap) ≤ w.breadth n := by
  obtain ⟨start, tall, rfl, rfl, hbefore⟩ := h.frame_le hroots _ List.mem_cons_self
  obtain ⟨_, _, hnext⟩ := h.move (Move.ascend : Move adj none w.exact _ _)
  obtain ⟨base, grown, hbase, hgrown, hafter⟩ := hnext.frame_le hroots _ List.mem_cons_self
  obtain ⟨-, habove, hcolumn, -, -, hbelow, -⟩ := h.nested
  dsimp only at hbase hgrown habove hcolumn
  refine ⟨start, tall, rfl, rfl, ?_, hbefore, ?_,
    Nat.mul_le_mul_right _ (h.column_le _ List.mem_cons_self)⟩
  · rw [hcolumn, List.length_cons]
    exact Nat.le_add_left _ _
  · -- The stack around it grows by what the turn takes, from the height at which its own began.
    rw [reserved_exact, Spacing.exact_rowGap] at hgrown
    rw [heightSum_cons, ← hbelow, hbase] at habove
    have hsum : (start : ℚ) + ((max w.nodeSize.height (tall - w.rowGap) : ℕ) + w.rowGap) =
        (base + grown : ℕ) := by
      push_cast at hgrown ⊢
      linarith
    have hsum' : start + (max w.nodeSize.height (tall - w.rowGap) + w.rowGap) = base + grown := by
      exact_mod_cast hsum
    omega

/-- The heights at which the unfinished stacks begin, and their own heights, are within the
extent. -/
lemma Accounts.frames_within {placed skipped : ℕ} {state : State ℚ n}
    (h : Accounts adj roots w placed skipped state) (hroots : roots.Nodup) :
    ∀ f ∈ state.frames, HalfWithin (w.extent n adj.arcCount) f.above ∧
      HalfWithin (w.extent n adj.arcCount) f.height := by
  intro f hf
  obtain ⟨start, tall, hstart, htall, hle⟩ := h.frame_le hroots f hf
  rw [hstart, htall]
  constructor
  · exact .of_nat (le_max_of_le_left (by omega))
  · exact .of_nat (le_max_of_le_left (by omega))

/-- Every length that a move computes is a multiple of one half and within the extent. -/
lemma Accounts.formed_within {placed skipped : ℕ} {state : State ℚ n}
    (h : Accounts adj roots w placed skipped state) (hroots : roots.Nodup) :
    ∀ v ∈ formed w.exact state, HalfWithin (w.extent n adj.arcCount) v := by
  obtain ⟨slots, frames⟩ := state
  match frames with
  | [] => simp [formed]
  | ⟨owner, met, i :: rest, above, column, height⟩ :: below =>
    cases hfree : (slots.get i).isFree with
    | false =>
      obtain ⟨_, _, hnext⟩ := h.move (Move.skip hfree : Move adj none w.exact _ _)
      obtain ⟨_, tall, -, htall, hle⟩ := hnext.frame_le hroots _ List.mem_cons_self
      dsimp only at htall
      simp only [formed, hfree, Bool.false_eq_true, if_false, List.forall_mem_singleton]
      rw [htall]
      exact .of_nat (le_max_of_le_left (by omega))
    | true =>
      obtain ⟨start, tall, rfl, rfl, hle⟩ := h.frame_le hroots _ List.mem_cons_self
      simp only [formed, hfree, if_true, List.forall_mem_singleton]
      rw [← Nat.cast_add]
      exact .of_nat (le_max_of_le_left hle)
  | ⟨none, met, [], above, column, height⟩ :: below => simp [formed]
  | [⟨some i, met, [], above, column, height⟩] =>
    obtain ⟨-, -, -, howner, -⟩ := h.nested
    cases howner.mpr rfl
  | ⟨some i, met, [], above, column, height⟩ :: outer :: below =>
    obtain ⟨start, tall, rfl, rfl, hcolumn, hbefore, hafter, hbreadth⟩ := h.closing hroots
    obtain ⟨_, _, hnext⟩ := h.move (Move.ascend : Move adj none w.exact _ _)
    obtain ⟨_, grown, -, hgrown, hle⟩ := hnext.frame_le hroots _ List.mem_cons_self
    dsimp only at hgrown
    simp only [formed, List.head?_cons, Option.map_some, Option.toList_some,
      List.forall_mem_append, List.forall_mem_singleton]
    refine ⟨closing_within rfl rfl hcolumn hbefore hafter hbreadth, ?_⟩
    rw [hgrown]
    exact .of_nat (le_max_of_le_left (by omega))

/-! ### The places of the turns -/

/-- The boxes of the turns that were placed have sides that are multiples of one half, within a
bound. -/
def BoxesWithin (w : Spacing ℕ) (bound : ℕ) (slots : Vector (Slot ℚ) n) : Prop :=
  ∀ i column corner, slots.get i = .placed column corner →
    ∀ v ∈ (Box.ofCorner corner w.exact.nodeSize).sides, HalfWithin bound v

/-- Filling a slot keeps the boxes within a bound if the new one is. -/
lemma BoxesWithin.set {bound : ℕ} {slots : Vector (Slot ℚ) n} (h : BoxesWithin w bound slots)
    (i : Fin n) {slot : Slot ℚ} (hslot : ∀ column corner, slot = .placed column corner →
      ∀ v ∈ (Box.ofCorner corner w.exact.nodeSize).sides, HalfWithin bound v) :
    BoxesWithin w bound (slots.set i slot i.isLt) := by
  intro j column corner hj
  rw [get_set] at hj
  split at hj
  · exact hslot column corner hj
  · exact h j column corner hj

/-- Wherever the walk from the roots places a turn, its box is within the extent. -/
lemma Moves.boxesWithin {state : State ℚ n} (hroots : roots.Nodup)
    (h : Moves adj ranks w.exact (begin ranks roots) state) :
    BoxesWithin w (w.extent n adj.arcCount) state.slots := by
  induction h with
  | refl =>
    intro i column corner hi
    rw [begin, get_replicate] at hi
    cases hi
  | tail hmoves hstep ih =>
    obtain ⟨placed, skipped, haccounts⟩ := Moves.accounts hmoves
    cases move_of_step hstep with
    | skip => exact ih
    | descend =>
      refine ih.set _ fun column corner hslot => ?_
      cases hslot
    | ascend =>
      obtain ⟨start, tall, rfl, rfl, hcolumn, -, hafter, hbreadth⟩ := haccounts.closing hroots
      refine ih.set _ fun column corner hslot => ?_
      cases hslot
      exact corner_within hcolumn hafter hbreadth
    | leave =>
      obtain ⟨-, -, -, howner, -⟩ := haccounts.nested
      cases howner.mpr rfl

/-- The boxes that a run leaves are within the extent. -/
lemma run_boxesWithin (hroots : roots.Nodup) :
    BoxesWithin w (w.extent n adj.arcCount) (run adj roots ranks w.exact) := by
  obtain ⟨-, last, hmoves, -, hslots⟩ := run_refines_recursion adj roots ranks w.exact
  rw [← hslots]
  exact Moves.boxesWithin hroots hmoves

end Bounds

end Packing

/-! ### The boxes of a graph -/

/-- Every arc leads from one turn. -/
lemma Adjacency.arcCount_ofArcs {n : ℕ} (arcs : List (Fin n × Fin n)) :
    (Adjacency.ofArcs arcs).arcCount = arcs.length := by
  unfold arcCount
  simp only [ofArcs, get_ofFn]
  induction arcs with
  | nil => simp
  | cons arc rest ih =>
    obtain ⟨a, b⟩ := arc
    have hone : ∀ i, (List.filterMap (fun x => if x.1 = i then some x.2 else none)
        ((a, b) :: rest)).length = (if a = i then 1 else 0) +
          (List.filterMap (fun x => if x.1 = i then some x.2 else none) rest).length := by
      intro i
      by_cases hi : a = i
      · simp [hi, Nat.add_comm]
      · simp [hi]
    simp only [hone, Finset.sum_add_distrib, Finset.sum_ite_eq, Finset.mem_univ, if_true, ih,
      List.length_cons]
    omega

namespace Graph

variable (g : Graph)

/-- The arcs of a graph are its edges between known turns. -/
lemma arcCount_adjacency : g.adjacency.arcCount = g.arcs.length :=
  Adjacency.arcCount_ofArcs g.arcs

/-- The roots of a graph are distinct. -/
lemma nodup_roots : (g.roots g.adjacency).Nodup := by
  by_cases horphans : g.adjacency.orphans = []
  · rw [roots_of_orphans_eq_nil horphans]
    cases g.smallest? <;> simp
  · rw [roots_of_orphans_ne_nil horphans]
    exact (List.nodup_finRange g.size).filter _

end Graph

namespace Layout

/-- A box that is found under an id is the box of a turn that was placed. -/
lemma exists_placed_of_bounds? {α : Type} [Coordinate α] {g : Graph}
    {slots : Vector (Packing.Slot α) g.size} {nodeSize : Size α} {id : String} {box : Box α}
    (h : (ofSlots g slots nodeSize).bounds? id = some box) :
    ∃ i column corner, slots.get i = .placed column corner ∧ box = .ofCorner corner nodeSize := by
  obtain ⟨corner, hcorner, rfl⟩ := Option.map_eq_some_iff.mp h
  unfold position? at hcorner
  rw [Table.get?_eq_some_iff, positions_eq] at hcorner
  have hmem := Table.mem_ofList hcorner
  obtain ⟨i, -, hi⟩ := List.mem_filterMap.mp hmem
  obtain ⟨place, hplace, heq⟩ := Option.map_eq_some_iff.mp hi
  obtain ⟨column, hslot⟩ := Packing.Slot.corner?_eq_some_iff.mp hplace
  cases heq
  exact ⟨i, column, corner, hslot, rfl⟩

end Layout

end DialogChart
