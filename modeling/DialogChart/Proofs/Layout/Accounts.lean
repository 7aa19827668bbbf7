import DialogChart.Proofs.Coordinate
import DialogChart.Proofs.Layout.Coverage
import Mathlib.Algebra.Order.BigOperators.Group.Finset
import Mathlib.Algebra.Order.Field.Basic
import Mathlib.Tactic.Linarith
import Mathlib.Tactic.Ring

/-!
# The accounts of the walk

A walk with lengths that are whole numbers is followed by keeping accounts.  A turn that is placed
lengthens the stacks by at most its own height and a gap, and a sibling that was met before
lengthens them by a gap.  The unfinished stacks lie one below the other, so together they are at
most as high as what was added so far (`Measured`).

No turn is placed twice.  The siblings that are passed over are no more than the edges, since every
sibling comes from an edge or is a root, and the roots are distinct (`Counted`).  So the stacks
never grow beyond a depth that depends only on the numbers of turns and edges (`Accounts.frame_le`).
-/

namespace DialogChart

/-! ### Whole lengths -/

/-- Apply a function to both lengths of a size. -/
def Size.map {α β : Type} (f : α → β) (size : Size α) : Size β :=
  ⟨f size.width, f size.height⟩

namespace Spacing

/-- The same lengths as exact numbers. -/
def exact (w : Spacing ℕ) : Spacing ℚ :=
  ⟨w.nodeSize.map (↑), w.columnGap, w.rowGap⟩

/-- The height to which the stacks may grow, for given numbers of turns and edges. -/
def depth (w : Spacing ℕ) (turns edges : ℕ) : ℕ :=
  turns * (w.nodeSize.height + w.rowGap) + edges * w.rowGap

/-- The width to which the columns may grow. -/
def breadth (w : Spacing ℕ) (turns : ℕ) : ℕ :=
  turns * (w.nodeSize.width + w.columnGap)

/-- The bound for all lengths of a layout. -/
def extent (w : Spacing ℕ) (turns edges : ℕ) : ℕ :=
  max (w.depth turns edges) (w.breadth turns)

variable (w : Spacing ℕ)

@[simp] lemma exact_width : w.exact.nodeSize.width = w.nodeSize.width := rfl

@[simp] lemma exact_height : w.exact.nodeSize.height = w.nodeSize.height := rfl

@[simp] lemma exact_columnGap : w.exact.columnGap = w.columnGap := rfl

@[simp] lemma exact_rowGap : w.exact.rowGap = w.rowGap := rfl

end Spacing

/-- The number of arcs, counted by the turns from which they lead. -/
def Adjacency.arcCount {n : ℕ} (adj : Adjacency n) : ℕ :=
  ∑ i, (adj.children.get i).length

namespace Packing

/-! ### Counting siblings -/

section Counting

variable {α : Type} {n : ℕ}

/-- The turns that were met. -/
def metTurns (slots : Vector (Slot α) n) : Finset (Fin n) :=
  Finset.univ.filter fun i => (slots.get i).isFree = false

/-- A turn was met if its slot is not free. -/
@[simp] lemma mem_metTurns {slots : Vector (Slot α) n} {i : Fin n} :
    i ∈ metTurns slots ↔ (slots.get i).isFree = false := by
  simp [metTurns]

/-- A turn whose slot is filled has been met. -/
lemma metTurns_set (slots : Vector (Slot α) n) (i : Fin n) {slot : Slot α}
    (hslot : slot.isFree = false) :
    metTurns (slots.set i slot i.isLt) = insert i (metTurns slots) := by
  ext j
  rw [mem_metTurns, get_set, Finset.mem_insert, mem_metTurns]
  by_cases hj : j = i
  · simp [hj, hslot]
  · simp [hj]

/-- The number of siblings to come. -/
def waitingCount (frames : List (Frame α n)) : ℕ :=
  (frames.map fun f => f.waiting.length).sum

/-- The number of siblings that the turns that were met have as children. -/
def openedCount (adj : Adjacency n) (slots : Vector (Slot α) n) : ℕ :=
  ∑ i ∈ metTurns slots, (adj.children.get i).length

/-- A state in which `placed` turns have been placed and `skipped` siblings were passed over. -/
structure Counted (adj : Adjacency n) (roots : List (Fin n)) (placed skipped : ℕ)
    (state : State α n) : Prop where
  /-- Every stack but that of the roots belongs to a turn that was met and is not yet placed. -/
  unfinished : placed + state.frames.length = (metTurns state.slots).card + 1
  owners : ∀ f ∈ state.frames, ∀ i ∈ f.owner, i ∈ metTurns state.slots
  /-- Every root and every child of a turn that was met is still to come, or was new when its
  turn came, or was passed over. -/
  siblings : skipped + (metTurns state.slots).card + waitingCount state.frames =
    roots.length + openedCount adj state.slots
  roots : ∀ r ∈ roots, r ∈ metTurns state.slots ∨ ∃ f ∈ state.frames, r ∈ f.waiting

variable {adj : Adjacency n} {roots : List (Fin n)}

/-- Sorting siblings keeps their number. -/
@[simp] lemma length_ordered [Coordinate α] (ranks : Option (Vector (Option α) n))
    (siblings : List (Fin n)) : (ordered ranks siblings).length = siblings.length := by
  cases ranks with
  | none => rfl
  | some ranks => exact List.length_mergeSort siblings

namespace Counted

variable {placed skipped : ℕ} {slots : Vector (Slot α) n} {i : Fin n} {owner : Option (Fin n)}
  {met rest : List (Fin n)} {above : α} {column : ℕ} {height : α} {below : List (Frame α n)}

/-- A sibling that was met before is passed over. -/
lemma skip (h : Counted adj roots placed skipped
      ⟨slots, ⟨owner, met, i :: rest, above, column, height⟩ :: below⟩)
    (hi : (slots.get i).isFree = false) (grown : α) :
    Counted adj roots placed (skipped + 1)
      ⟨slots, ⟨owner, i :: met, rest, above, column, grown⟩ :: below⟩ := by
  obtain ⟨hunfinished, howners, hsiblings, hroots⟩ := h
  refine ⟨hunfinished, ?_, ?_, ?_⟩
  · rw [List.forall_mem_cons] at howners ⊢
    exact howners
  · simp only [waitingCount, List.map_cons, List.sum_cons, List.length_cons] at hsiblings ⊢
    omega
  · intro r hr
    rcases hroots r hr with hmet | ⟨f, hf, hwaits⟩
    · exact .inl hmet
    · rcases List.mem_cons.mp hf with rfl | hf
      · rcases List.mem_cons.mp hwaits with rfl | hwaits
        · exact .inl (mem_metTurns.mpr hi)
        · exact .inr ⟨_, List.mem_cons_self, hwaits⟩
      · exact .inr ⟨f, List.mem_cons_of_mem _ hf, hwaits⟩

/-- When a stack is finished, its owner is placed. -/
lemma ascend {outer : Frame α n} (h : Counted adj roots placed skipped
      ⟨slots, ⟨some i, met, [], above, column, height⟩ :: outer :: below⟩)
    (place : ℕ) (corner : Point α) (grown : α) :
    Counted adj roots (placed + 1) skipped
      ⟨slots.set i (.placed place corner) i.isLt, { outer with height := grown } :: below⟩ := by
  obtain ⟨hunfinished, howners, hsiblings, hroots⟩ := h
  have hi : i ∈ metTurns slots := howners _ List.mem_cons_self i rfl
  have hmet : metTurns (slots.set i (.placed place corner) i.isLt) = metTurns slots := by
    rw [metTurns_set slots i rfl, Finset.insert_eq_of_mem hi]
  refine ⟨?_, ?_, ?_, ?_⟩
  · simp only [List.length_cons, hmet] at hunfinished ⊢
    omega
  · rw [List.forall_mem_cons, List.forall_mem_cons] at howners
    rw [hmet, List.forall_mem_cons]
    exact ⟨howners.2.1, howners.2.2⟩
  · simp only [waitingCount, List.map_cons, List.sum_cons, List.length_nil, openedCount,
      hmet] at hsiblings ⊢
    omega
  · intro r hr
    rw [hmet]
    rcases hroots r hr with hr | ⟨f, hf, hwaits⟩
    · exact .inl hr
    · rcases List.mem_cons.mp hf with rfl | hf
      · cases hwaits
      · rcases List.mem_cons.mp hf with rfl | hf
        · exact .inr ⟨_, List.mem_cons_self, hwaits⟩
        · exact .inr ⟨f, List.mem_cons_of_mem _ hf, hwaits⟩

/-- No turn is placed twice, and a column is entered from a turn that was met. -/
lemma placed_le {state : State α n} (h : Counted adj roots placed skipped state) :
    placed + state.frames.length ≤ n + 1 := by
  have hcard := (metTurns state.slots).card_le_univ
  rw [Fintype.card_fin] at hcard
  have hunfinished := h.unfinished
  omega

/-- The siblings that were passed over are no more than the edges: of the siblings that were met
those that were new make up for the roots. -/
lemma skipped_le {state : State α n} (h : Counted adj roots placed skipped state)
    (hroots : roots.Nodup) : skipped ≤ adj.arcCount := by
  have hopened : openedCount adj state.slots ≤ adj.arcCount :=
    Finset.sum_le_sum_of_subset (Finset.subset_univ _)
  have hrootCount : roots.length ≤ (metTurns state.slots).card + waitingCount state.frames := by
    have hsubset : roots.toFinset ⊆
        metTurns state.slots ∪ (state.frames.flatMap (·.waiting)).toFinset := by
      intro r hr
      rw [Finset.mem_union, List.mem_toFinset, List.mem_flatMap]
      exact h.roots r (List.mem_toFinset.mp hr)
    calc roots.length = roots.toFinset.card := (List.toFinset_card_of_nodup hroots).symm
      _ ≤ (metTurns state.slots ∪ (state.frames.flatMap (·.waiting)).toFinset).card :=
        Finset.card_le_card hsubset
      _ ≤ (metTurns state.slots).card + (state.frames.flatMap (·.waiting)).toFinset.card :=
        Finset.card_union_le _ _
      _ ≤ (metTurns state.slots).card + waitingCount state.frames := by
        refine Nat.add_le_add_left ((List.toFinset_card_le _).trans ?_) _
        rw [List.length_flatMap]
        exact le_rfl
  have hsiblings := h.siblings
  omega

variable [Coordinate α] {ranks : Option (Vector (Option α) n)}

/-- The walk begins with nothing placed and nothing passed over. -/
lemma begin : Counted adj roots 0 0 (begin ranks roots) := by
  have hmet : metTurns (.replicate n (.free : Slot α)) = ∅ := by
    ext j
    simp [Slot.isFree]
  refine ⟨?_, ?_, ?_, ?_⟩
  · simp [Packing.begin, hmet]
  · simp [Packing.begin, frame]
  · simp [Packing.begin, frame, openedCount, hmet, waitingCount]
  · intro r hr
    exact .inr ⟨_, List.mem_singleton_self _, mem_ordered.mpr hr⟩

/-- A new sibling has been met, and its children are to come. -/
lemma descend (h : Counted adj roots placed skipped
      ⟨slots, ⟨owner, met, i :: rest, above, column, height⟩ :: below⟩)
    (hi : (slots.get i).isFree = true) (start low : α) :
    Counted adj roots placed skipped ⟨slots.set i .pending i.isLt,
      ⟨some i, [], ordered ranks (adj.children.get i), start, column + 1, low⟩ ::
        ⟨owner, i :: met, rest, above, column, height⟩ :: below⟩ := by
  have hnew : i ∉ metTurns slots := by simp [hi]
  have hmet : metTurns (slots.set i .pending i.isLt) = insert i (metTurns slots) :=
    metTurns_set slots i rfl
  have hcard : (metTurns (slots.set i .pending i.isLt)).card = (metTurns slots).card + 1 := by
    rw [hmet, Finset.card_insert_of_notMem hnew]
  obtain ⟨hunfinished, howners, hsiblings, hroots⟩ := h
  refine ⟨?_, ?_, ?_, ?_⟩
  · simp only [List.length_cons, hcard] at hunfinished ⊢
    omega
  · rw [List.forall_mem_cons] at howners
    rw [hmet, List.forall_mem_cons, List.forall_mem_cons]
    refine ⟨?_, ?_, ?_⟩
    · intro j hj
      obtain rfl := Option.some.inj hj
      exact Finset.mem_insert_self _ _
    · exact fun j hj => Finset.mem_insert_of_mem (howners.1 j hj)
    · exact fun f hf j hj => Finset.mem_insert_of_mem (howners.2 f hf j hj)
  · have hopened : openedCount adj (slots.set i .pending i.isLt) =
        (adj.children.get i).length + openedCount adj slots := by
      unfold openedCount
      rw [hmet, Finset.sum_insert hnew]
    simp only [waitingCount, List.map_cons, List.sum_cons, List.length_cons, length_ordered,
      hcard, hopened] at hsiblings ⊢
    omega
  · intro r hr
    rw [hmet]
    rcases hroots r hr with hr | ⟨f, hf, hwaits⟩
    · exact .inl (Finset.mem_insert_of_mem hr)
    · rcases List.mem_cons.mp hf with rfl | hf
      · rcases List.mem_cons.mp hwaits with rfl | hwaits
        · exact .inl (Finset.mem_insert_self _ _)
        · exact .inr ⟨_, List.mem_cons_of_mem _ List.mem_cons_self, hwaits⟩
      · exact .inr ⟨f, List.mem_cons_of_mem _ (List.mem_cons_of_mem _ hf), hwaits⟩

end Counted

end Counting

/-! ### Adding up heights -/

section Measuring

variable {n : ℕ} {w : Spacing ℕ}

/-- The heights of the unfinished stacks together. -/
def heightSum (frames : List (Frame ℚ n)) : ℚ :=
  frames.foldr (fun f total => f.height + total) 0

@[simp] lemma heightSum_nil : heightSum ([] : List (Frame ℚ n)) = 0 := rfl

@[simp] lemma heightSum_cons (f : Frame ℚ n) (outer : List (Frame ℚ n)) :
    heightSum (f :: outer) = f.height + heightSum outer := rfl

/-- The unfinished stacks have whole heights.  Each begins where the one around it ends so far,
one column further, and only the outermost one has no owner. -/
def Nested : List (Frame ℚ n) → Prop
  | [] => True
  | f :: outer => (∃ k : ℕ, f.height = k) ∧ f.above = heightSum outer ∧ f.column = outer.length ∧
      (f.owner = none ↔ outer = []) ∧ Nested outer

/-- Whole heights add up to a whole number, and every stack begins and ends at whole heights that
are no larger. -/
lemma Nested.exists_heightSum {frames : List (Frame ℚ n)} (h : Nested frames) :
    ∃ total : ℕ, heightSum frames = total ∧ ∀ f ∈ frames,
      ∃ start tall : ℕ, f.above = start ∧ f.height = tall ∧ start + tall ≤ total := by
  induction frames with
  | nil => exact ⟨0, by simp, by simp⟩
  | cons f outer ih =>
    obtain ⟨⟨tall, htall⟩, habove, -, -, houter⟩ := h
    obtain ⟨total, htotal, hframes⟩ := ih houter
    refine ⟨total + tall, ?_, ?_⟩
    · rw [heightSum_cons, htall, htotal]
      push_cast
      ring
    · rw [List.forall_mem_cons]
      refine ⟨⟨total, tall, habove.trans htotal, htall, le_refl _⟩, ?_⟩
      intro g hg
      obtain ⟨start, high, hstart, hhigh, hle⟩ := hframes g hg
      exact ⟨start, high, hstart, hhigh, by omega⟩

/-- A stack stands in one of as many columns as there are stacks. -/
lemma Nested.column_lt {frames : List (Frame ℚ n)} (h : Nested frames) :
    ∀ f ∈ frames, f.column < frames.length := by
  induction frames with
  | nil => simp
  | cons top outer ih =>
    obtain ⟨-, -, hcolumn, -, houter⟩ := h
    rw [List.forall_mem_cons, List.length_cons]
    refine ⟨by omega, fun f hf => ?_⟩
    have hlt := ih houter f hf
    omega

/-- A difference of whole numbers that stops at zero. -/
lemma larger_sub_zero (m k : ℕ) : Coordinate.larger ((m : ℚ) - k) 0 = ((m - k : ℕ) : ℚ) := by
  rw [Coordinate.larger_rat]
  rcases le_total k m with hle | hle
  · rw [Nat.cast_sub hle, max_eq_left (sub_nonneg.mpr (Nat.cast_le.mpr hle))]
  · rw [Nat.sub_eq_zero_of_le hle, Nat.cast_zero,
      max_eq_right (sub_nonpos.mpr (Nat.cast_le.mpr hle))]

/-- The height of a finished stack of whole height. -/
lemma stackHeight_exact (w : Spacing ℕ) (tall : ℕ) :
    stackHeight w.exact tall = ((tall - w.rowGap : ℕ) : ℚ) := by
  rw [stackHeight, Spacing.exact_rowGap, larger_sub_zero]

/-- What a turn reserves beside a stack of whole height. -/
lemma reserved_exact (w : Spacing ℕ) (tall : ℕ) :
    Coordinate.larger w.exact.nodeSize.height (stackHeight w.exact tall) =
      ((max w.nodeSize.height (tall - w.rowGap) : ℕ) : ℚ) := by
  rw [stackHeight_exact, Coordinate.larger_rat, Spacing.exact_height, Nat.cast_max]

/-- How far a turn is moved down to the middle of a stack. -/
lemma offset_exact (stack height : ℕ) :
    Coordinate.larger (Coordinate.half (stack : ℚ) - Coordinate.half (height : ℚ)) 0 =
      ((stack - height : ℕ) : ℚ) / 2 := by
  have hhalves := max_div_div_right (zero_le_two : (0 : ℚ) ≤ 2) (stack - height) 0
  rw [zero_div, sub_div] at hhalves
  rw [Coordinate.half_rat, Coordinate.half_rat, Coordinate.larger_rat, hhalves,
    ← Coordinate.larger_rat, larger_sub_zero]

/-- The place of a turn beside a stack of whole height. -/
lemma corner_exact (w : Spacing ℕ) (column above stack : ℕ) :
    corner w.exact column above stack =
      ⟨((column * (w.nodeSize.width + w.columnGap) : ℕ) : ℚ),
        ((2 * (above + w.rowGap) + (stack - w.nodeSize.height) : ℕ) : ℚ) / 2⟩ := by
  simp only [corner, Spacing.exact_height, offset_exact, Coordinate.ofCount_rat,
    Spacing.exact_width, Spacing.exact_columnGap, Spacing.exact_rowGap, Point.mk.injEq]
  push_cast
  exact ⟨rfl, by ring⟩

/-- A state whose unfinished stacks are no higher than what was added: the height of a turn and a
gap for every turn that was placed, and a gap for every sibling that was passed over. -/
structure Measured (w : Spacing ℕ) (placed skipped : ℕ) (state : State ℚ n) : Prop where
  nested : Nested state.frames
  heightSum_le : heightSum state.frames ≤ w.depth placed skipped

namespace Measured

variable {placed skipped : ℕ} {slots : Vector (Slot ℚ) n} {i : Fin n} {owner : Option (Fin n)}
  {met rest : List (Fin n)} {above : ℚ} {column : ℕ} {height : ℚ} {below : List (Frame ℚ n)}

/-- The walk begins with an empty stack. -/
lemma begin (ranks : Option (Vector (Option ℚ) n)) (roots : List (Fin n)) :
    Measured w 0 0 (begin ranks roots) := by
  refine ⟨?_, ?_⟩
  · exact ⟨⟨0, by simp [frame]⟩, rfl, rfl, by simp [frame], trivial⟩
  · simp [Packing.begin, frame]

/-- A sibling that was met before adds a gap. -/
lemma skip (h : Measured w placed skipped
      ⟨slots, ⟨owner, met, i :: rest, above, column, height⟩ :: below⟩) :
    Measured w placed (skipped + 1)
      ⟨slots, ⟨owner, i :: met, rest, above, column, height + w.exact.rowGap⟩ :: below⟩ := by
  obtain ⟨⟨⟨k, hk⟩, habove, hcolumn, howner, hbelow⟩, hle⟩ := h
  refine ⟨⟨⟨k + w.rowGap, ?_⟩, habove, hcolumn, howner, hbelow⟩, ?_⟩
  · dsimp only at hk ⊢
    rw [hk, Spacing.exact_rowGap, Nat.cast_add]
  · simp only [heightSum_cons, Spacing.depth, Spacing.exact_rowGap] at hle ⊢
    push_cast at hle ⊢
    linarith

/-- A new stack begins at the height that the stacks have so far. -/
lemma descend (h : Measured w placed skipped
      ⟨slots, ⟨owner, met, i :: rest, above, column, height⟩ :: below⟩)
    (filled : Vector (Slot ℚ) n) (siblings : List (Fin n)) :
    Measured w placed skipped ⟨filled, ⟨some i, [], siblings, above + height, column + 1, 0⟩ ::
      ⟨owner, i :: met, rest, above, column, height⟩ :: below⟩ := by
  obtain ⟨⟨hwhole, habove, hcolumn, howner, hbelow⟩, hle⟩ := h
  dsimp only at habove hcolumn
  refine ⟨⟨⟨0, by simp⟩, ?_, ?_, by simp, hwhole, habove, hcolumn, howner, hbelow⟩, ?_⟩
  · rw [heightSum_cons, habove, add_comm]
  · rw [hcolumn, List.length_cons]
  · simpa only [heightSum_cons, zero_add] using hle

/-- A turn that is placed adds at most its height and a gap to the height of its stack. -/
lemma ascend {outer : Frame ℚ n} (h : Measured w placed skipped
      ⟨slots, ⟨some i, met, [], above, column, height⟩ :: outer :: below⟩)
    (filled : Vector (Slot ℚ) n) :
    Measured w (placed + 1) skipped ⟨filled, { outer with
      height := outer.height + (Coordinate.larger w.exact.nodeSize.height
        (stackHeight w.exact height) + w.exact.rowGap) } :: below⟩ := by
  obtain ⟨⟨⟨tall, htall⟩, -, -, -, ⟨k, hk⟩, habove, hcolumn, howner, hbelow⟩, hle⟩ := h
  dsimp only at htall
  subst htall
  rw [reserved_exact, Spacing.exact_rowGap]
  refine ⟨⟨⟨k + (max w.nodeSize.height (tall - w.rowGap) + w.rowGap), ?_⟩, habove, hcolumn, howner,
    hbelow⟩, ?_⟩
  · dsimp only
    rw [hk]
    push_cast
    rfl
  · have hreserved : ((max w.nodeSize.height (tall - w.rowGap) : ℕ) : ℚ) ≤
        w.nodeSize.height + tall := by
      have hmax : max w.nodeSize.height (tall - w.rowGap) ≤ w.nodeSize.height + tall := by omega
      exact_mod_cast hmax
    simp only [heightSum_cons, Spacing.depth] at hle ⊢
    push_cast at hle hreserved ⊢
    linarith

end Measured

end Measuring

/-! ### The accounts of the walk -/

section Accounts

variable {n : ℕ} {adj : Adjacency n} {ranks : Option (Vector (Option ℚ) n)}
  {roots : List (Fin n)} {w : Spacing ℕ}

/-- The accounts of a state: the siblings are counted and the heights are measured. -/
structure Accounts (adj : Adjacency n) (roots : List (Fin n)) (w : Spacing ℕ)
    (placed skipped : ℕ) (state : State ℚ n) : Prop extends
  Counted adj roots placed skipped state, Measured w placed skipped state

/-- A move places a turn, or passes over a sibling, or does neither. -/
lemma Accounts.move {placed skipped : ℕ} {s t : State ℚ n}
    (h : Accounts adj roots w placed skipped s) (hmove : Move adj ranks w.exact s t) :
    ∃ placed' skipped', Accounts adj roots w placed' skipped' t := by
  cases hmove with
  | skip hmet => exact ⟨_, _, h.toCounted.skip hmet _, h.toMeasured.skip⟩
  | descend hfree => exact ⟨_, _, h.toCounted.descend hfree _ _, h.toMeasured.descend _ _⟩
  | ascend => exact ⟨_, _, h.toCounted.ascend _ _ _, h.toMeasured.ascend _⟩
  | leave =>
    -- The outermost stack has no owner.
    obtain ⟨-, -, -, howner, -⟩ := h.nested
    cases howner.mpr rfl

/-- The accounts are kept along the walk from the roots. -/
lemma Moves.accounts {state : State ℚ n} (h : Moves adj ranks w.exact (begin ranks roots) state) :
    ∃ placed skipped, Accounts adj roots w placed skipped state := by
  induction h with
  | refl => exact ⟨0, 0, .begin, .begin ranks roots⟩
  | tail _ hstep ih =>
    obtain ⟨placed, skipped, h⟩ := ih
    exact h.move (move_of_step hstep)

/-- There are no more columns than turns. -/
lemma Accounts.column_le {placed skipped : ℕ} {state : State ℚ n}
    (h : Accounts adj roots w placed skipped state) : ∀ f ∈ state.frames, f.column ≤ n := by
  intro f hf
  have hcolumn := h.nested.column_lt f hf
  have hplaced := h.placed_le
  omega

/-- Every unfinished stack begins and ends at whole heights, within the depth of a layout with all
turns and edges. -/
lemma Accounts.frame_le {placed skipped : ℕ} {state : State ℚ n}
    (h : Accounts adj roots w placed skipped state) (hroots : roots.Nodup) :
    ∀ f ∈ state.frames, ∃ start tall : ℕ, f.above = start ∧ f.height = tall ∧
      start + tall ≤ w.depth n adj.arcCount := by
  intro f hf
  obtain ⟨total, htotal, hframes⟩ := h.nested.exists_heightSum
  obtain ⟨start, tall, hstart, htall, hle⟩ := hframes f hf
  have hplaced : placed ≤ n := by
    have hcount := h.placed_le
    have hpos := List.length_pos_of_mem hf
    omega
  have hskipped := h.skipped_le hroots
  have hdepth : w.depth placed skipped ≤ w.depth n adj.arcCount := by
    unfold Spacing.depth
    gcongr
  have hsum : total ≤ w.depth placed skipped := by
    have hcast := h.heightSum_le
    rw [htotal] at hcast
    exact Nat.cast_le.mp hcast
  exact ⟨start, tall, hstart, htall, by omega⟩

end Accounts

end Packing

end DialogChart
