import DialogChart.Proofs.Layout.Extent
import DialogChart.Proofs.Number.SingleArithmetic

/-!
# Layouts without rounding errors

With lengths that are whole numbers the walk over singles computes exactly what it computes in
exact arithmetic, as long as the extent of the layout is at most `2 ^ 23`.

The two walks keep step (`Stands.step`): what the exact walk computes is a multiple of one half
within the extent, hence the value of a single, and the operation on singles returns it.  The
order of siblings is that of the ranks over singles in both walks; the exact walk sorts by their
places in the order of all singles (`orderKeys`), which gives the same lists.
-/

namespace DialogChart

open Number

/-- A multiple of one half within the range of exact singles is the value of a single. -/
lemma HalfWithin.isSingle {v : ℚ} (h : HalfWithin (2 ^ 23) v) : IsSingle v := by
  obtain ⟨⟨k, rfl⟩, hle⟩ := h
  refine isSingle_half ?_
  exact_mod_cast hle

/-- Singles have the values of whole lengths. -/
structure Spacing.StandsFor (spacing : Spacing Float32) (w : Spacing ℕ) : Prop where
  width : value? spacing.nodeSize.width = some (w.nodeSize.width : ℚ)
  height : value? spacing.nodeSize.height = some (w.nodeSize.height : ℚ)
  columnGap : value? spacing.columnGap = some (w.columnGap : ℚ)
  rowGap : value? spacing.rowGap = some (w.rowGap : ℚ)

/-! ### The order of siblings -/

/-- The places of some ranks in the order of all singles, as exact numbers. -/
def orderKeys {n : ℕ} (ranks : Option (Vector (Option Float32) n)) :
    Option (Vector (Option ℚ) n) :=
  ranks.map fun ranks => ranks.map fun rank =>
    some (sortKey (rank.getD Coordinate.unranked) : ℚ)

namespace Packing

variable {n : ℕ}

/-- Sorting by the places of the ranks gives the same order. -/
lemma ordered_orderKeys (ranks : Option (Vector (Option Float32) n)) (siblings : List (Fin n)) :
    ordered (orderKeys ranks) siblings = ordered ranks siblings := by
  cases ranks with
  | none => rfl
  | some ranks =>
    have hkey : ∀ i, (ranks.map fun rank =>
        some (sortKey (rank.getD Coordinate.unranked) : ℚ)).get i =
        some (sortKey ((ranks.get i).getD Coordinate.unranked) : ℚ) := fun i =>
      Vector.getElem_map _ i.isLt
    have hprecedes : ∀ x y : Float32, Coordinate.precedes (sortKey x : ℚ) (sortKey y : ℚ) =
        Coordinate.precedes x y := by
      intro x y
      change decide ((sortKey x : ℚ) ≤ sortKey y) = decide (sortKey x ≤ sortKey y)
      simp only [Int.cast_le]
    unfold ordered orderKeys
    simp only [Option.map_some, hkey, Option.getD_some, hprecedes]

/-! ### Singles that stand for exact numbers -/

/-- A slot over singles has the values of an exact slot. -/
inductive Slot.Stands : Slot Float32 → Slot ℚ → Prop where
  | free : Stands .free .free
  | pending : Stands .pending .pending
  | placed {column : ℕ} {x y : Float32} {a b : ℚ} : value? x = some a → value? y = some b →
    Stands (.placed column ⟨x, y⟩) (.placed column ⟨a, b⟩)

/-- A stack over singles has the values of an exact stack. -/
inductive Frame.Stands : Frame Float32 n → Frame ℚ n → Prop where
  | mk {owner : Option (Fin n)} {met waiting : List (Fin n)} {column : ℕ} {x y : Float32}
    {a b : ℚ} : value? x = some a → value? y = some b →
    Stands ⟨owner, met, waiting, x, column, y⟩ ⟨owner, met, waiting, a, column, b⟩

/-- A state over singles has the values of an exact state. -/
inductive Stands : State Float32 n → State ℚ n → Prop where
  | mk {slots : Vector (Slot Float32) n} {exact : Vector (Slot ℚ) n}
    {frames : List (Frame Float32 n)} {exactFrames : List (Frame ℚ n)} :
    (∀ i, (slots.get i).Stands (exact.get i)) → List.Forall₂ Frame.Stands frames exactFrames →
    Stands ⟨slots, frames⟩ ⟨exact, exactFrames⟩

/-- Whether a turn was met is the same in both walks. -/
lemma Slot.Stands.isFree_eq {slot : Slot Float32} {exact : Slot ℚ} (h : slot.Stands exact) :
    slot.isFree = exact.isFree := by
  cases h <;> rfl

/-- Filling a slot in both walks. -/
lemma stands_set {slots : Vector (Slot Float32) n} {exact : Vector (Slot ℚ) n}
    (h : ∀ i, (slots.get i).Stands (exact.get i)) (i : Fin n) {slot : Slot Float32}
    {exactSlot : Slot ℚ} (hslot : slot.Stands exactSlot) (j : Fin n) :
    ((slots.set i slot i.isLt).get j).Stands ((exact.set i exactSlot i.isLt).get j) := by
  rw [get_set, get_set]
  split
  · exact hslot
  · exact h j

/-! ### Keeping step -/

/-- The zero from which stacks grow. -/
lemma value?_zero : value? (0 : Float32) = some 0 := by
  have hparts : ofSingle (0 : Float32) = .finite false 0 (-149) := by decide
  rw [value?, hparts, Datum.value?, Nat.cast_zero, zero_mul, mul_zero]

/-- The left edge of a column. -/
lemma value?_column {column k : ℕ} (hcolumn : column < 2 ^ 64) {x : Float32}
    (hx : value? x = some (k : ℚ)) (h : HalfWithin (2 ^ 23) ((column : ℚ) * k)) :
    value? (Coordinate.ofCount column * x) = some ((column : ℚ) * k) := by
  rcases Nat.eq_zero_or_pos k with rfl | hk
  · -- Columns of no width all stand at zero, however many they are.
    obtain ⟨a, ha⟩ := exists_value?_ofCount hcolumn
    rw [Nat.cast_zero] at hx h ⊢
    rw [mul_zero] at h ⊢
    have hproduct := value?_mul ha hx
    rw [mul_zero] at hproduct
    exact hproduct h.isSingle
  · have hcount : HalfWithin (2 ^ 23) (column : ℚ) := by
      refine .of_nat ?_
      have hle := h.le
      rw [abs_of_nonneg (by positivity)] at hle
      have hle' : column * k ≤ 2 ^ 23 := by exact_mod_cast hle
      exact (Nat.le_mul_of_pos_right column hk).trans hle'
    exact value?_mul (value?_ofCount hcount.isSingle) hx h.isSingle

section Simulation

variable {spacing : Spacing Float32} {w : Spacing ℕ} {above height : Float32} {a b : ℚ}

/-- The height of a finished stack is exact. -/
lemma value?_stackHeight (hspacing : spacing.StandsFor w) (hheight : value? height = some b)
    (h : HalfWithin (2 ^ 23) (b - w.exact.rowGap)) :
    value? (stackHeight spacing height) = some (stackHeight w.exact b) :=
  value?_larger (value?_sub hheight hspacing.rowGap h.isSingle) value?_zero

/-- What is computed for a finished stack is exact: the place of its owner, and what it adds to
the stack around it. -/
lemma closing_stands (hspacing : spacing.StandsFor w) {top : Frame ℚ n}
    (hcolumn : top.column - 1 < 2 ^ 64) (habove : value? above = some top.above)
    (hheight : value? height = some top.height)
    (h : ∀ v ∈ closing w.exact top, HalfWithin (2 ^ 23) v) :
    Slot.Stands (.placed (top.column - 1)
        (corner spacing (top.column - 1) above (stackHeight spacing height)))
      (.placed (top.column - 1)
        (corner w.exact (top.column - 1) top.above (stackHeight w.exact top.height))) ∧
    value? (Coordinate.larger spacing.nodeSize.height (stackHeight spacing height) +
        spacing.rowGap) =
      some (Coordinate.larger w.exact.nodeSize.height (stackHeight w.exact top.height) +
        w.exact.rowGap) := by
  simp only [closing, List.forall_mem_cons] at h
  obtain ⟨hsub, -, hhalf, hnode, hoffset, -, hstart, hy, hunit, hx, -, htaken, -⟩ := h
  have hstack := value?_stackHeight hspacing hheight hsub
  refine ⟨.placed ?_ ?_, ?_⟩
  · have hcolumns := value?_add hspacing.width hspacing.columnGap hunit.isSingle
    rw [← Nat.cast_add] at hcolumns
    have hedge := value?_column hcolumn hcolumns
    rw [Nat.cast_add] at hedge
    exact hedge hx
  · have hmiddle := value?_sub (value?_half hstack hhalf.isSingle)
      (value?_half hspacing.height hnode.isSingle) hoffset.isSingle
    exact value?_add (value?_add habove hspacing.rowGap hstart.isSingle)
      (value?_larger hmiddle value?_zero) hy.isSingle
  · exact value?_add (value?_larger hspacing.height hstack) hspacing.rowGap htaken.isSingle

variable {adj : Adjacency n} {ranks : Option (Vector (Option Float32) n)} {roots : List (Fin n)}

/-- Both walks begin alike. -/
lemma stands_begin (ranks : Option (Vector (Option Float32) n)) (roots : List (Fin n)) :
    Stands (begin ranks roots) (begin (orderKeys ranks) roots) := by
  unfold begin frame
  rw [ordered_orderKeys]
  refine .mk (fun i => ?_) (.cons (.mk value?_zero value?_zero) .nil)
  rw [get_replicate, get_replicate]
  exact .free

/-- A move of the exact walk is a move of the walk over singles, if what it computes are multiples
of one half within the range of exact singles. -/
lemma Stands.move (hspacing : spacing.StandsFor w) {s : State Float32 n} {t next : State ℚ n}
    (h : Stands s t) (hcolumns : ∀ f ∈ t.frames, f.column ≤ 2 ^ 64)
    (hformed : ∀ v ∈ formed w.exact t, HalfWithin (2 ^ 23) v)
    (hmove : Move adj (orderKeys ranks) w.exact t next) :
    ∃ last, step adj ranks spacing s = some last ∧ Stands last next := by
  obtain ⟨hslots, hframes⟩ := h
  cases hmove with
  | skip hmet =>
    obtain _ | ⟨⟨habove, hheight⟩, hbelow⟩ := hframes
    simp only [formed, hmet, Bool.false_eq_true, if_false, List.forall_mem_singleton] at hformed
    refine ⟨_, step_skip ((hslots _).isFree_eq.trans hmet) _ _ _ _ _ _ _, ?_⟩
    refine .mk hslots (.cons (.mk habove ?_) hbelow)
    exact value?_add hheight hspacing.rowGap hformed.isSingle
  | descend hfree =>
    obtain _ | ⟨⟨habove, hheight⟩, hbelow⟩ := hframes
    simp only [formed, hfree, if_true, List.forall_mem_singleton] at hformed
    refine ⟨_, step_open ((hslots _).isFree_eq.trans hfree) _ _ _ _ _ _ _, ?_⟩
    rw [ordered_orderKeys]
    refine .mk (stands_set hslots _ .pending) (.cons (.mk ?_ value?_zero)
      (.cons (.mk habove hheight) hbelow))
    exact value?_add habove hheight hformed.isSingle
  | ascend =>
    obtain _ | ⟨⟨habove, hheight⟩, _ | ⟨⟨houterAbove, houterHeight⟩, hbelow⟩⟩ := hframes
    simp only [formed, List.head?_cons, Option.map_some, Option.toList_some,
      List.forall_mem_append, List.forall_mem_singleton] at hformed
    have hcolumn := hcolumns _ List.mem_cons_self
    obtain ⟨hplace, htaken⟩ := closing_stands hspacing (by omega) habove hheight hformed.1
    refine ⟨_, rfl, .mk (stands_set hslots _ hplace) (.cons (.mk houterAbove ?_) hbelow)⟩
    exact value?_add houterHeight htaken hformed.2.isSingle
  | leave =>
    obtain _ | ⟨⟨habove, hheight⟩, _ | _⟩ := hframes
    simp only [formed, List.head?_nil, Option.map_none, Option.toList_none,
      List.append_nil] at hformed
    have hcolumn := hcolumns _ List.mem_cons_self
    obtain ⟨hplace, -⟩ := closing_stands hspacing (by omega) habove hheight hformed
    exact ⟨_, rfl, .mk (stands_set hslots _ hplace) .nil⟩

/-- The walk over singles stops where the exact walk does. -/
lemma Stands.stop {s : State Float32 n} {t : State ℚ n} (h : Stands s t)
    (hstop : step adj (orderKeys ranks) w.exact t = none) : step adj ranks spacing s = none := by
  obtain @⟨_, exact, _, _, -, hframes⟩ := h
  cases hframes with
  | nil => rfl
  | cons htop hbelow =>
    obtain @⟨owner, met, waiting, _, _, _, _, _, -, -⟩ := htop
    cases waiting with
    | cons i rest =>
      cases hfree : (exact.get i).isFree with
      | false =>
        rw [step_skip hfree] at hstop
        cases hstop
      | true =>
        rw [step_open hfree] at hstop
        cases hstop
    | nil =>
      cases owner with
      | none => rfl
      | some i => cases hbelow <;> cases hstop

/-- The two walks keep step. -/
lemma Moves.stands (hspacing : spacing.StandsFor w) (hroots : roots.Nodup) (hn : n ≤ 2 ^ 64)
    (hextent : w.extent n adj.arcCount ≤ 2 ^ 23) {t : State ℚ n}
    (h : Moves adj (orderKeys ranks) w.exact (begin (orderKeys ranks) roots) t) :
    ∃ s, Moves adj ranks spacing (begin ranks roots) s ∧ Stands s t := by
  induction h with
  | refl => exact ⟨_, .refl, stands_begin ranks roots⟩
  | tail hmoves hstep ih =>
    obtain ⟨s, hs, hstands⟩ := ih
    obtain ⟨placed, skipped, haccounts⟩ := Moves.accounts hmoves
    have hcolumns := fun f hf => (haccounts.column_le f hf).trans hn
    have hformed := fun v hv => (haccounts.formed_within hroots v hv).mono hextent
    obtain ⟨last, hlast, hnext⟩ :=
      hstands.move hspacing hcolumns hformed (move_of_step hstep)
    exact ⟨last, hs.tail hlast, hnext⟩

/-- A run over singles leaves the slots of the exact run. -/
lemma run_stands (ranks : Option (Vector (Option Float32) n))
    (hspacing : spacing.StandsFor w) (hroots : roots.Nodup) (hn : n ≤ 2 ^ 64)
    (hextent : w.extent n adj.arcCount ≤ 2 ^ 23) (i : Fin n) :
    ((run adj roots ranks spacing).get i).Stands
      ((run adj roots (orderKeys ranks) w.exact).get i) := by
  obtain ⟨-, last, hmoves, hstop, hslots⟩ :=
    run_refines_recursion adj roots (orderKeys ranks) w.exact
  obtain ⟨s, hs, hstands⟩ := Moves.stands hspacing hroots hn hextent hmoves
  rw [← hslots, run, hs.walk_eq, walk_of_step_eq_none (hstands.stop hstop)]
  obtain ⟨hfilled, -⟩ := hstands
  exact hfilled i

end Simulation

end Packing

/-! ### Layouts over other numbers -/

section Maps

variable {α β : Type} (f : α → β)

/-- Apply a function to both coordinates of a point. -/
def Point.map (p : Point α) : Point β :=
  ⟨f p.x, f p.y⟩

/-- Apply a function to the sides of a box. -/
def Box.map (box : Box α) : Box β :=
  ⟨f box.minX, f box.minY, f box.maxX, f box.maxY⟩

/-- Apply a function to all coordinates and lengths of a layout. -/
def Layout.map (layout : Layout α) : Layout β :=
  ⟨layout.positions.map (Point.map f), layout.nodeSize.map f⟩

end Maps

/-- Slots that stand for each other have corners of the same values. -/
lemma Packing.Slot.Stands.corner?_map {slot : Packing.Slot Float32} {exact : Packing.Slot ℚ}
    (h : slot.Stands exact) :
    slot.corner?.map (Point.map value?) = exact.corner?.map (Point.map some) := by
  cases h with
  | free => rfl
  | pending => rfl
  | placed hx hy => simp only [corner?, Option.map_some, Point.map, hx, hy]

namespace Layout

/-- The layout in exact arithmetic, with whole lengths and siblings in the order of some ranks
over singles. -/
def exact (g : Graph) (w : Spacing ℕ) (ranks : Option (Vector (Option Float32) g.size)) :
    Layout ℚ :=
  ofSlots g (Packing.run g.adjacency (g.roots g.adjacency) (orderKeys ranks) w.exact)
    w.exact.nodeSize

variable {g : Graph} {w : Spacing ℕ}

/-- The sides of the boxes of an exact layout are multiples of one half within the extent. -/
lemma bounds?_within (ranks : Option (Vector (Option ℚ) g.size)) {id : String} {box : Box ℚ}
    (h : (ofSlots g (Packing.run g.adjacency (g.roots g.adjacency) ranks w.exact)
      w.exact.nodeSize).bounds? id = some box) :
    ∀ v ∈ box.sides, HalfWithin (w.extent g.size g.arcs.length) v := by
  obtain ⟨i, column, corner, hslot, rfl⟩ := exists_placed_of_bounds? h
  rw [← g.arcCount_adjacency]
  exact Packing.run_boxesWithin g.nodup_roots i column corner hslot

/-- A layout over singles has the values of the exact layout. -/
lemma ofGraph_map_value? {settings : LayoutSettings Float32} (engine : Engine)
    (hspacing : settings.spacing.StandsFor w) (hsize : g.size ≤ 2 ^ 64)
    (hextent : w.extent g.size g.arcs.length ≤ 2 ^ 23) :
    (ofGraph engine settings g).map value? =
      (exact g w (ranks engine settings g)).map some := by
  rw [← g.arcCount_adjacency] at hextent
  have hcorners := fun i =>
    (Packing.run_stands (ranks engine settings g) hspacing g.nodup_roots hsize hextent
      i).corner?_map
  have hnode : settings.spacing.nodeSize.map value? = w.exact.nodeSize.map some := by
    simp only [Size.map, hspacing.width, hspacing.height, Spacing.exact_width,
      Spacing.exact_height]
  rw [ofGraph_eq, Layout.map, Layout.map, exact, map_positions_ofSlots, map_positions_ofSlots]
  simp only [slots, hcorners]
  exact congrArg _ hnode

/-- Layouts of the same values have boxes of the same values, if the sides of the exact boxes are
within the range of exact singles. -/
lemma bounds?_map_value? {layout : Layout Float32} {other : Layout ℚ}
    (h : layout.map value? = other.map some) {id : String}
    (hwithin : ∀ box, other.bounds? id = some box → ∀ v ∈ box.sides, HalfWithin (2 ^ 23) v) :
    (layout.bounds? id).map (Box.map value?) = (other.bounds? id).map (Box.map some) := by
  have hposition : (layout.position? id).map (Point.map value?) =
      (other.position? id).map (Point.map some) := by
    have hpositions := congrArg (fun l => l.positions.get? id) h
    simp only [Layout.map, Table.get?_map] at hpositions
    exact hpositions
  have hwidth : value? layout.nodeSize.width = some other.nodeSize.width :=
    congrArg (fun l => l.nodeSize.width) h
  have hheight : value? layout.nodeSize.height = some other.nodeSize.height :=
    congrArg (fun l => l.nodeSize.height) h
  unfold bounds? at hwithin ⊢
  cases hother : other.position? id with
  | none =>
    rw [hother, Option.map_none, Option.map_eq_none_iff] at hposition
    rw [hposition]
    rfl
  | some q =>
    rw [hother, Option.map_some, Option.map_eq_some_iff] at hposition
    obtain ⟨p, hp, hpq⟩ := hposition
    have hx : value? p.x = some q.x := congrArg Point.x hpq
    have hy : value? p.y = some q.y := congrArg Point.y hpq
    rw [hother, Option.map_some] at hwithin
    have hsides := hwithin _ rfl
    simp only [Box.sides, Box.ofCorner, List.forall_mem_cons] at hsides
    obtain ⟨-, -, hmaxX, hmaxY, -⟩ := hsides
    rw [hp]
    simp only [Option.map_some, Box.map, Box.ofCorner, hx, hy,
      value?_add hx hwidth hmaxX.isSingle, value?_add hy hheight hmaxY.isSingle]

/-- A layout over singles is an exact layout: it lists the same ids, and all coordinates, lengths
and sides of boxes have the exact values. -/
def HasValues (layout : Layout Float32) (other : Layout ℚ) : Prop :=
  layout.map value? = other.map some ∧
    ∀ id, (layout.bounds? id).map (Box.map value?) = (other.bounds? id).map (Box.map some)

/-- A bound on the lengths bounds the number of turns, unless all lengths are zero. -/
lemma size_le_of_extent_le {turns edges : ℕ} (hextent : w.extent turns edges ≤ 2 ^ 23)
    (hzero : w.extent turns edges = 0 → turns ≤ 2 ^ 64) : turns ≤ 2 ^ 64 := by
  unfold Spacing.extent Spacing.depth Spacing.breadth at hextent hzero
  by_cases hrows : w.nodeSize.height + w.rowGap = 0
  · by_cases hcolumns : w.nodeSize.width + w.columnGap = 0
    · obtain ⟨-, hgap⟩ := Nat.add_eq_zero_iff.mp hrows
      apply hzero
      rw [hrows, hcolumns, hgap, Nat.mul_zero, Nat.mul_zero]
      rfl
    · have hle := Nat.le_mul_of_pos_right turns (Nat.pos_of_ne_zero hcolumns)
      omega
  · have hle := Nat.le_mul_of_pos_right turns (Nat.pos_of_ne_zero hrows)
    omega

/-- Within the range of exact singles, the layout of an engine is the exact layout with the order
of siblings that the engine finds. -/
lemma ofGraph_hasValues {settings : LayoutSettings Float32} (engine : Engine)
    (hspacing : settings.spacing.StandsFor w)
    (hextent : w.extent g.size g.arcs.length ≤ 2 ^ 23)
    (hzero : w.extent g.size g.arcs.length = 0 → g.size ≤ 2 ^ 64) :
    (ofGraph engine settings g).HasValues (exact g w (ranks engine settings g)) := by
  have hvalues :=
    ofGraph_map_value? engine hspacing (size_le_of_extent_le hextent hzero) hextent
  refine ⟨hvalues, fun id => bounds?_map_value? hvalues fun box hbox v hv => ?_⟩
  exact (bounds?_within _ hbox v hv).mono hextent

/-- The lengths for whoever asks for none. -/
def defaultLengths : Spacing ℕ :=
  ⟨⟨160, 69⟩, 100, 40⟩

/-- The default lengths are whole numbers. -/
lemma standsFor_defaultLengths : LayoutSettings.default.spacing.StandsFor defaultLengths := by
  have hvalue : ∀ {x : Float32} {m : ℕ} {q : ℤ}, ofSingle x = .finite false m q →
      value? x = some ((m : ℚ) * 2 ^ q) := by
    intro x m q hx
    rw [value?, hx, Datum.value?, if_neg Bool.false_ne_true, one_mul]
  have hwidth : ofSingle 160 = .finite false 10485760 (-16) := by decide
  have hheight : ofSingle 69 = .finite false 9043968 (-17) := by decide
  have hcolumnGap : ofSingle 100 = .finite false 13107200 (-17) := by decide
  have hrowGap : ofSingle 40 = .finite false 10485760 (-18) := by decide
  refine ⟨(hvalue hwidth).trans ?_, (hvalue hheight).trans ?_, (hvalue hcolumnGap).trans ?_,
    (hvalue hrowGap).trans ?_⟩ <;> norm_num [defaultLengths]

/-- With lengths that are whole numbers, a layout over singles has no rounding errors.

In exact arithmetic, for all ranks by which siblings may be sorted, every length that the walk
holds or computes and every side of a box is a multiple of one half, and none is further from zero
than the extent: the larger of `turns * (height + rowGap) + edges * rowGap` and
`turns * (width + columnGap)`.

If the extent is at most `2 ^ 23`, all these numbers are values of singles, and for both engines
the layout over singles is the exact one, with siblings in the order that the engine finds.  That an
operation returns a result unchanged if it is the value of a single is not assumed here: it is
`Number.value?_add` and its companions.  Only where all lengths are zero does the extent not bound
the number of turns; a count of columns must not be rounded to infinity then.

With the default lengths the extent is at most `2 ^ 23` for every graph with `109 * turns +
40 * edges` and `260 * turns` up to this number. -/
theorem singles_are_exact (g : Graph) :
    (∀ (w : Spacing ℕ) (ranks : Option (Vector (Option ℚ) g.size)),
      (∀ state, Packing.Moves g.adjacency ranks w.exact
          (Packing.begin ranks (g.roots g.adjacency)) state →
        (∀ f ∈ state.frames, HalfWithin (w.extent g.size g.arcs.length) f.above ∧
          HalfWithin (w.extent g.size g.arcs.length) f.height) ∧
        ∀ v ∈ Packing.formed w.exact state,
          HalfWithin (w.extent g.size g.arcs.length) v) ∧
      ∀ id box, (ofSlots g (Packing.run g.adjacency (g.roots g.adjacency) ranks w.exact)
          w.exact.nodeSize).bounds? id = some box →
        ∀ v ∈ box.sides, HalfWithin (w.extent g.size g.arcs.length) v) ∧
    (∀ w : Spacing ℕ, w.extent g.size g.arcs.length ≤ 2 ^ 23 →
      (∀ v, HalfWithin (w.extent g.size g.arcs.length) v → IsSingle v) ∧
      ∀ (engine : Engine) (settings : LayoutSettings Float32), settings.spacing.StandsFor w →
        (w.extent g.size g.arcs.length = 0 → g.size ≤ 2 ^ 64) →
        (ofGraph engine settings g).HasValues (exact g w (ranks engine settings g))) ∧
    (109 * g.size + 40 * g.arcs.length ≤ 2 ^ 23 → 260 * g.size ≤ 2 ^ 23 →
      ∀ (engine : Engine) (settings : LayoutSettings Float32),
        settings.spacing = LayoutSettings.default.spacing →
        (ofGraph engine settings g).HasValues
          (exact g defaultLengths (ranks engine settings g))) := by
  refine ⟨fun w ranks => ⟨fun state hmoves => ?_, fun id box => bounds?_within ranks⟩,
    fun w hextent => ⟨fun v hv => (hv.mono hextent).isSingle,
      fun engine settings hspacing => ofGraph_hasValues engine hspacing hextent⟩,
    fun hdepth hbreadth engine settings hdefault => ?_⟩
  · obtain ⟨placed, skipped, haccounts⟩ := hmoves.accounts
    rw [← g.arcCount_adjacency]
    exact ⟨haccounts.frames_within g.nodup_roots, haccounts.formed_within g.nodup_roots⟩
  · have hextent : defaultLengths.extent g.size g.arcs.length ≤ 2 ^ 23 := by
      apply max_le
      · change g.size * (69 + 40) + g.arcs.length * 40 ≤ 2 ^ 23
        omega
      · change g.size * (160 + 100) ≤ 2 ^ 23
        omega
    apply ofGraph_hasValues engine _ hextent
    · intro _
      omega
    · rw [hdefault]
      exact standsFor_defaultLengths

/-- A child that three turns share, a cycle back to the start, a loop and an edge from nowhere, with
the default lengths.  The first turn stands beside a stack of an odd height, half a unit off, and
the layouts of both engines are exact. -/
theorem singles_are_exact_shared :
    let g : Graph :=
      { turns := [⟨"a", "a", .bot, "f"⟩, ⟨"b", "b", .user, "f"⟩, ⟨"c", "c", .bot, "f"⟩,
          ⟨"d", "d", .user, "f"⟩]
        edges := [⟨"a", "b"⟩, ⟨"b", "c"⟩, ⟨"a", "c"⟩, ⟨"a", "d"⟩, ⟨"d", "c"⟩, ⟨"c", "a"⟩,
          ⟨"d", "d"⟩, ⟨"x", "a"⟩] }
    let w := defaultLengths
    let start : Packing.State ℚ g.size := Packing.begin none (g.roots g.adjacency)
    let layout := ofSlots g (Packing.run g.adjacency (g.roots g.adjacency) none w.exact)
      w.exact.nodeSize
    w.extent g.size g.arcs.length = 1040 ∧
      Packing.formed w.exact start = [0] ∧ HalfWithin (w.extent g.size g.arcs.length) 0 ∧
      layout.bounds? "a" = some ⟨0, 229 / 2, 160, 367 / 2⟩ ∧
      HalfWithin (w.extent g.size g.arcs.length) (229 / 2) ∧ IsSingle (229 / 2) ∧
      (∀ engine, (ofGraph engine LayoutSettings.default g).HasValues
        (exact g w (ranks engine LayoutSettings.default g))) ∧
      109 * g.size + 40 * g.arcs.length ≤ 2 ^ 23 ∧ 260 * g.size ≤ 2 ^ 23 ∧
      (ofGraph .relaxed LayoutSettings.default g).HasValues
        (exact g defaultLengths (ranks .relaxed LayoutSettings.default g)) := by
  intro g w start layout
  have hextent : w.extent g.size g.arcs.length = 1040 := by decide
  have hstart : Packing.formed w.exact start = [0] := by cbv
  have hbounds : layout.bounds? "a" = some ⟨0, 229 / 2, 160, 367 / 2⟩ := by cbv
  obtain ⟨hwithin, hsingles, hdefault⟩ := singles_are_exact g
  obtain ⟨hlengths, hboxes⟩ := hwithin w none
  obtain ⟨hisSingle, hlayouts⟩ := hsingles w (by rw [hextent]; norm_num)
  have hside := hboxes "a" _ hbounds (229 / 2) (by simp [Box.sides])
  have hdepth : 109 * g.size + 40 * g.arcs.length ≤ 2 ^ 23 := by decide
  have hbreadth : 260 * g.size ≤ 2 ^ 23 := by decide
  refine ⟨hextent, hstart, (hlengths start .refl).2 0 (by simp [hstart]), hbounds, hside,
    hisSingle _ hside, fun engine => ?_, hdepth, hbreadth, hdefault hdepth hbreadth .relaxed _ rfl⟩
  exact hlayouts engine LayoutSettings.default standsFor_defaultLengths fun _ => by decide

end Layout

end DialogChart
