import DialogChart.Proofs.Layout.Bands
import DialogChart.Proofs.Layout.Forest

/-!
# The order of siblings in a forest

In a forest the order in which siblings are stacked changes neither the columns nor the size of a
layout.

The column of a turn is its depth, and a turn has one depth only (`run_column_unique`).  For the
heights the point is that in a forest no sibling has been met before it is stacked: the turns below
two siblings are different (`Fresh`).  So the height of a stack is a sum over its siblings, which
does not depend on their order (`Fills.perm`, `Stacks.fills`).  And no stack leaves room at its
ends: some turn stands a gap below the height above it, and some turn ends where the stack ends
(`Stacks.touches_top`, `Stacks.touches_bottom`), either the first and the last sibling themselves
or, where their children take more room, the children at the ends.
-/

namespace DialogChart

namespace Packing

/-! ### Columns are depths -/

section Columns

variable {α : Type} {n : Nat} [Coordinate α] {adj : Adjacency n} {roots : List (Fin n)}
  {ranks other : Option (Vector (Option α) n)} {spacing : Spacing α}

/-- Sorting siblings permutes them. -/
lemma ordered_perm (ranks : Option (Vector (Option α) n)) (siblings : List (Fin n)) :
    (ordered ranks siblings).Perm siblings := by
  cases ranks with
  | none => exact .refl siblings
  | some ranks => exact List.mergeSort_perm siblings _

/-- A turn is placed in the column of its depth. -/
lemma level_of_run {j : Fin n} {c : Nat} {p : Point α}
    (h : (run adj roots ranks spacing).get j = .placed c p) : adj.Level roots c j := by
  induction c generalizing j p with
  | zero =>
    rcases run_column_origin h with ⟨-, hroot⟩ | ⟨k, i, q, hc, -, -⟩
    · exact .root hroot
    · cases hc
  | succ c ih =>
    rcases run_column_origin h with ⟨hc, -⟩ | ⟨k, i, q, hc, hchild, hi⟩
    · cases hc
    · cases hc
      exact (ih hi).child hchild

/-- In a forest the column of a turn does not depend on the ranks. -/
lemma run_column_unique (hforest : adj.Forest roots) {j : Fin n} {c d : Nat} {p q : Point α}
    (hp : (run adj roots ranks spacing).get j = .placed c p)
    (hq : (run adj roots other spacing).get j = .placed d q) : c = d :=
  hforest.level_unique (level_of_run hp) (level_of_run hq)

end Columns

/-! ### Siblings whose subtrees are free -/

section Fresh

variable {α : Type} {n : Nat} {adj : Adjacency n} {roots : List (Fin n)}
  {slots : Vector (Slot α) n} {siblings : List (Fin n)} {column : Nat}

/-- Nothing has been met of what can be reached from the siblings, which are different turns of the
depth of their column. -/
structure Fresh (adj : Adjacency n) (roots : List (Fin n)) (slots : Vector (Slot α) n)
    (siblings : List (Fin n)) (column : Nat) : Prop where
  nodup : siblings.Nodup
  level : ∀ i ∈ siblings, adj.Level roots column i
  free : ∀ j, adj.Reached siblings j → (slots.get j).isFree = true

variable {i : Fin n} {rest : List (Fin n)}

/-- The first sibling has not been met. -/
lemma Fresh.first (h : Fresh adj roots slots (i :: rest) column) :
    (slots.get i).isFree = true :=
  h.free i (.of_mem List.mem_cons_self)

/-- In a forest nothing can be reached both from the first sibling and from another one. -/
lemma Fresh.not_reached_rest (hforest : adj.Forest roots)
    (h : Fresh adj roots slots (i :: rest) column) {j : Fin n} (hj : adj.Reached rest j) :
    ¬ adj.Reached [i] j := by
  intro hij
  obtain ⟨k, hk, hkj⟩ := hj
  have heq : i = k := hforest.ancestor_unique (h.level i List.mem_cons_self)
    (h.level k (List.mem_cons_of_mem _ hk)) hij ⟨k, List.mem_singleton_self k, hkj⟩
  exact (List.nodup_cons.mp h.nodup).1 (heq ▸ hk)

variable [Coordinate α] {ranks : Option (Vector (Option α) n)} {spacing : Spacing α}

/-- In the beginning the roots of a forest are fresh. -/
lemma fresh_roots (hforest : adj.Forest roots) (ranks : Option (Vector (Option α) n)) :
    Fresh adj roots (.replicate n .free : Vector (Slot α) n) (ordered ranks roots) 0 where
  nodup := (ordered_perm ranks roots).nodup_iff.mpr (hforest.nodup none)
  level := fun _ hi => .root (mem_ordered.mp hi)
  free := by
    intro j _
    rw [get_replicate]
    rfl

/-- The children of the first sibling are fresh once it is marked. -/
lemma Fresh.children (hforest : adj.Forest roots) (h : Fresh adj roots slots (i :: rest) column) :
    Fresh adj roots (slots.set i .pending i.isLt) (ordered ranks (adj.children.get i))
      (column + 1) where
  nodup := (ordered_perm ranks _).nodup_iff.mpr (hforest.nodup (some i))
  level := fun _ hj => (h.level i List.mem_cons_self).child (mem_ordered.mp hj)
  free := by
    intro j hj
    have hlevel := h.level i List.mem_cons_self
    -- What is reached from a child lies below the sibling, so it is not the sibling itself.
    have hji : j ≠ i := by
      rintro rfl
      obtain ⟨k, hk, hkj⟩ := hj
      have hchild := hlevel.child (mem_ordered.mp hk)
      rcases hchild.descend ⟨k, List.mem_singleton_self k, hkj⟩ with rfl | ⟨m, hm, hbelow⟩
      · exact absurd (hforest.level_unique hlevel hchild) (Nat.ne_of_lt (Nat.lt_succ_self _))
      · have heq := hforest.level_unique hlevel hbelow
        omega
    rw [get_set, if_neg hji]
    refine h.free j (hj.trans fun k hk => ?_)
    exact Adjacency.Reached.child (.of_mem List.mem_cons_self) (mem_ordered.mp hk)

/-- The other siblings are fresh after the first one was placed. -/
lemma Fresh.later (hforest : adj.Forest roots) (h : Fresh adj roots slots (i :: rest) column)
    {inner : Vector (Slot α) n} {above height tall : α}
    (hinner : Stacks adj ranks spacing (slots.set i .pending i.isLt)
      (ordered ranks (adj.children.get i)) above (column + 1) height inner tall)
    (own : Point α) :
    Fresh adj roots (inner.set i (.placed column own) i.isLt) rest column where
  nodup := (List.nodup_cons.mp h.nodup).2
  level := fun k hk => h.level k (List.mem_cons_of_mem _ hk)
  free := by
    intro j hj
    have hapart := h.not_reached_rest hforest hj
    have hji : j ≠ i := by
      rintro rfl
      exact hapart (.of_mem (List.mem_singleton_self j))
    rw [get_set, if_neg hji]
    by_contra hmet
    rw [Bool.not_eq_true] at hmet
    have hfree : ((slots.set i .pending i.isLt).get j).isFree = true := by
      rw [get_set, if_neg hji]
      exact h.free j (hj.mono (List.subset_cons_self _ _))
    refine hapart ((hinner.reached hfree hmet).trans fun k hk => ?_)
    exact Adjacency.Reached.child (.of_mem (List.mem_singleton_self i)) (mem_ordered.mp hk)

end Fresh

/-! ### The height of a stack -/

section Heights

variable {n : Nat} {adj : Adjacency n} {roots : List (Fin n)} {spacing : Spacing ℚ}

/-- Siblings of which none was met before fill a height: each takes what it reserves beside its
children, and a gap. -/
inductive Fills (adj : Adjacency n) (spacing : Spacing ℚ) : List (Fin n) → ℚ → Prop where
  /-- No siblings take no height. -/
  | nil : Fills adj spacing [] 0
  /-- One more sibling. -/
  | cons {i : Fin n} {rest : List (Fin n)} {tall total : ℚ} :
    Fills adj spacing (adj.children.get i) tall → Fills adj spacing rest total →
    Fills adj spacing (i :: rest)
      (max spacing.nodeSize.height (stackHeight spacing tall) + spacing.rowGap + total)

/-- The height that siblings fill is determined by them. -/
lemma Fills.unique {siblings : List (Fin n)} {total total' : ℚ}
    (h : Fills adj spacing siblings total) (h' : Fills adj spacing siblings total') :
    total = total' := by
  induction h generalizing total' with
  | nil =>
    cases h'
    rfl
  | cons _ _ ihInner ihRest =>
    cases h' with
    | cons hinner hrest => rw [ihInner hinner, ihRest hrest]

/-- The height that siblings fill does not depend on their order. -/
lemma Fills.perm {siblings others : List (Fin n)} {total : ℚ}
    (h : Fills adj spacing siblings total) (hperm : siblings.Perm others) :
    Fills adj spacing others total := by
  induction hperm generalizing total with
  | nil => exact h
  | cons i _ ih =>
    cases h with
    | cons hinner hrest => exact .cons hinner (ih hrest)
  | swap i j rest =>
    cases h with
    | @cons _ _ tallJ _ hj hrest =>
      cases hrest with
      | @cons _ _ tallI total hi hrest =>
        have hswap := Fills.cons hi (Fills.cons hj hrest)
        rw [add_left_comm] at hswap
        exact hswap
  | trans _ _ ih ih' => exact ih' (ih h)

variable {ranks : Option (Vector (Option ℚ) n)} {slots last : Vector (Slot ℚ) n}
  {siblings : List (Fin n)} {above : ℚ} {column : Nat} {height total : ℚ}

/-- Fresh siblings are stacked to the height that they fill. -/
lemma Stacks.fills (hforest : adj.Forest roots)
    (h : Stacks adj ranks spacing slots siblings above column height last total)
    (hfresh : Fresh adj roots slots siblings column) :
    Fills adj spacing siblings (total - height) := by
  induction h with
  | done =>
    rw [sub_self]
    exact .nil
  | skip hmet =>
    rw [hfresh.first] at hmet
    cases hmet
  | @put _ _ _ i rest _ _ height tall total _ hinner _ ihInner ihRest =>
    have hchildren : Fills adj spacing (adj.children.get i) tall := by
      have hsorted := ihInner (hfresh.children hforest)
      rw [sub_zero] at hsorted
      exact hsorted.perm (ordered_perm ranks _)
    have hall := Fills.cons hchildren (ihRest (hfresh.later hforest hinner _))
    rw [Coordinate.larger_rat] at hall
    convert hall using 1
    ring

/-! ### The ends of a stack -/

/-- Only where there are siblings is a stack higher than a turn. -/
lemma Stacks.ne_nil_of_high (hs : spacing.Nonneg)
    (h : Stacks adj ranks spacing slots siblings above column 0 last total)
    (hhigh : spacing.nodeSize.height < stackHeight spacing total) : siblings ≠ [] := by
  rintro rfl
  cases h with
  | done =>
    have hgap := hs.rowGap
    exact not_le.mpr hhigh (max_le (by linarith [hs.height]) hs.height)

/-- Some turn stands a gap below the height at which a stack of fresh siblings begins. -/
lemma Stacks.touches_top (hs : spacing.Nonneg) (hforest : adj.Forest roots)
    (h : Stacks adj ranks spacing slots siblings above column height last total)
    (hfresh : Fresh adj roots slots siblings column) (hne : siblings ≠ []) :
    ∃ j c p, Gains slots last j c p ∧ p.y = above + height + spacing.rowGap := by
  induction h with
  | done => exact absurd rfl hne
  | skip hmet =>
    rw [hfresh.first] at hmet
    cases hmet
  | @put slots inner last i rest above column height tall total hfree hinner hrest ihInner _ =>
    rcases le_or_gt (stackHeight spacing tall) spacing.nodeSize.height with hlow | hhigh
    · exact ⟨i, column, _, gains_put hfree hinner hrest (.inl ⟨rfl, rfl, rfl⟩),
        corner_top hlow column (above + height)⟩
    · -- The children reach higher than the sibling, so one of them stands at the top.
      obtain ⟨j, c, p, hj, hp⟩ :=
        ihInner (hfresh.children hforest) (hinner.ne_nil_of_high hs hhigh)
      refine ⟨j, c, p, gains_put hfree hinner hrest (.inr (.inl hj)), ?_⟩
      rw [hp, add_zero]

/-- Some turn ends where a stack of fresh siblings ends. -/
lemma Stacks.touches_bottom (hs : spacing.Nonneg) (hforest : adj.Forest roots)
    (h : Stacks adj ranks spacing slots siblings above column height last total)
    (hfresh : Fresh adj roots slots siblings column) (hne : siblings ≠ []) :
    ∃ j c p, Gains slots last j c p ∧ p.y + spacing.nodeSize.height = above + total := by
  induction h with
  | done => exact absurd rfl hne
  | skip hmet =>
    rw [hfresh.first] at hmet
    cases hmet
  | @put slots inner last i rest above column height tall total hfree hinner hrest ihInner
      ihRest =>
    by_cases hlast : rest = []
    · subst hlast
      have htotal : total = height + (max spacing.nodeSize.height (stackHeight spacing tall) +
          spacing.rowGap) := by
        cases hrest
        rfl
      rcases le_or_gt (stackHeight spacing tall) spacing.nodeSize.height with hlow | hhigh
      · refine ⟨i, column, _, gains_put hfree hinner hrest (.inl ⟨rfl, rfl, rfl⟩), ?_⟩
        rw [corner_top hlow, htotal, max_eq_left hlow]
        ring
      · -- The children reach lower than the sibling, so one of them ends at the bottom.
        obtain ⟨j, c, p, hj, hp⟩ :=
          ihInner (hfresh.children hforest) (hinner.ne_nil_of_high hs hhigh)
        refine ⟨j, c, p, gains_put hfree hinner hrest (.inr (.inl hj)), ?_⟩
        have hstack : stackHeight spacing tall = tall - spacing.rowGap := by
          refine max_eq_left (le_of_not_gt fun hneg => not_le.mpr hhigh ?_)
          exact (max_eq_right hneg.le).trans_le hs.height
        rw [hp, htotal, max_eq_right hhigh.le, hstack]
        ring
    · obtain ⟨j, c, p, hj, hp⟩ := ihRest (hfresh.later hforest hinner _) hlast
      exact ⟨j, c, p, gains_put hfree hinner hrest (.inr (.inr hj)), hp⟩

/-- A run over a forest fills the height of its roots, whatever the ranks: some turn stands a gap
below the top, some turn ends at the bottom, and all turns stand in between. -/
lemma exists_run_ends (hs : spacing.Nonneg) (hforest : adj.Forest roots) (hroots : roots ≠ [])
    (ranks : Option (Vector (Option ℚ) n)) :
    ∃ bottom, Fills adj spacing roots bottom ∧
      IsLeast {y | ∃ i c p, (run adj roots ranks spacing).get i = .placed c p ∧ p.y = y}
        spacing.rowGap ∧
      IsGreatest {y | ∃ i c p, (run adj roots ranks spacing).get i = .placed c p ∧
        p.y + spacing.nodeSize.height = y} bottom := by
  have hcourse := stacks_stack adj ranks spacing (.replicate n .free) (ordered ranks roots) 0 0 0
  have hfresh := fresh_roots hforest ranks
  have hsiblings : ordered ranks roots ≠ [] := by
    rw [ne_eq, ← List.length_eq_zero_iff, (ordered_perm ranks roots).length_eq,
      List.length_eq_zero_iff]
    exact hroots
  have hfills := (hcourse.fills hforest hfresh).perm (ordered_perm ranks roots)
  rw [sub_zero] at hfills
  refine ⟨_, hfills, ⟨?_, ?_⟩, ⟨?_, ?_⟩⟩
  · obtain ⟨j, c, p, hj, hp⟩ := hcourse.touches_top hs hforest hfresh hsiblings
    rw [zero_add, zero_add] at hp
    refine ⟨j, c, p, ?_, hp⟩
    rw [run_eq_stack]
    exact hj.2
  · rintro y ⟨i, c, p, hi, rfl⟩
    have htop := (hcourse.band hs (gains_of_run hi)).1
    rwa [zero_add, zero_add] at htop
  · obtain ⟨j, c, p, hj, hp⟩ := hcourse.touches_bottom hs hforest hfresh hsiblings
    rw [zero_add] at hp
    refine ⟨j, c, p, ?_, hp⟩
    rw [run_eq_stack]
    exact hj.2
  · rintro y ⟨i, c, p, hi, rfl⟩
    have hbottom := (hcourse.band hs (gains_of_run hi)).2
    rwa [zero_add] at hbottom

end Heights

end Packing

/-! ### Layouts -/

/-- The smallest upper side of some boxes, and the largest lower side. -/
structure Box.Spread (boxes : Set (Box ℚ)) (top bottom : ℚ) : Prop where
  top : IsLeast {y | ∃ box ∈ boxes, box.minY = y} top
  bottom : IsGreatest {y | ∃ box ∈ boxes, box.maxY = y} bottom

namespace Layout

section

variable {α : Type} [Coordinate α] {g : Graph}

/-- The boxes of a layout. -/
def boxes (layout : Layout α) : Set (Box α) :=
  {box | ∃ id, layout.bounds? id = some box}

/-- The boxes of all turns that an engine places.  A layout has them all only if no two of these
turns have the same id. -/
def placedBoxes (engine : Engine) (settings : LayoutSettings α) (g : Graph) : Set (Box α) :=
  {box | ∃ i, HasBox engine settings g i box}

/-- Where ids are distinct, a layout has the boxes of all turns that were placed. -/
lemma boxes_ofGraph (hg : g.UniqueIds) (engine : Engine) (settings : LayoutSettings α) :
    (ofGraph engine settings g).boxes = placedBoxes engine settings g := by
  ext box
  constructor
  · rintro ⟨id, hid⟩
    rw [ofGraph_eq, bounds?_ofSlots hg] at hid
    obtain ⟨i, column, corner, -, hslot, hbox⟩ := hid
    exact ⟨i, column, corner, hslot, hbox⟩
  · rintro ⟨i, hi⟩
    exact ⟨_, (bounds?_eq_some_iff hg).mpr hi⟩

/-- In a forest the left side of a turn does not depend on the engine. -/
lemma corner?_x_eq (hg : g.Forest) (engine other : Engine) (settings : LayoutSettings α)
    (i : Fin g.size) :
    ((slots engine settings g).get i).corner?.map Point.x =
      ((slots other settings g).get i).corner?.map Point.x := by
  have hsome : ((slots engine settings g).get i).corner?.isSome =
      ((slots other settings g).get i).corner?.isSome := by
    rw [Bool.eq_iff_iff, isSome_corner?_iff, isSome_corner?_iff]
  cases hp : ((slots engine settings g).get i).corner? with
  | none =>
    rw [hp, Option.isSome_none, eq_comm, Option.isSome_eq_false_iff, Option.isNone_iff_eq_none]
      at hsome
    rw [hsome]
  | some p =>
    rw [hp, Option.isSome_some, eq_comm] at hsome
    obtain ⟨q, hq⟩ := Option.isSome_iff_exists.mp hsome
    obtain ⟨c, hc⟩ := Packing.Slot.corner?_eq_some_iff.mp hp
    obtain ⟨d, hd⟩ := Packing.Slot.corner?_eq_some_iff.mp hq
    obtain rfl := Packing.run_column_unique hg.adjacency hc hd
    rw [hq, Option.map_some, Option.map_some, Packing.run_x hc, Packing.run_x hd]

/-- In a forest the left side that is found under an id does not depend on the engine. -/
lemma position?_x_eq (hg : g.Forest) (engine other : Engine) (settings : LayoutSettings α)
    (id : String) :
    ((ofGraph engine settings g).position? id).map Point.x =
      ((ofGraph other settings g).position? id).map Point.x := by
  unfold position?
  rw [← Table.get?_map, ← Table.get?_map, ofGraph_eq, ofGraph_eq, map_positions_ofSlots,
    map_positions_ofSlots]
  simp only [corner?_x_eq hg engine other settings]

end

/-- The boxes of all turns of a forest reach from a gap below the top to the height that the roots
fill. -/
lemma exists_spread {g : Graph} (hg : g.Forest) {spacing : Spacing ℚ} (hs : spacing.Nonneg)
    (engine : Engine) (tension : Tension ℚ) :
    ∃ bottom, Packing.Fills g.adjacency spacing (g.roots g.adjacency) bottom ∧
      Box.Spread (placedBoxes engine ⟨spacing, tension⟩ g) spacing.rowGap bottom := by
  have hroots : g.roots g.adjacency ≠ [] := by
    obtain ⟨i, -⟩ := hg.entry
    exact Graph.roots_ne_nil i.pos
  obtain ⟨bottom, hfills, ⟨⟨a, c, p, ha, hp⟩, hleast⟩, ⟨b, d, q, hb, hq⟩, hgreatest⟩ :=
    Packing.exists_run_ends hs hg.adjacency hroots (ranks engine ⟨spacing, tension⟩ g)
  refine ⟨bottom, hfills, ⟨?_, ?_⟩, ⟨?_, ?_⟩⟩
  · exact ⟨_, ⟨a, c, p, ha, rfl⟩, hp⟩
  · rintro y ⟨box, ⟨i, column, corner, hi, rfl⟩, rfl⟩
    exact hleast ⟨i, column, corner, hi, rfl⟩
  · exact ⟨_, ⟨b, d, q, hb, rfl⟩, hq⟩
  · rintro y ⟨box, ⟨i, column, corner, hi, rfl⟩, rfl⟩
    exact hgreatest ⟨i, column, corner, hi, rfl⟩

/-- The order of siblings in a forest.  Let every turn have at most one incoming edge, and some turn
none.  In every arithmetic and with all settings, the basic and the relaxed layout give every turn
that is placed, and every id, the same left side.  In exact arithmetic, with lengths that are not
negative, the boxes of all turns that are placed begin a gap below zero, and they end at a height
that is the same for both engines and all relaxations.  Where ids are distinct, these are the boxes
of the layout. -/
theorem sibling_order_keeps_size (g : Graph) (hg : g.Forest) :
    (∀ (α : Type) [Coordinate α] (settings : LayoutSettings α),
      (∀ i : Fin g.size, ((slots .basic settings g).get i).corner?.map Point.x =
        ((slots .relaxed settings g).get i).corner?.map Point.x) ∧
      ∀ id, ((ofGraph .basic settings g).position? id).map Point.x =
        ((ofGraph .relaxed settings g).position? id).map Point.x) ∧
    ∀ spacing : Spacing ℚ, spacing.Nonneg →
      ∃ bottom, ∀ (engine : Engine) (tension : Tension ℚ),
        Box.Spread (placedBoxes engine ⟨spacing, tension⟩ g) spacing.rowGap bottom ∧
        (g.UniqueIds →
          Box.Spread (ofGraph engine ⟨spacing, tension⟩ g).boxes spacing.rowGap bottom) := by
  refine ⟨?_, ?_⟩
  · intro α _ settings
    exact ⟨corner?_x_eq hg .basic .relaxed settings, position?_x_eq hg .basic .relaxed settings⟩
  · intro spacing hs
    obtain ⟨bottom, hfills, -⟩ := exists_spread hg hs .basic ⟨0, 0, 0, none⟩
    refine ⟨bottom, ?_⟩
    intro engine tension
    obtain ⟨bottom', hfills', hspread⟩ := exists_spread hg hs engine tension
    obtain rfl := hfills.unique hfills'
    refine ⟨hspread, fun hids => ?_⟩
    rw [boxes_ofGraph hids]
    exact hspread

/-- The relaxed layout puts the second child of the root above the first one, which has children of
its own, and both layouts have the same size. -/
theorem sibling_order_keeps_size_swapped :
    let g : Graph :=
      { turns := [⟨"a", "a", .bot, "f"⟩, ⟨"b", "b", .user, "f"⟩, ⟨"c", "c", .user, "f"⟩,
          ⟨"d", "d", .bot, "f"⟩, ⟨"e", "e", .bot, "f"⟩, ⟨"h", "h", .bot, "f"⟩]
        edges := [⟨"a", "b"⟩, ⟨"a", "c"⟩, ⟨"b", "d"⟩, ⟨"b", "e"⟩, ⟨"b", "h"⟩] }
    let settings : LayoutSettings ℚ := ⟨⟨⟨160, 69⟩, 100, 40⟩, ⟨1 / 2, 0, 1, none⟩⟩
    g.Forest ∧ settings.spacing.Nonneg ∧ g.UniqueIds ∧
      (ofGraph .basic settings g).position? "c" = some ⟨260, 367⟩ ∧
      (ofGraph .relaxed settings g).position? "c" = some ⟨260, 40⟩ ∧
      (∀ id, ((ofGraph .basic settings g).position? id).map Point.x =
        ((ofGraph .relaxed settings g).position? id).map Point.x) ∧
      ∃ bottom, Box.Spread (ofGraph .basic settings g).boxes 40 bottom ∧
        Box.Spread (ofGraph .relaxed settings g).boxes 40 bottom := by
  intro g settings
  have hg : g.Forest := by
    refine ⟨?_, ⟨0, by decide⟩, by decide⟩
    unfold Graph.SingleEntry
    decide
  have hs : settings.spacing.Nonneg := by constructor <;> norm_num [settings]
  have hids : g.UniqueIds := by
    unfold Graph.UniqueIds
    decide
  obtain ⟨hx, hsize⟩ := sibling_order_keeps_size g hg
  obtain ⟨bottom, hspread⟩ := hsize settings.spacing hs
  exact ⟨hg, hs, hids, by cbv, by cbv, (hx ℚ settings).2, bottom,
    (hspread .basic settings.tension).2 hids, (hspread .relaxed settings.tension).2 hids⟩

/-- Two turns with one id: the layout keeps the box of the second one only, so its smallest upper
side is not a gap below zero. -/
theorem least_top_of_repeated_id :
    let g : Graph :=
      { turns := [⟨"a", "a", .bot, "f"⟩, ⟨"a", "a", .bot, "f"⟩]
        edges := [] }
    let settings : LayoutSettings ℚ := ⟨⟨⟨160, 69⟩, 100, 40⟩, ⟨0, 0, 0, none⟩⟩
    let tops : Set ℚ := {y | ∃ box ∈ (ofGraph .basic settings g).boxes, box.minY = y}
    g.Forest ∧ settings.spacing.Nonneg ∧ IsLeast tops 149 ∧
      ¬ IsLeast tops settings.spacing.rowGap := by
  intro g settings tops
  have hg : g.Forest := by
    refine ⟨?_, ⟨0, by decide⟩, by decide⟩
    unfold Graph.SingleEntry
    decide
  have hs : settings.spacing.Nonneg := by constructor <;> norm_num [settings]
  have hentries : (ofGraph .basic settings g).positions.entries = [("a", ⟨0, 149⟩)] := by cbv
  have hbounds : (ofGraph .basic settings g).bounds? "a" = some ⟨0, 149, 160, 218⟩ := by cbv
  have hleast : IsLeast tops 149 := by
    refine ⟨⟨_, ⟨"a", hbounds⟩, rfl⟩, ?_⟩
    rintro y ⟨box, ⟨id, hid⟩, rfl⟩
    obtain ⟨corner, hcorner, rfl⟩ := Option.map_eq_some_iff.mp hid
    have hmem := Table.get?_eq_some_iff.mp hcorner
    rw [hentries, List.mem_singleton] at hmem
    obtain ⟨-, rfl⟩ := Prod.mk.inj hmem
    exact le_rfl
  refine ⟨hg, hs, hleast, fun hgap => ?_⟩
  have heq : (149 : ℚ) = 40 := hleast.unique hgap
  norm_num at heq

end Layout

end DialogChart
