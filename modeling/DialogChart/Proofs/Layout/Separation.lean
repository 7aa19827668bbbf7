import DialogChart.Proofs.Coordinate
import DialogChart.Proofs.Layout.Coverage
import Mathlib

/-!
# Boxes that keep clear of each other

In exact arithmetic, and with lengths that are not negative, no two boxes of a layout overlap.

The recursion gives every stack of siblings a band: whatever it places lies between the gap below
the height at which it began and the height at which it ends (`Stacks.band`).  A turn is centred
inside the band of its own stack of children, so the bands of two siblings lie one below the
other with a gap between them.  Two turns in one column stand in the bands of different siblings
of some stack, and are a gap apart (`Stacks.apart`); two turns in different columns are kept
apart by the columns.
-/

namespace DialogChart

/-- All lengths are at least zero. -/
structure Spacing.Nonneg (spacing : Spacing ℚ) : Prop where
  width : 0 ≤ spacing.nodeSize.width
  height : 0 ≤ spacing.nodeSize.height
  columnGap : 0 ≤ spacing.columnGap
  rowGap : 0 ≤ spacing.rowGap

namespace Packing

/-! ### What a stack places -/

section Gains

variable {α : Type} {n : Nat}

/-- A turn that was free before is placed afterwards. -/
def Gains (before after : Vector (Slot α) n) (j : Fin n) (column : Nat) (corner : Point α) :
    Prop :=
  (before.get j).isFree = true ∧ after.get j = .placed column corner

/-- Where nothing changes, nothing is placed. -/
lemma Gains.irrefl {slots : Vector (Slot α) n} {j : Fin n} {column : Nat} {corner : Point α} :
    ¬ Gains slots slots j column corner := by
  rintro ⟨hfree, hplaced⟩
  rw [hplaced] at hfree
  cases hfree

variable [Coordinate α] {adj : Adjacency n} {ranks : Option (Vector (Option α) n)}
  {spacing : Spacing α}

/-- What is placed when a new sibling and those after it are stacked: the sibling itself, or
something beside it in the stack of its children, or something below it. -/
lemma Gains.cases_put {slots inner last : Vector (Slot α) n} {i : Fin n} {rest : List (Fin n)}
    {above : α} {column : Nat} {height total : α} {own : Point α}
    (hrest : Stacks adj ranks spacing (inner.set i (.placed column own) i.isLt) rest above
      column height last total)
    {j : Fin n} {c : Nat} {p : Point α} (h : Gains slots last j c p) :
    (j = i ∧ c = column ∧ p = own) ∨
      Gains (slots.set i .pending i.isLt) inner j c p ∨
      Gains (inner.set i (.placed column own) i.isLt) last j c p := by
  obtain ⟨hfree, hlast⟩ := h
  cases hbefore : ((inner.set i (.placed column own) i.isLt).get j).isFree with
  | true => exact .inr (.inr ⟨hbefore, hlast⟩)
  | false =>
    rw [hrest.kept hbefore, get_set] at hlast
    by_cases hji : j = i
    · rw [if_pos hji] at hlast
      cases hlast
      exact .inl ⟨hji, rfl, rfl⟩
    · rw [if_neg hji] at hlast
      refine .inr (.inl ⟨?_, hlast⟩)
      rw [get_set, if_neg hji]
      exact hfree

/-- A stack places turns in its own column and those to the right, at the left edge of their
column. -/
lemma Stacks.column_le {slots last : Vector (Slot α) n} {siblings : List (Fin n)} {above : α}
    {column : Nat} {height total : α}
    (h : Stacks adj ranks spacing slots siblings above column height last total)
    {j : Fin n} {c : Nat} {p : Point α} (hj : Gains slots last j c p) :
    column ≤ c ∧
      p.x = Coordinate.ofCount c * (spacing.nodeSize.width + spacing.columnGap) := by
  induction h with
  | done => exact absurd hj Gains.irrefl
  | skip _ _ ih => exact ih hj
  | put _ _ hrest ihInner ihRest =>
    rcases hj.cases_put hrest with ⟨-, rfl, rfl⟩ | hj | hj
    · exact ⟨Nat.le_refl _, rfl⟩
    · obtain ⟨hle, hx⟩ := ihInner hj
      exact ⟨Nat.le_of_succ_le hle, hx⟩
    · exact ihRest hj

/-- Every turn that was placed was free at the beginning. -/
lemma gains_of_run {roots : List (Fin n)} {i : Fin n} {c : Nat} {p : Point α}
    (h : (run adj roots ranks spacing).get i = .placed c p) :
    Gains (.replicate n .free)
      (stack adj ranks spacing (.replicate n .free) (ordered ranks roots) 0 0 0).1 i c p := by
  refine ⟨by rw [get_replicate]; rfl, ?_⟩
  rw [← run_eq_stack]
  exact h

/-- A turn stands at the left edge of its column. -/
lemma run_x {roots : List (Fin n)} {a : Fin n} {c : Nat} {p : Point α}
    (h : (run adj roots ranks spacing).get a = .placed c p) :
    p.x = Coordinate.ofCount c * (spacing.nodeSize.width + spacing.columnGap) :=
  ((stacks_stack adj ranks spacing _ _ _ _ _).column_le (gains_of_run h)).2

end Gains

/-! ### Bands -/

section Bands

variable {n : Nat} {adj : Adjacency n} {ranks : Option (Vector (Option ℚ) n)}
  {spacing : Spacing ℚ} {slots last : Vector (Slot ℚ) n} {siblings : List (Fin n)} {above : ℚ}
  {column : Nat} {height total : ℚ}

/-- What a sibling with a stack of children reserves is not negative. -/
lemma reserved_nonneg (hs : spacing.Nonneg) (tall : ℚ) :
    0 ≤ max spacing.nodeSize.height (stackHeight spacing tall) :=
  hs.height.trans (le_max_left _ _)

/-- Stacks only grow. -/
lemma Stacks.height_le (hs : spacing.Nonneg)
    (h : Stacks adj ranks spacing slots siblings above column height last total) :
    height ≤ total := by
  have hgap := hs.rowGap
  induction h with
  | done => exact le_rfl
  | skip _ _ ih => linarith
  | @put _ _ _ _ _ _ _ _ tall _ _ _ _ _ ih =>
    have hreserved := reserved_nonneg hs tall
    rw [Coordinate.larger_rat] at ih
    linarith

/-- A turn stands a gap below the height above it, and is moved down to the middle of the stack of
its children. -/
lemma corner_y (spacing : Spacing ℚ) (column : Nat) (above stack : ℚ) :
    (corner spacing column above stack).y =
      above + spacing.rowGap + max (stack / 2 - spacing.nodeSize.height / 2) 0 := by
  simp only [corner, Coordinate.half_rat, Coordinate.larger_rat]

/-- A turn that is centred against the stack of its children, with the gap above it, fits into
the height that it reserves. -/
lemma corner_fits (spacing : Spacing ℚ) (column : Nat) (above stack : ℚ) :
    above + spacing.rowGap ≤ (corner spacing column above stack).y ∧
      (corner spacing column above stack).y + spacing.nodeSize.height ≤
        above + spacing.rowGap + max spacing.nodeSize.height stack := by
  rw [corner_y]
  constructor
  · have hzero := le_max_right (stack / 2 - spacing.nodeSize.height / 2) 0
    linarith
  · have hnode := le_max_left spacing.nodeSize.height stack
    have hstack := le_max_right spacing.nodeSize.height stack
    rcases max_choice (stack / 2 - spacing.nodeSize.height / 2) 0 with h | h
    · rw [h]
      linarith
    · rw [h]
      linarith

/-- The children of a turn fit into the height that the turn reserves. -/
lemma stack_fits (spacing : Spacing ℚ) (tall : ℚ) :
    tall ≤ max spacing.nodeSize.height (stackHeight spacing tall) + spacing.rowGap := by
  have hstack : tall - spacing.rowGap ≤ stackHeight spacing tall := le_max_left _ _
  have hreserved := le_max_right spacing.nodeSize.height (stackHeight spacing tall)
  linarith

/-- Whatever a stack places lies in its band: at least a gap below the height at which the stack
began, and not below the height at which it ends. -/
lemma Stacks.band (hs : spacing.Nonneg)
    (h : Stacks adj ranks spacing slots siblings above column height last total)
    {j : Fin n} {c : Nat} {p : Point ℚ} (hj : Gains slots last j c p) :
    above + height + spacing.rowGap ≤ p.y ∧ p.y + spacing.nodeSize.height ≤ above + total := by
  have hgap := hs.rowGap
  induction h with
  | done => exact absurd hj Gains.irrefl
  | skip _ _ ih =>
    obtain ⟨htop, hbottom⟩ := ih hj
    exact ⟨by linarith, hbottom⟩
  | @put _ _ _ _ _ above column height tall total _ _ hrest ihInner ihRest =>
    have hreserved := reserved_nonneg hs tall
    have htotal := hrest.height_le hs
    rw [Coordinate.larger_rat] at htotal ihRest
    rcases hj.cases_put hrest with ⟨-, rfl, rfl⟩ | hj | hj
    · obtain ⟨htop, hbottom⟩ := corner_fits spacing c (above + height) (stackHeight spacing tall)
      exact ⟨htop, by linarith⟩
    · obtain ⟨htop, hbottom⟩ := ihInner hj
      have hfits := stack_fits spacing tall
      exact ⟨by linarith, by linarith⟩
    · obtain ⟨htop, hbottom⟩ := ihRest hj
      exact ⟨by linarith, hbottom⟩

/-- Two corners at which boxes stand one below the other, with a gap between them. -/
def Apart (spacing : Spacing ℚ) (p q : Point ℚ) : Prop :=
  p.y + spacing.nodeSize.height + spacing.rowGap ≤ q.y ∨
    q.y + spacing.nodeSize.height + spacing.rowGap ≤ p.y

/-- Two turns that a stack places in one column stand apart. -/
lemma Stacks.apart (hs : spacing.Nonneg)
    (h : Stacks adj ranks spacing slots siblings above column height last total)
    {a b : Fin n} {c : Nat} {p q : Point ℚ} (hab : a ≠ b) (ha : Gains slots last a c p)
    (hb : Gains slots last b c q) : Apart spacing p q := by
  induction h with
  | done => exact absurd ha Gains.irrefl
  | skip _ _ ih => exact ih ha hb
  | @put slots inner last i _ above column height tall total _ hinner hrest ihInner ihRest =>
    -- The new sibling and what stands beside it lie above everything that is stacked later.
    have hupper : ∀ {k : Fin n} {c : Nat} {r : Point ℚ},
        Gains (slots.set i .pending i.isLt) inner k c r →
        r.y + spacing.nodeSize.height ≤ above + (height +
          (max spacing.nodeSize.height (stackHeight spacing tall) + spacing.rowGap)) := by
      intro k c r hk
      have hband := (hinner.band hs hk).2
      have hfits := stack_fits spacing tall
      linarith
    have hown := (corner_fits spacing column (above + height) (stackHeight spacing tall)).2
    have hlower : ∀ {k : Fin n} {c : Nat} {r : Point ℚ},
        Gains (inner.set i (.placed column
          (corner spacing column (above + height) (stackHeight spacing tall))) i.isLt) last k c r →
        above + (height + (max spacing.nodeSize.height (stackHeight spacing tall) +
          spacing.rowGap)) + spacing.rowGap ≤ r.y := by
      intro k c r hk
      exact (hrest.band hs hk).1
    rcases ha.cases_put hrest with ⟨rfl, rfl, rfl⟩ | ha | ha
    · rcases hb.cases_put hrest with ⟨rfl, -, -⟩ | hb | hb
      · exact absurd rfl hab
      · have hcolumn := (hinner.column_le hb).1
        omega
      · have hbelow := hlower hb
        exact .inl (by linarith)
    · rcases hb.cases_put hrest with ⟨-, rfl, -⟩ | hb | hb
      · have hcolumn := (hinner.column_le ha).1
        omega
      · exact ihInner ha hb
      · have habove := hupper ha
        have hbelow := hlower hb
        exact .inl (by linarith)
    · rcases hb.cases_put hrest with ⟨-, -, rfl⟩ | hb | hb
      · have hbelow := hlower ha
        exact .inr (by linarith)
      · have habove := hupper hb
        have hbelow := hlower ha
        exact .inr (by linarith)
      · exact ihRest ha hb

end Bands

/-! ### All turns of a run -/

section Run

variable {n : Nat} {adj : Adjacency n} {roots : List (Fin n)}
  {ranks : Option (Vector (Option ℚ) n)} {spacing : Spacing ℚ}

/-- Two turns in one column stand apart. -/
lemma run_apart (hs : spacing.Nonneg) {a b : Fin n} {c : Nat} {p q : Point ℚ} (hab : a ≠ b)
    (ha : (run adj roots ranks spacing).get a = .placed c p)
    (hb : (run adj roots ranks spacing).get b = .placed c q) : Apart spacing p q :=
  (stacks_stack adj ranks spacing _ _ _ _ _).apart hs hab (gains_of_run ha) (gains_of_run hb)

/-- A box ends a gap before the next column begins. -/
lemma column_lt_column (hs : spacing.Nonneg) {c d : Nat} (h : c < d) :
    c * (spacing.nodeSize.width + spacing.columnGap) + spacing.nodeSize.width +
        spacing.columnGap ≤ d * (spacing.nodeSize.width + spacing.columnGap) := by
  have hcolumn : 0 ≤ spacing.nodeSize.width + spacing.columnGap :=
    add_nonneg hs.width hs.columnGap
  have hcd : (c : ℚ) + 1 ≤ d := by exact_mod_cast h
  calc
    c * (spacing.nodeSize.width + spacing.columnGap) + spacing.nodeSize.width + spacing.columnGap
        = (c + 1) * (spacing.nodeSize.width + spacing.columnGap) := by ring
    _ ≤ d * (spacing.nodeSize.width + spacing.columnGap) :=
      mul_le_mul_of_nonneg_right hcd hcolumn

end Run

end Packing

/-! ### Boxes -/

namespace Box

/-- Boxes of which one ends before the other begins do not intersect. -/
lemma not_intersects_of_le {a b : Box ℚ}
    (h : (a.maxX ≤ b.minX ∨ b.maxX ≤ a.minX) ∨ (a.maxY ≤ b.minY ∨ b.maxY ≤ a.minY)) :
    a.intersects b = false := by
  rw [← Bool.not_eq_true]
  intro hmeet
  simp only [intersects, Coordinate.below_rat, Bool.and_eq_true, decide_eq_true_eq] at hmeet
  obtain ⟨⟨hab, hba⟩, hab', hba'⟩ := hmeet
  rcases h with (h | h) | (h | h) <;> linarith

end Box

namespace Packing

/-- Two placed turns are clear of each other: by the gap between rows in one column, and by the
gap between columns in different ones. -/
structure Clear (spacing : Spacing ℚ) (c d : Nat) (a b : Box ℚ) : Prop where
  not_intersects : a.intersects b = false
  rows : c = d → a.maxY + spacing.rowGap ≤ b.minY ∨ b.maxY + spacing.rowGap ≤ a.minY
  columns : c ≠ d → a.maxX + spacing.columnGap ≤ b.minX ∨ b.maxX + spacing.columnGap ≤ a.minX

/-- Any two turns of a run are clear of each other. -/
lemma run_clear {n : Nat} (adj : Adjacency n) (roots : List (Fin n))
    (ranks : Option (Vector (Option ℚ) n)) {spacing : Spacing ℚ} (hs : spacing.Nonneg)
    {i j : Fin n} {c d : Nat} {p q : Point ℚ} (hij : i ≠ j)
    (hi : (run adj roots ranks spacing).get i = .placed c p)
    (hj : (run adj roots ranks spacing).get j = .placed d q) :
    Clear spacing c d (.ofCorner p spacing.nodeSize) (.ofCorner q spacing.nodeSize) := by
  have hrowGap := hs.rowGap
  have hcolumnGap := hs.columnGap
  have hrows : c = d → Apart spacing p q := by
    rintro rfl
    exact run_apart hs hij hi hj
  have hcolumns : c ≠ d →
      p.x + spacing.nodeSize.width + spacing.columnGap ≤ q.x ∨
        q.x + spacing.nodeSize.width + spacing.columnGap ≤ p.x := by
    intro hcd
    rw [run_x hi, run_x hj, Coordinate.ofCount_rat, Coordinate.ofCount_rat]
    rcases Nat.lt_or_gt_of_ne hcd with hlt | hgt
    · exact .inl (column_lt_column hs hlt)
    · exact .inr (column_lt_column hs hgt)
  refine ⟨Box.not_intersects_of_le ?_, hrows, hcolumns⟩
  by_cases hcd : c = d
  · refine .inr ?_
    rcases hrows hcd with h | h
    · exact .inl (le_of_add_le_of_nonneg_left h hrowGap)
    · exact .inr (le_of_add_le_of_nonneg_left h hrowGap)
  · refine .inl ?_
    rcases hcolumns hcd with h | h
    · exact .inl (le_of_add_le_of_nonneg_left h hcolumnGap)
    · exact .inr (le_of_add_le_of_nonneg_left h hcolumnGap)

end Packing

/-! ### Layouts -/

namespace Layout

/-- In a layout that was read off some slots, any two turns that were placed have boxes that are
clear of each other, and no two ids have boxes that intersect. -/
def AllClear (g : Graph) (spacing : Spacing ℚ) (slots : Vector (Packing.Slot ℚ) g.size)
    (layout : Layout ℚ) : Prop :=
  (∀ (i j : Fin g.size) (c d : Nat) (p q : Point ℚ), i ≠ j →
    slots.get i = .placed c p → slots.get j = .placed d q →
    ∃ a b : Box ℚ, layout.bounds? (g.turns.get i).id = some a ∧
      layout.bounds? (g.turns.get j).id = some b ∧ Packing.Clear spacing c d a b) ∧
  ∀ (id other : String) (a b : Box ℚ), id ≠ other →
    layout.bounds? id = some a → layout.bounds? other = some b → a.intersects b = false

/-- Whatever the order of the siblings, all boxes are clear of each other. -/
lemma allClear_ofSlots {g : Graph} (hg : g.UniqueIds) {spacing : Spacing ℚ}
    (hs : spacing.Nonneg) (ranks : Option (Vector (Option ℚ) g.size)) :
    AllClear g spacing (Packing.run g.adjacency (g.roots g.adjacency) ranks spacing)
      (ofSlots g (Packing.run g.adjacency (g.roots g.adjacency) ranks spacing)
        spacing.nodeSize) := by
  constructor
  · intro i j c d p q hij hi hj
    refine ⟨_, _, ?_, ?_, Packing.run_clear _ _ _ hs hij hi hj⟩
    · exact (bounds?_ofSlots hg).mpr ⟨i, c, p, rfl, hi, rfl⟩
    · exact (bounds?_ofSlots hg).mpr ⟨j, d, q, rfl, hj, rfl⟩
  · intro id other a b hne ha hb
    obtain ⟨i, c, p, hid, hi, rfl⟩ := (bounds?_ofSlots hg).mp ha
    obtain ⟨j, d, q, hother, hj, rfl⟩ := (bounds?_ofSlots hg).mp hb
    have hij : i ≠ j := by
      rintro rfl
      exact hne (hid.symm.trans hother)
    exact (Packing.run_clear _ _ _ hs hij hi hj).not_intersects

/-- No two turns overlap.  In exact arithmetic, with distinct ids and lengths that are not
negative, the boxes of any two turns that were placed do not intersect; in one column they are at
least the gap between rows apart, and in different columns at least the gap between columns.  This
holds for both engines and all their settings, and indeed for all ranks by which siblings may be
sorted. -/
theorem turns_never_overlap (g : Graph) (hg : g.UniqueIds) (spacing : Spacing ℚ)
    (hs : spacing.Nonneg) :
    (∀ (engine : Engine) (tension : Tension ℚ),
      AllClear g spacing (slots engine ⟨spacing, tension⟩ g)
        (ofGraph engine ⟨spacing, tension⟩ g)) ∧
    ∀ ranks : Option (Vector (Option ℚ) g.size),
      AllClear g spacing (Packing.run g.adjacency (g.roots g.adjacency) ranks spacing)
        (ofSlots g (Packing.run g.adjacency (g.roots g.adjacency) ranks spacing)
          spacing.nodeSize) := by
  refine ⟨?_, allClear_ofSlots hg hs⟩
  intro engine tension
  rw [ofGraph_eq]
  exact allClear_ofSlots hg hs (ranks engine ⟨spacing, tension⟩ g)

/-- A child that three turns share, a cycle back to the start, a loop and an edge from nowhere: the
boxes of the first and the last child are clear of each other. -/
theorem turns_never_overlap_shared :
    let g : Graph :=
      { turns := [⟨"a", "a", .bot, "f"⟩, ⟨"b", "b", .user, "f"⟩, ⟨"c", "c", .bot, "f"⟩,
          ⟨"d", "d", .user, "f"⟩]
        edges := [⟨"a", "b"⟩, ⟨"b", "c"⟩, ⟨"a", "c"⟩, ⟨"a", "d"⟩, ⟨"d", "c"⟩, ⟨"c", "a"⟩,
          ⟨"d", "d"⟩, ⟨"x", "a"⟩] }
    let spacing : Spacing ℚ := ⟨⟨160, 69⟩, 100, 40⟩
    let layout := ofGraph .basic ⟨spacing, ⟨0, 0, 0, none⟩⟩ g
    g.UniqueIds ∧ spacing.Nonneg ∧
      ∃ b d : Box ℚ, layout.bounds? "b" = some b ∧ layout.bounds? "d" = some d ∧
        b.intersects d = false := by
  intro g spacing layout
  have hg : g.UniqueIds := by
    unfold Graph.UniqueIds
    decide
  have hs : spacing.Nonneg := ⟨by decide, by decide, by decide, by decide⟩
  have hb : layout.bounds? "b" = some ⟨260, 40, 420, 109⟩ := by cbv
  have hd : layout.bounds? "d" = some ⟨260, 189, 420, 258⟩ := by cbv
  exact ⟨hg, hs, _, _, hb, hd,
    ((turns_never_overlap g hg spacing hs).1 .basic ⟨0, 0, 0, none⟩).2 _ _ _ _ (by decide) hb hd⟩

end Layout

end DialogChart
