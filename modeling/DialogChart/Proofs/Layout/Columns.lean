import DialogChart.Proofs.Layout.Separation

/-!
# Columns and distances

The column of a turn is the depth at which the walk first came upon it, which depends on the order
of the siblings.  This file compares it with the distance from the roots, which does not.

A stack places its own siblings in its column, and whatever else it places is a child of a turn
that it placed one column before (`Stacks.column_origin`).  So the roots, and only they, stand in
the first column, and every other turn is the end of an edge from the column before.  A chain of
such edges leads back to a root, so no turn stands nearer to the first column than its distance
allows; where no turn has two incoming edges, there is no other chain, and column and distance are
the same (`columns_follow_edges`).
-/

namespace DialogChart

/-! ### Distances -/

namespace Graph

/-- A turn can be reached from some root by following a number of edges. -/
inductive Away (g : Graph) : Nat → Fin g.size → Prop where
  /-- The roots are reached without an edge. -/
  | root {r : Fin g.size} : r ∈ g.roots g.adjacency → Away g 0 r
  /-- One more edge is followed. -/
  | edge {k : Nat} {i j : Fin g.size} : Away g k i → g.Leads i j → Away g (k + 1) j

/-- The number of edges from the nearest root to a turn. -/
def Distance (g : Graph) (i : Fin g.size) (d : Nat) : Prop :=
  IsLeast {k | g.Away k i} d

/-- Every turn has at most one incoming edge, counted with multiplicity among the edges between
turns of the graph. -/
def SingleEntry (g : Graph) : Prop :=
  ∀ j : Fin g.size, (g.arcs.filter fun arc => arc.2 = j).length ≤ 1

variable {g : Graph}

/-- What is some edges away from a root can be reached. -/
lemma Away.reachable {k : Nat} {i : Fin g.size} (h : g.Away k i) : g.Reachable i := by
  induction h with
  | root hr => exact ⟨_, hr, .refl⟩
  | edge _ hleads ih =>
    obtain ⟨r, hr, hri⟩ := ih
    exact ⟨r, hr, hri.tail hleads⟩

/-- What is some edges away has a distance, which is at most their number. -/
lemma Away.exists_distance {k : Nat} {i : Fin g.size} (h : g.Away k i) :
    ∃ d ≤ k, g.Distance i d := by
  classical
  have hexists : ∃ k, g.Away k i := ⟨k, h⟩
  exact ⟨Nat.find hexists, Nat.find_min' hexists h, Nat.find_spec hexists,
    fun m hm => Nat.find_min' hexists hm⟩

/-- Where there is at most one incoming edge, the arcs that lead to a turn have one source. -/
lemma SingleEntry.source_unique (h : g.SingleEntry) {a b j : Fin g.size} (ha : (a, j) ∈ g.arcs)
    (hb : (b, j) ∈ g.arcs) : a = b := by
  have hmem : ∀ c, (c, j) ∈ g.arcs → (c, j) ∈ g.arcs.filter fun arc => arc.2 = j := by
    intro c hc
    exact List.mem_filter.mpr ⟨hc, decide_eq_true rfl⟩
  obtain ⟨x, hx⟩ := List.length_eq_one_iff.mp
    (Nat.le_antisymm (h j) (List.length_pos_of_mem (hmem a ha)))
  have hax := hmem a ha
  have hbx := hmem b hb
  rw [hx, List.mem_singleton] at hax hbx
  exact congrArg Prod.fst (hax.trans hbx.symm)

/-- Where there is at most one incoming edge, a turn has one parent only. -/
lemma SingleEntry.parent_unique (h : g.SingleEntry) (hg : g.UniqueIds) {a b j : Fin g.size}
    (ha : g.Leads a j) (hb : g.Leads b j) : a = b := by
  refine h.source_unique (j := j) ?_ ?_
  · exact Adjacency.mem_children_ofArcs.mp (hg.mem_children_iff.mpr ha)
  · exact Adjacency.mem_children_ofArcs.mp (hg.mem_children_iff.mpr hb)

end Graph

/-! ### Where the turns of a stack come from -/

namespace Packing

variable {α : Type} {n : Nat} [Coordinate α] {adj : Adjacency n}
  {ranks : Option (Vector (Option α) n)} {spacing : Spacing α}

/-- What a new sibling, the stack of its children and the stack below it place is placed by the
whole stack. -/
lemma gains_put {slots inner last : Vector (Slot α) n} {i : Fin n} {siblings rest : List (Fin n)}
    {above start : α} {column next : Nat} {height low tall total : α} {own : Point α}
    (hfree : (slots.get i).isFree = true)
    (hinner : Stacks adj ranks spacing (slots.set i .pending i.isLt) siblings start next low inner
      tall)
    (hrest : Stacks adj ranks spacing (inner.set i (.placed column own) i.isLt) rest above
      column height last total)
    {j : Fin n} {c : Nat} {p : Point α}
    (h : (j = i ∧ c = column ∧ p = own) ∨
      Gains (slots.set i .pending i.isLt) inner j c p ∨
      Gains (inner.set i (.placed column own) i.isLt) last j c p) :
    Gains slots last j c p := by
  have hkept : ∀ s : Slot α, s.isFree = false →
      (inner.set i (.placed column own) i.isLt).get j = s → last.get j = s := by
    intro s hs hj
    rw [hrest.kept (hj ▸ hs), hj]
  rcases h with ⟨rfl, rfl, rfl⟩ | ⟨hbefore, hplaced⟩ | ⟨hbefore, hplaced⟩
  · exact ⟨hfree, hkept _ rfl (by rw [get_set, if_pos rfl])⟩
  · have hji : j ≠ i := by
      rintro rfl
      rw [get_set, if_pos rfl] at hbefore
      cases hbefore
    rw [get_set, if_neg hji] at hbefore
    exact ⟨hbefore, hkept _ rfl (by rw [get_set, if_neg hji, hplaced])⟩
  · refine ⟨?_, hplaced⟩
    by_cases hji : j = i
    · exact hji ▸ hfree
    · rw [get_set, if_neg hji] at hbefore
      cases hslot : (slots.get j).isFree with
      | true => rfl
      | false =>
        have hpending : (slots.set i .pending i.isLt).get j = slots.get j := by
          rw [get_set, if_neg hji]
        rw [hinner.kept (hpending ▸ hslot), hpending, hslot] at hbefore
        cases hbefore

/-- A stack places its siblings in its own column, and whatever it places to the right is a child
of a turn that it places one column before. -/
lemma Stacks.column_origin {slots last : Vector (Slot α) n} {siblings : List (Fin n)} {above : α}
    {column : Nat} {height total : α}
    (h : Stacks adj ranks spacing slots siblings above column height last total)
    {j : Fin n} {c : Nat} {p : Point α} (hj : Gains slots last j c p) :
    (c = column ∧ j ∈ siblings) ∨
      ∃ (k : Nat) (i : Fin n) (q : Point α), c = k + 1 ∧ j ∈ adj.children.get i ∧
        Gains slots last i k q := by
  induction h with
  | done => exact absurd hj Gains.irrefl
  | skip _ _ ih =>
    rcases ih hj with ⟨hc, hmem⟩ | hchild
    · exact .inl ⟨hc, List.mem_cons_of_mem _ hmem⟩
    · exact .inr hchild
  | @put slots inner last a rest above column height tall total hfree hinner hrest ihInner ihRest =>
    rcases hj.cases_put hrest with ⟨rfl, hc, -⟩ | hj | hj
    · exact .inl ⟨hc, List.mem_cons_self⟩
    · rcases ihInner hj with ⟨hc, hmem⟩ | ⟨k, i, q, hc, hchild, hi⟩
      · exact .inr ⟨column, a, _, hc, mem_ordered.mp hmem,
          gains_put hfree hinner hrest (.inl ⟨rfl, rfl, rfl⟩)⟩
      · exact .inr ⟨k, i, q, hc, hchild, gains_put hfree hinner hrest (.inr (.inl hi))⟩
    · rcases ihRest hj with ⟨hc, hmem⟩ | ⟨k, i, q, hc, hchild, hi⟩
      · exact .inl ⟨hc, List.mem_cons_of_mem _ hmem⟩
      · exact .inr ⟨k, i, q, hc, hchild, gains_put hfree hinner hrest (.inr (.inr hi))⟩

/-- The first sibling, if it is new, stands in the column of the stack. -/
lemma Stacks.first_column {slots last : Vector (Slot α) n} {i : Fin n} {rest : List (Fin n)}
    {above : α} {column : Nat} {height total : α}
    (h : Stacks adj ranks spacing slots (i :: rest) above column height last total)
    (hfree : (slots.get i).isFree = true) : ∃ p, Gains slots last i column p := by
  cases h with
  | skip hmet _ =>
    rw [hfree] at hmet
    cases hmet
  | put _ hinner hrest =>
    exact ⟨_, gains_put hfree hinner hrest (.inl ⟨rfl, rfl, rfl⟩)⟩

section Run

variable {roots : List (Fin n)}

/-- A turn is a root in the first column, or a child of a turn in the column before. -/
lemma run_column_origin {j : Fin n} {c : Nat} {p : Point α}
    (h : (run adj roots ranks spacing).get j = .placed c p) :
    (c = 0 ∧ j ∈ roots) ∨
      ∃ (k : Nat) (i : Fin n) (q : Point α), c = k + 1 ∧ j ∈ adj.children.get i ∧
        (run adj roots ranks spacing).get i = .placed k q := by
  rcases (stacks_stack adj ranks spacing _ _ _ _ _).column_origin (gains_of_run h) with
    ⟨hc, hmem⟩ | ⟨k, i, q, hc, hchild, -, hi⟩
  · exact .inl ⟨hc, mem_ordered.mp hmem⟩
  · rw [← run_eq_stack] at hi
    exact .inr ⟨k, i, q, hc, hchild, hi⟩

/-- A root that is alone stands in the first column. -/
lemma run_single_root (adj : Adjacency n) (ranks : Option (Vector (Option α) n))
    (spacing : Spacing α) (r : Fin n) :
    ∃ p, (run adj [r] ranks spacing).get r = .placed 0 p := by
  have hrun := stacks_stack adj ranks spacing (.replicate n .free) (ordered ranks [r]) 0 0 0
  rw [← run_eq_stack, ordered_singleton] at hrun
  obtain ⟨p, -, hp⟩ := hrun.first_column (by rw [get_replicate]; rfl)
  exact ⟨p, hp⟩

end Run

end Packing

/-! ### Layouts -/

namespace Layout

variable {α : Type} [Coordinate α] {g : Graph}

/-- A turn was placed in a column. -/
def InColumn (engine : Engine) (settings : LayoutSettings α) (g : Graph) (i : Fin g.size)
    (column : Nat) : Prop :=
  ∃ corner, (slots engine settings g).get i = .placed column corner

variable {engine : Engine} {settings : LayoutSettings α}

/-- A turn stands in one column only. -/
lemma InColumn.unique {i : Fin g.size} {c d : Nat} (hc : InColumn engine settings g i c)
    (hd : InColumn engine settings g i d) : c = d := by
  obtain ⟨p, hp⟩ := hc
  obtain ⟨q, hq⟩ := hd
  rw [hp] at hq
  cases hq
  rfl

/-- A turn stands in the first column and is a root, or an edge leads to it from the column
before. -/
lemma InColumn.origin (hg : g.UniqueIds) {j : Fin g.size} {c : Nat}
    (h : InColumn engine settings g j c) :
    (c = 0 ∧ j ∈ g.roots g.adjacency) ∨
      ∃ (k : Nat) (i : Fin g.size), c = k + 1 ∧ InColumn engine settings g i k ∧ g.Leads i j := by
  obtain ⟨p, hp⟩ := h
  rcases Packing.run_column_origin hp with hroot | ⟨k, i, q, hc, hchild, hi⟩
  · exact .inl hroot
  · exact .inr ⟨k, i, hc, ⟨q, hi⟩, hg.mem_children_iff.mp hchild⟩

/-- A turn with a parent is a root only if it is the only one. -/
lemma roots_eq_singleton {r : Fin g.size} (hr : r ∈ g.roots g.adjacency)
    (hparents : g.adjacency.parents.get r ≠ []) : g.roots g.adjacency = [r] := by
  have horphans : g.adjacency.orphans = [] := by
    by_contra hne
    rw [Graph.roots_of_orphans_ne_nil hne, Adjacency.mem_orphans] at hr
    exact hparents hr
  rw [Graph.roots_of_orphans_eq_nil horphans, Option.mem_toList] at hr
  rw [Graph.roots_of_orphans_eq_nil horphans, hr]
  rfl

/-- Among the turns that were placed the roots are those in the first column. -/
lemma InColumn.eq_zero_iff (hg : g.UniqueIds) {i : Fin g.size} {c : Nat}
    (h : InColumn engine settings g i c) : c = 0 ↔ i ∈ g.roots g.adjacency := by
  rcases h.origin hg with ⟨hc, hroot⟩ | ⟨k, a, hc, -, hleads⟩
  · exact iff_of_true hc hroot
  · refine ⟨fun hzero => by omega, fun hroot => ?_⟩
    -- A root with a parent stands in for missing roots, so it comes first and nothing is below it.
    have hparents : g.adjacency.parents.get i ≠ [] :=
      List.ne_nil_of_mem (hg.mem_parents_iff.mpr hleads)
    have hfirst : InColumn engine settings g i 0 := by
      unfold InColumn slots
      rw [roots_eq_singleton hroot hparents]
      exact Packing.run_single_root _ _ _ i
    exact h.unique hfirst

/-- The column of a turn is a number of edges from a root to the turn. -/
lemma InColumn.away (hg : g.UniqueIds) {i : Fin g.size} {c : Nat}
    (h : InColumn engine settings g i c) : g.Away c i := by
  induction c generalizing i with
  | zero => exact .root ((h.eq_zero_iff hg).mp rfl)
  | succ c ih =>
    rcases h.origin hg with ⟨hc, -⟩ | ⟨k, a, hc, ha, hleads⟩
    · cases hc
    · cases hc
      exact .edge (ih ha) hleads

/-- Whatever can be reached stands in a column. -/
lemma exists_inColumn (hg : g.UniqueIds) (engine : Engine) (settings : LayoutSettings α)
    {i : Fin g.size} (h : g.Reachable i) : ∃ c, InColumn engine settings g i c :=
  (Packing.run_placed_iff _ _ _ _ i).mpr ((hg.reached_iff i).mpr h)

/-- Where no turn has two incoming edges, no root is nearer than the column says. -/
lemma InColumn.le_of_away (hg : g.UniqueIds) (hsingle : g.SingleEntry) {i : Fin g.size}
    {c k : Nat} (h : InColumn engine settings g i c) (haway : g.Away k i) : c ≤ k := by
  induction haway generalizing c with
  | root hr => exact Nat.le_of_eq ((h.eq_zero_iff hg).mpr hr)
  | @edge k a j haway hleads ih =>
    obtain ⟨d, hd⟩ := exists_inColumn hg engine settings haway.reachable
    rcases h.origin hg with ⟨hc, -⟩ | ⟨m, b, hc, hb, hbj⟩
    · omega
    · obtain rfl : a = b := hsingle.parent_unique hg hleads hbj
      have hle := ih hb
      omega

/-- Columns follow edges.  With distinct ids, and whatever engine and settings are used, every
position of the layout is at the left edge of the column of its turn.  The turns in the first column
are the roots; to every turn in a later column an edge leads from the column before; and the column
of a turn is never smaller than its distance from the nearest root.  Where every turn has at most
one incoming edge, column and distance are the same. -/
theorem columns_follow_edges (g : Graph) (hg : g.UniqueIds) (engine : Engine)
    (settings : LayoutSettings α) :
    (∀ (i : Fin g.size) (corner : Point α),
      (ofGraph engine settings g).position? (g.turns.get i).id = some corner →
      ∃ c, InColumn engine settings g i c ∧ corner.x = Coordinate.ofCount c *
        (settings.spacing.nodeSize.width + settings.spacing.columnGap)) ∧
    (∀ (i : Fin g.size) (c : Nat), InColumn engine settings g i c →
      (c = 0 ↔ i ∈ g.roots g.adjacency)) ∧
    (∀ (j : Fin g.size) (c : Nat), InColumn engine settings g j (c + 1) →
      ∃ i, InColumn engine settings g i c ∧ g.Leads i j) ∧
    (∀ (i : Fin g.size) (c : Nat), InColumn engine settings g i c →
      ∃ d ≤ c, g.Distance i d) ∧
    (g.SingleEntry → ∀ (i : Fin g.size) (c : Nat), InColumn engine settings g i c →
      g.Distance i c) := by
  refine ⟨?_, ?_, ?_, ?_, ?_⟩
  · intro i corner hposition
    rw [ofGraph_eq, position?_turn hg] at hposition
    obtain ⟨c, hslot⟩ := Packing.Slot.corner?_eq_some_iff.mp hposition
    exact ⟨c, ⟨corner, hslot⟩, Packing.run_x hslot⟩
  · intro i c h
    exact h.eq_zero_iff hg
  · intro j c h
    rcases h.origin hg with ⟨hc, -⟩ | ⟨k, i, hc, hi, hleads⟩
    · cases hc
    · cases hc
      exact ⟨i, hi, hleads⟩
  · intro i c h
    exact (h.away hg).exists_distance
  · intro hsingle i c h
    exact ⟨h.away hg, fun k hk => h.le_of_away hg hsingle hk⟩

/-- A cycle without a root, with another turn at its side: the layout starts at the smallest id, and
the turn before it on the cycle stands in the third column, two edges away. -/
theorem columns_follow_edges_cycle :
    let g : Graph :=
      { turns := [⟨"c", "c", .user, "f"⟩, ⟨"a", "a", .bot, "f"⟩, ⟨"b", "b", .user, "f"⟩,
          ⟨"d", "d", .bot, "f"⟩]
        edges := [⟨"a", "b"⟩, ⟨"b", "c"⟩, ⟨"c", "a"⟩, ⟨"x", "a"⟩, ⟨"a", "d"⟩] }
    let settings : LayoutSettings ℚ := ⟨⟨⟨160, 69⟩, 100, 40⟩, ⟨0, 0, 0, none⟩⟩
    g.UniqueIds ∧ g.SingleEntry ∧ g.adjacency.orphans = [] ∧
      ∃ i : Fin g.size, (g.turns.get i).id = "c" ∧ InColumn .basic settings g i 2 ∧
        g.Distance i 2 := by
  intro g settings
  have hg : g.UniqueIds := by
    unfold Graph.UniqueIds
    decide
  have hsingle : g.SingleEntry := by
    unfold Graph.SingleEntry
    decide
  have hposition : (ofGraph .basic settings g).position? "c" = some ⟨520, 40⟩ := by cbv
  have hturn : (⟨"c", "c", .user, "f"⟩ : Turn) ∈ g.turns := List.mem_cons_self
  obtain ⟨i, hi⟩ := List.get_of_mem hturn
  obtain ⟨hcolumn, -, -, -, hdistance⟩ := columns_follow_edges g hg .basic settings
  obtain ⟨c, hc, hx⟩ := hcolumn i ⟨520, 40⟩ (by rw [hi, hposition])
  obtain rfl : c = 2 := by
    have hx : (520 : ℚ) = c * (160 + 100) := hx
    have hc : (c : ℚ) = 2 := by linarith
    exact_mod_cast hc
  exact ⟨hg, hsingle, by decide, i, by rw [hi], hc, hdistance hsingle i 2 hc⟩

end Layout

end DialogChart
