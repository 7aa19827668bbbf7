import DialogChart.Proofs.Layout.Columns
import DialogChart.Proofs.Layout.Extent
import DialogChart.Proofs.Layout.Visits

/-!
# Forests

A graph is a forest, as far as a layout can see, if every turn has at most one incoming edge and
some turn has none.  Turns on a cycle may be there, but nothing leads to them from a root.

What a forest gives is said about its lists of siblings, which are the roots and the children of
each turn: they are without repetitions, and no turn is in two of them (`Adjacency.Forest`).  Two
facts follow.  A sibling is noted in the preorder with its place in its own list
(`Forest.place`), as it is discovered from there and from nowhere else.  And a turn has one depth
only (`Forest.level_unique`), with one turn above it at every smaller depth
(`Forest.ancestor_unique`).
-/

namespace DialogChart

open Packing (siblingsOf)

namespace Adjacency

variable {n : Nat} {adj : Adjacency n} {roots : List (Fin n)}

/-- No list of siblings repeats a turn, and no two of them share one. -/
structure Forest (adj : Adjacency n) (roots : List (Fin n)) : Prop where
  nodup : ∀ owner, (siblingsOf adj roots owner).Nodup
  owner_unique : ∀ {i : Fin n} {owner other : Option (Fin n)}, i ∈ siblingsOf adj roots owner →
    i ∈ siblingsOf adj roots other → owner = other

/-! ### Places in the preorder -/

/-- What holds of the turns on the stack, with their places, and of all children with theirs, holds
of whatever a visit notes. -/
lemma forall_mem_visit {P : Fin n × Nat → Prop}
    (hchild : ∀ i, ∀ entry ∈ (adj.children.get i).zipIdx, P entry) {visited : Vector Bool n}
    {stack : List (Fin n × Nat)} (hstack : ∀ entry ∈ stack, P entry) :
    ∀ entry ∈ adj.visit visited stack, P entry := by
  induction visited, stack using Adjacency.visit.induct adj with
  | case1 visited =>
    rw [Adjacency.visit]
    exact hstack
  | case2 visited a place stack hfree ih =>
    obtain ⟨hfirst, hstack⟩ := List.forall_mem_cons.mp hstack
    rw [Adjacency.visit, dif_pos hfree, List.forall_mem_cons]
    refine ⟨hfirst, ih ?_⟩
    rw [List.forall_mem_append]
    exact ⟨hchild a, hstack⟩
  | case3 visited a place stack hmet ih =>
    rw [Adjacency.visit, dif_neg hmet]
    exact ih (List.forall_mem_cons.mp hstack).2

/-- The place that the preorder notes is a place among some siblings. -/
lemma exists_owner_of_mem_preorder {i : Fin n} {place : Nat}
    (h : (i, place) ∈ adj.preorder roots) :
    ∃ owner, (siblingsOf adj roots owner)[place]? = some i := by
  refine forall_mem_visit (P := fun entry => ∃ owner,
    (siblingsOf adj roots owner)[entry.2]? = some entry.1) ?_ ?_ (i, place) h
  · intro a entry hentry
    exact ⟨some a, List.mem_zipIdx_iff_getElem?.mp hentry⟩
  · intro entry hentry
    exact ⟨none, List.mem_zipIdx_iff_getElem?.mp hentry⟩

/-- In a forest the preorder notes a sibling with its place. -/
lemma Forest.place (hforest : adj.Forest roots) {owner : Option (Fin n)} {k : Nat}
    (hk : k < (siblingsOf adj roots owner).length) {place : Nat}
    (h : ((siblingsOf adj roots owner)[k], place) ∈ adj.preorder roots) : place = k := by
  obtain ⟨other, hother⟩ := exists_owner_of_mem_preorder h
  obtain rfl := hforest.owner_unique (List.getElem_mem hk) (List.mem_of_getElem? hother)
  rw [← List.getElem?_eq_getElem hk] at hother
  exact ((List.getElem?_inj hk (hforest.nodup owner)).mp hother.symm).symm

/-! ### Depths -/

/-- A turn is at a depth below the roots. -/
inductive Level (adj : Adjacency n) (roots : List (Fin n)) : Nat → Fin n → Prop where
  /-- The roots are at the top. -/
  | root {i : Fin n} : i ∈ roots → Level adj roots 0 i
  /-- The children of a turn are one level deeper. -/
  | child {k : Nat} {i j : Fin n} : Level adj roots k i → j ∈ adj.children.get i →
    Level adj roots (k + 1) j

namespace Forest

variable (hforest : adj.Forest roots)
include hforest

/-- A turn has one parent at most. -/
lemma parent_unique {a b j : Fin n} (ha : j ∈ adj.children.get a)
    (hb : j ∈ adj.children.get b) : a = b := by
  have ha : j ∈ siblingsOf adj roots (some a) := ha
  have hb : j ∈ siblingsOf adj roots (some b) := hb
  exact Option.some.inj (hforest.owner_unique ha hb)

/-- A root is no child. -/
lemma root_not_child {r a : Fin n} (hr : r ∈ roots) : r ∉ adj.children.get a := by
  intro ha
  have hr : r ∈ siblingsOf adj roots none := hr
  have ha : r ∈ siblingsOf adj roots (some a) := ha
  cases hforest.owner_unique hr ha

/-- A turn is at one depth only. -/
lemma level_unique {k m : Nat} {j : Fin n} (hk : adj.Level roots k j)
    (hm : adj.Level roots m j) : k = m := by
  induction hk generalizing m with
  | root hr =>
    cases hm with
    | root => rfl
    | child _ hj => exact absurd hj (hforest.root_not_child hr)
  | child _ hj ih =>
    cases hm with
    | root hr => exact absurd hj (hforest.root_not_child hr)
    | child hi hj' =>
      obtain rfl := hforest.parent_unique hj hj'
      rw [ih hi]

end Forest

/-- What can be reached from a turn is the turn itself or lies deeper. -/
lemma Level.descend {k : Nat} {a j : Fin n} (ha : adj.Level roots k a)
    (h : adj.Reached [a] j) : j = a ∨ ∃ m, k < m ∧ adj.Level roots m j := by
  refine h.mem_of_closed (P := fun j => j = a ∨ ∃ m, k < m ∧ adj.Level roots m j) ?_ ?_
  · intro r hr
    exact .inl (List.mem_singleton.mp hr)
  · rintro b c (rfl | ⟨m, hm, hb⟩) hc
    · exact .inr ⟨k + 1, Nat.lt_succ_self k, ha.child hc⟩
    · exact .inr ⟨m + 1, Nat.lt_succ_of_lt hm, hb.child hc⟩

/-- Two turns at one depth from which one turn can be reached are the same. -/
lemma Forest.ancestor_unique (hforest : adj.Forest roots) {k : Nat} {a b j : Fin n}
    (ha : adj.Level roots k a) (hb : adj.Level roots k b) (haj : adj.Reached [a] j)
    (hbj : adj.Reached [b] j) : a = b := by
  obtain ⟨a', ha', haj⟩ := haj
  obtain rfl := List.mem_singleton.mp ha'
  -- Both ways to the turn are followed back, one step at a time.
  induction haj with
  | refl =>
    rcases hb.descend hbj with heq | ⟨m, hm, hlevel⟩
    · exact heq
    · exact absurd (hforest.level_unique ha hlevel) (Nat.ne_of_lt hm)
  | @tail c j hac hcj ih =>
    rcases hbj.mem_or_child with hj | ⟨d, hbd, hdj⟩
    · obtain rfl := List.mem_singleton.mp hj
      have hc : ∃ m, k ≤ m ∧ adj.Level roots m c := by
        rcases ha.descend ⟨a', List.mem_singleton_self a', hac⟩ with rfl | ⟨m, hm, hlevel⟩
        · exact ⟨k, Nat.le_refl k, ha⟩
        · exact ⟨m, Nat.le_of_lt hm, hlevel⟩
      obtain ⟨m, hm, hlevel⟩ := hc
      have heq := hforest.level_unique hb (hlevel.child hcj)
      omega
    · obtain rfl := hforest.parent_unique hcj hdj
      exact ih hbd

end Adjacency

/-! ### Graphs -/

namespace Graph

/-- Every turn has at most one incoming edge, counted with multiplicity among the edges between
turns of the graph, and some turn has none. -/
structure Forest (g : Graph) : Prop where
  single : g.SingleEntry
  entry : ∃ i : Fin g.size, ∀ arc ∈ g.arcs, arc.2 ≠ i

variable {g : Graph}

/-- Where there is at most one incoming edge, no child is repeated. -/
lemma SingleEntry.nodup_children (h : g.SingleEntry) (i : Fin g.size) :
    (g.adjacency.children.get i).Nodup := by
  rw [List.nodup_iff_count_le_one]
  intro j
  refine le_trans ?_ (h j)
  unfold adjacency Adjacency.ofArcs
  rw [get_ofFn, List.count, List.countP_filterMap, ← List.countP_eq_length_filter]
  refine List.countP_mono_left fun arc _ harc => ?_
  obtain ⟨a, b⟩ := arc
  by_cases hai : a = i
  · simpa [hai] using harc
  · simp [hai] at harc

/-- The roots of a forest are the turns without an incoming edge. -/
lemma Forest.roots_eq (hg : g.Forest) : g.roots g.adjacency = g.adjacency.orphans := by
  obtain ⟨i, hi⟩ := hg.entry
  have hparents : g.adjacency.parents.get i = [] := by
    rw [List.eq_nil_iff_forall_not_mem]
    intro a ha
    exact hi (a, i) (Adjacency.mem_parents_ofArcs.mp ha) rfl
  exact roots_of_orphans_ne_nil (List.ne_nil_of_mem (Adjacency.mem_orphans.mpr hparents))

/-- The siblings of a forest are those of a forest of turns. -/
lemma Forest.adjacency (hg : g.Forest) :
    g.adjacency.Forest (g.roots g.adjacency) where
  nodup := by
    intro owner
    cases owner with
    | none => exact g.nodup_roots
    | some i => exact hg.single.nodup_children i
  owner_unique := by
    have hroot : ∀ {r a : Fin g.size}, r ∈ g.roots g.adjacency →
        r ∉ g.adjacency.children.get a := by
      intro r a hr ha
      rw [hg.roots_eq, Adjacency.mem_orphans] at hr
      have hparent : a ∈ g.adjacency.parents.get r :=
        Adjacency.mem_parents_ofArcs.mpr (Adjacency.mem_children_ofArcs.mp ha)
      rw [hr] at hparent
      cases hparent
    intro j owner other howner hother
    cases owner with
    | none =>
      cases other with
      | none => rfl
      | some b => exact absurd hother (hroot howner)
    | some a =>
      cases other with
      | none => exact absurd howner (hroot hother)
      | some b =>
        rw [hg.single.source_unique (Adjacency.mem_children_ofArcs.mp howner)
          (Adjacency.mem_children_ofArcs.mp hother)]

end Graph

end DialogChart
