import DialogChart.Proofs.Coordinate
import DialogChart.Proofs.Layout.Embedding
import DialogChart.Proofs.Layout.Forest
import DialogChart.Proofs.Layout.Passes
import DialogChart.Proofs.Number.CountOrder

/-!
# Relaxations without passes

Before the first pass the rank of a turn is its place among the siblings with which it was
discovered.  In a forest these are the siblings with which it is stacked, so every list of siblings
comes in the order of its ranks already (`Relaxation.ascending_start`), and sorting leaves it as it
is.  A run depends on the ranks only through the lists that it sorts (`Packing.run_congr`), and so a
relaxation without passes makes no difference (`frozen_relaxation_is_basic`).

Nothing is asked of the arithmetic but that counts keep their order, which they do as singles.
-/

namespace DialogChart

namespace Packing

variable {α : Type} {n : Nat} [Coordinate α] {adj : Adjacency n} {roots : List (Fin n)}
  {ranks other : Option (Vector (Option α) n)} {spacing : Spacing α}

/-! ### Siblings in their order -/

/-- The siblings come in the order of their ranks. -/
def Ascending (ranks : Vector (Option α) n) (siblings : List (Fin n)) : Prop :=
  siblings.Pairwise fun i j =>
    Coordinate.precedes ((ranks.get i).getD Coordinate.unranked)
      ((ranks.get j).getD Coordinate.unranked) = true

/-- Siblings that come in the order of their ranks are left as they are. -/
lemma Ascending.ordered_eq {ranks : Vector (Option α) n} {siblings : List (Fin n)}
    (h : Ascending ranks siblings) : ordered (some ranks) siblings = siblings :=
  List.mergeSort_of_pairwise h

omit [Coordinate α] in
/-- The siblings below a turn that is reached, and the roots, are reached. -/
lemma reached_siblings {owner : Option (Fin n)} (howner : ∀ i ∈ owner, adj.Reached roots i)
    {j : Fin n} (hj : j ∈ siblingsOf adj roots owner) : adj.Reached roots j := by
  cases owner with
  | none => exact .of_mem hj
  | some i => exact (howner i rfl).child hj

/-! ### Runs that sort alike -/

/-- Siblings are stacked in the same way with other ranks, if these sort all children below them
alike. -/
lemma Stacks.reorder
    (hsort : ∀ i, adj.Reached roots i →
      ordered ranks (adj.children.get i) = ordered other (adj.children.get i))
    {slots last : Vector (Slot α) n} {siblings : List (Fin n)} {above : α} {column : Nat}
    {height total : α}
    (h : Stacks adj ranks spacing slots siblings above column height last total)
    (hreached : ∀ i ∈ siblings, adj.Reached roots i) :
    Stacks adj other spacing slots siblings above column height last total := by
  induction h with
  | done => exact .done _ _ _ _
  | skip hmet _ ih =>
    rw [List.forall_mem_cons] at hreached
    exact .skip hmet (ih hreached.2)
  | put hfree _ _ ihInner ihRest =>
    rw [List.forall_mem_cons] at hreached
    have hinner := ihInner fun j hj => hreached.1.child (mem_ordered.mp hj)
    rw [hsort _ hreached.1] at hinner
    exact .put hfree hinner (ihRest hreached.2)

/-- Ranks that sort all siblings alike give the same run. -/
lemma run_congr
    (hsort : ∀ owner : Option (Fin n), (∀ i ∈ owner, adj.Reached roots i) →
      ordered ranks (siblingsOf adj roots owner) = ordered other (siblingsOf adj roots owner)) :
    run adj roots ranks spacing = run adj roots other spacing := by
  have hroots : ordered ranks roots = ordered other roots := hsort none (by simp)
  have hchildren : ∀ i, adj.Reached roots i →
      ordered ranks (adj.children.get i) = ordered other (adj.children.get i) := by
    intro i hi
    exact hsort (some i) (by simpa using hi)
  have hstack := (stacks_stack adj ranks spacing (.replicate n .free) (ordered ranks roots)
    0 0 0).reorder hchildren fun r hr => .of_mem (mem_ordered.mp hr)
  rw [run_eq_stack, run_eq_stack, ← hroots, hstack.stack_eq]

end Packing

/-! ### The first ranks of siblings -/

namespace Relaxation

open Packing (siblingsOf Ascending reached_siblings)

variable {α : Type} {n : Nat} [Coordinate α] {adj : Adjacency n} {roots : List (Fin n)}
  {owner : Option (Fin n)}

/-- In a forest the first rank of a turn is its place among its siblings. -/
lemma start_sibling (hforest : adj.Forest roots) (howner : ∀ i ∈ owner, adj.Reached roots i)
    {k : Nat} (hk : k < (siblingsOf adj roots owner).length) :
    (start (adj.preorder roots) : Ranks α n).get (siblingsOf adj roots owner)[k] =
      some (Coordinate.ofCount k) := by
  have hsome := (isSome_start (α := α) (adj.preorder roots) _).mpr
    ((Adjacency.mem_preorder_iff roots _).mpr (reached_siblings howner (List.getElem_mem hk)))
  obtain ⟨rank, hrank⟩ := Option.isSome_iff_exists.mp hsome
  obtain ⟨place, hplace, rfl⟩ := exists_place_of_start hrank
  rw [hrank, hforest.place hk hplace]

/-- Counts keep their order. -/
def CountsAscend (α : Type) [Coordinate α] : Prop :=
  ∀ j k : Nat, j ≤ k →
    Coordinate.precedes (Coordinate.ofCount j : α) (Coordinate.ofCount k) = true

/-- Where counts keep their order, the siblings of a forest come in the order of their first
ranks. -/
lemma ascending_start (hcounts : CountsAscend α) (hforest : adj.Forest roots)
    (howner : ∀ i ∈ owner, adj.Reached roots i) :
    Ascending (start (adj.preorder roots) : Ranks α n) (siblingsOf adj roots owner) := by
  unfold Ascending
  rw [List.pairwise_iff_getElem]
  intro j k hj hk hjk
  rw [start_sibling hforest howner hj, start_sibling hforest howner hk]
  exact hcounts j k (Nat.le_of_lt hjk)

/-- Without passes the ranks are the first ones. -/
lemma run_frozen {tension : Tension α} (h : tension.iterations = 0) (g : Graph)
    (adj : Adjacency g.size) (roots : List (Fin g.size)) :
    (run tension g adj roots).ranks = start (adj.preorder roots) := by
  unfold run
  rw [h]
  rfl

end Relaxation

/-! ### Layouts -/

namespace Layout

open Packing (siblingsOf Ascending)
open Relaxation (CountsAscend)

section

variable {α : Type} [Coordinate α] {g : Graph} {settings : LayoutSettings α}

/-- Without passes all siblings of a forest come in the order of their ranks. -/
lemma ascending_frozen (hcounts : CountsAscend α) (hg : g.Forest)
    (hfrozen : settings.tension.iterations = 0) {owner : Option (Fin g.size)}
    (howner : ∀ i ∈ owner, g.adjacency.Reached (g.roots g.adjacency) i) :
    Ascending (Relaxation.run settings.tension g g.adjacency (g.roots g.adjacency)).ranks
      (siblingsOf g.adjacency (g.roots g.adjacency) owner) := by
  rw [Relaxation.run_frozen hfrozen]
  exact Relaxation.ascending_start hcounts hg.adjacency howner

/-- Without passes the relaxed layout of a forest is the basic one. -/
lemma ofGraph_frozen (hcounts : CountsAscend α) (hg : g.Forest)
    (hfrozen : settings.tension.iterations = 0) (other : Tension α) :
    ofGraph .relaxed settings g = ofGraph .basic ⟨settings.spacing, other⟩ g := by
  rw [ofGraph_eq, ofGraph_eq]
  refine congrArg (fun slots => ofSlots g slots settings.spacing.nodeSize) ?_
  refine Packing.run_congr fun owner howner => ?_
  exact (ascending_frozen hcounts hg hfrozen howner).ordered_eq

end

/-- A frozen relaxation.  Let every turn have at most one incoming edge, and some turn none.  With
no passes at all, and whatever the stiffnesses and the threshold, the relaxed layout is the basic
one, in every arithmetic in which counts keep their order.  Sorting has nothing to do: the roots,
and the children of every turn that can be reached, come in the order of their ranks.  Singles are
such an arithmetic. -/
theorem frozen_relaxation_is_basic (g : Graph) (hg : g.Forest) :
    (∀ (α : Type) [Coordinate α], CountsAscend α →
      ∀ (settings : LayoutSettings α) (other : Tension α), settings.tension.iterations = 0 →
        ofGraph .relaxed settings g = ofGraph .basic ⟨settings.spacing, other⟩ g ∧
        ∀ owner : Option (Fin g.size),
          (∀ i ∈ owner, g.adjacency.Reached (g.roots g.adjacency) i) →
          Ascending (Relaxation.run settings.tension g g.adjacency (g.roots g.adjacency)).ranks
            (siblingsOf g.adjacency (g.roots g.adjacency) owner)) ∧
    ∀ (settings : LayoutSettings Float32) (other : Tension Float32),
      settings.tension.iterations = 0 →
      ofGraph .relaxed settings g = ofGraph .basic ⟨settings.spacing, other⟩ g := by
  refine ⟨?_, ?_⟩
  · intro α _ hcounts settings other hfrozen
    exact ⟨ofGraph_frozen hcounts hg hfrozen other,
      fun _ howner => ascending_frozen hcounts hg hfrozen howner⟩
  · intro settings other hfrozen
    exact ofGraph_frozen (fun _ _ => Number.precedes_ofCount) hg hfrozen other

/-- A forest whose children do not come in the order of the turns, with a cycle that no root leads
to, an edge to nowhere and two turns of one id: the layouts agree over singles and over fractions,
and the first child is the one that the edges name first. -/
theorem frozen_relaxation_is_basic_aside :
    let g : Graph :=
      { turns := [⟨"a", "a", .bot, "f"⟩, ⟨"b", "b", .user, "f"⟩, ⟨"c", "c", .user, "f"⟩,
          ⟨"x", "x", .bot, "f"⟩, ⟨"y", "y", .user, "f"⟩, ⟨"b", "b", .bot, "f"⟩]
        edges := [⟨"a", "c"⟩, ⟨"a", "b"⟩, ⟨"x", "y"⟩, ⟨"y", "x"⟩, ⟨"z", "c"⟩] }
    let spacing : Spacing ℚ := ⟨⟨160, 69⟩, 100, 40⟩
    let tension : Tension ℚ := ⟨-3, 7, 0, some 0⟩
    g.Forest ∧
      ofGraph .relaxed ⟨LayoutSettings.default.spacing, ⟨1, 1, 0, none⟩⟩ g =
        ofGraph .basic LayoutSettings.default g ∧
      ofGraph .relaxed ⟨spacing, tension⟩ g = ofGraph .basic ⟨spacing, tension⟩ g ∧
      (ofGraph .relaxed ⟨spacing, tension⟩ g).position? "c" = some ⟨260, 40⟩ := by
  intro g spacing tension
  have hg : g.Forest := by
    refine ⟨?_, ⟨0, by decide⟩, by decide⟩
    unfold Graph.SingleEntry
    decide
  have hcounts : CountsAscend ℚ := by
    intro j k hjk
    exact decide_eq_true (Nat.cast_le.mpr hjk)
  obtain ⟨hexact, hsingle⟩ := frozen_relaxation_is_basic g hg
  have hrat := (hexact ℚ hcounts ⟨spacing, tension⟩ tension rfl).1
  have hposition : (ofGraph .basic ⟨spacing, tension⟩ g).position? "c" = some ⟨260, 40⟩ := by cbv
  exact ⟨hg, hsingle _ _ rfl, hrat, hrat ▸ hposition⟩

end Layout

end DialogChart
