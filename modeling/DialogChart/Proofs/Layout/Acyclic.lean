import DialogChart.Proofs.Layout.Coverage
import Mathlib.Data.Fintype.EquivFin

/-!
# Acyclic graphs are laid out completely

A layout shows what can be reached from the roots.  In a graph without cycles this is everything:
going from a turn to one of its parents, again and again, must come to an end, and it can only end
at a turn without parents, which is a root.  Edges that name an unknown id do not count on the way,
neither for the cycles nor for the parents.

The main statement is `acyclic_laid_out`.
-/

namespace DialogChart

namespace Graph

/-- The edges between turns of the graph form no cycle. -/
def Acyclic (g : Graph) : Prop :=
  ∀ i : Fin g.size, ¬ Relation.TransGen g.Leads i i

variable {g : Graph}

/-- Without cycles there is no endless way from turn to parent. -/
lemma Acyclic.wellFounded (h : g.Acyclic) : WellFounded g.Leads := by
  have hirrefl : Std.Irrefl (Relation.TransGen g.Leads) := ⟨h⟩
  have hclosure : WellFounded (Relation.TransGen g.Leads) :=
    Finite.wellFounded_of_trans_of_irrefl _
  exact Subrelation.wf Relation.TransGen.single hclosure

/-- A turn without parents is a root. -/
lemma mem_roots_of_parents_eq_nil {adj : Adjacency g.size} {i : Fin g.size}
    (h : adj.parents.get i = []) : i ∈ g.roots adj := by
  have horphan : i ∈ adj.orphans := Adjacency.mem_orphans.mpr h
  rw [roots_of_orphans_ne_nil (List.ne_nil_of_mem horphan)]
  exact horphan

/-- Without cycles every turn can be reached. -/
lemma Acyclic.reachable (h : g.Acyclic) (hg : g.UniqueIds) (i : Fin g.size) :
    g.Reachable i := by
  induction i using h.wellFounded.induction with
  | _ i ih =>
    by_cases hparents : g.adjacency.parents.get i = []
    · exact ⟨i, mem_roots_of_parents_eq_nil hparents, .refl⟩
    · obtain ⟨p, hp⟩ := List.exists_mem_of_ne_nil _ hparents
      have hleads : g.Leads p i := hg.mem_parents_iff.mp hp
      obtain ⟨r, hr, hrp⟩ := ih p hleads
      exact ⟨r, hr, hrp.tail hleads⟩

end Graph

namespace Layout

variable {α : Type} [Coordinate α]

/-- If every turn can be reached, all turns are placed. -/
lemma placed_eq_finRange {g : Graph} (hg : g.UniqueIds) (h : ∀ i, g.Reachable i)
    (engine : Engine) (settings : LayoutSettings α) :
    placed (slots engine settings g) = List.finRange g.size := by
  refine List.filter_eq_self.mpr fun i hi => ?_
  exact (List.mem_filter.mp ((mem_placed_iff hg engine settings i).mpr (h i))).2

/-- A graph without cycles is laid out completely.  If the ids are distinct, and the edges between
turns of the graph form no cycle, then the layout lists the ids of all turns, in the order of the
turns and each of them once, and every turn has a position.  This holds for both engines and all
settings. -/
theorem acyclic_laid_out (g : Graph) (hg : g.UniqueIds) (hacyclic : g.Acyclic) (engine : Engine)
    (settings : LayoutSettings α) :
    (ofGraph engine settings g).positions.names = g.turns.map (·.id) ∧
      (ofGraph engine settings g).positions.names.Nodup ∧
      ∀ t ∈ g.turns, ∃ corner, (ofGraph engine settings g).position? t.id = some corner := by
  have hreachable : ∀ i, g.Reachable i := fun i => hacyclic.reachable hg i
  have hplaced := placed_eq_finRange hg hreachable engine settings
  refine ⟨?_, (ofGraph engine settings g).positions.nodup, ?_⟩
  · rw [ofGraph_eq, names_ofSlots hg, hplaced, map_id_finRange]
  · intro t ht
    obtain ⟨i, rfl⟩ := List.get_of_mem ht
    have hsome : ((slots engine settings g).get i).corner?.isSome = true :=
      (isSome_corner?_iff engine settings i).mpr ((hg.reached_iff i).mpr (hreachable i))
    rw [ofGraph_eq, position?_turn hg]
    exact Option.isSome_iff_exists.mp hsome

/-- Two turns that share a child, an edge drawn twice, and a turn whose only incoming edge comes
from nowhere: all of them are laid out. -/
theorem acyclic_laid_out_shared :
    let g : Graph :=
      { turns := [⟨"d", "d", .bot, "f"⟩, ⟨"a", "a", .user, "f"⟩, ⟨"c", "c", .bot, "f"⟩,
          ⟨"b", "b", .user, "h"⟩]
        edges := [⟨"ghost", "d"⟩, ⟨"d", "b"⟩, ⟨"d", "a"⟩, ⟨"a", "c"⟩, ⟨"c", "b"⟩, ⟨"a", "c"⟩,
          ⟨"b", "ghost"⟩] }
    g.UniqueIds ∧ g.Acyclic ∧
      (ofGraph .relaxed LayoutSettings.default g).positions.names = ["d", "a", "c", "b"] := by
  intro g
  have hg : g.UniqueIds := by
    unfold Graph.UniqueIds
    decide
  have hforward : ∀ i j, g.Leads i j → i < j := by
    unfold Graph.Leads
    decide
  have hacyclic : g.Acyclic := by
    intro i hcycle
    have hlt : Relation.TransGen (· < ·) i i := Relation.TransGen.mono hforward _ _ hcycle
    rw [Relation.transGen_eq_self] at hlt
    exact lt_irrefl i hlt
  exact ⟨hg, hacyclic, (acyclic_laid_out g hg hacyclic .relaxed LayoutSettings.default).1⟩

end Layout

end DialogChart
