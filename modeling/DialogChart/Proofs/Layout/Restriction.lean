import DialogChart.Proofs.Coordinate
import DialogChart.Proofs.Layout.Embedding
import Mathlib

/-!
# What is not laid out does not matter

A turn that cannot be reached from the roots has no position.  It may still have edges to turns
that have one, share a flow with them, and keep them from being roots.  None of this shows: the
layout stays the same when all such turns are left out, together with their edges
(`ofGraph_placedIn`).

`Graph.restrict` leaves turns out.  The turns that are left get new numbers, which are a `Part` of
the old ones, and the children and parents of the new graph are read off the old arcs
(`Keeps.adjacency`).  If exactly the turns that can be reached are kept, the roots stay the same
(`Keeps.roots`).  Where there were roots, a turn that is kept has lost all its parents only if it
had none.  Where a turn stood in for missing roots, it may have become a real root; but no other
turn has, and if all turns still have parents, its id is still the smallest one.
-/

namespace DialogChart

namespace Graph

/-! ### Leaving out turns -/

/-- A graph without the turns that are not kept, and without the edges that name an id of no turn
that is kept. -/
def restrict (g : Graph) (keep : Turn → Bool) : Graph where
  turns := g.turns.filter keep
  edges := g.edges.filter fun e =>
    (g.turns.filter keep).any (·.id = e.source) && (g.turns.filter keep).any (·.id = e.target)

/-- The turns that are kept are the given part of the turns of a graph. -/
structure Keeps (g : Graph) (keep : Turn → Bool) (part : Part (g.restrict keep).size g.size) :
    Prop where
  turn : ∀ i, (g.restrict keep).turns.get i = g.turns.get (part.embed i)
  isSome_back : ∀ j, (part.back j).isSome = keep (g.turns.get j)

variable {g : Graph} {keep : Turn → Bool} {part : Part (g.restrict keep).size g.size}

/-- Leaving out turns keeps the ids distinct. -/
lemma UniqueIds.restrict (hg : g.UniqueIds) (keep : Turn → Bool) :
    (g.restrict keep).UniqueIds :=
  (List.filter_sublist.map _).nodup hg

/-- The turns that are kept are a part of the turns of a graph. -/
lemma UniqueIds.exists_keeps (hg : g.UniqueIds) (keep : Turn → Bool) :
    ∃ part, g.Keeps keep part := by
  have hsublist : (g.restrict keep).turns.Sublist g.turns := List.filter_sublist
  obtain ⟨f, hf⟩ := List.sublist_iff_exists_fin_orderEmbedding_get_eq.mp hsublist
  have hback : ∀ {i : Fin (g.restrict keep).size} {j : Fin g.size},
      (g.restrict keep).index? (g.turns.get j).id = some i ↔ f i = j := by
    intro i j
    rw [(hg.restrict keep).index?_eq_some_iff, hf]
    constructor
    · exact fun hid => hg.id_inj hid
    · rintro rfl
      rfl
  refine ⟨⟨f, fun j => (g.restrict keep).index? (g.turns.get j).id, hback⟩, hf, ?_⟩
  intro j
  rw [Bool.eq_iff_iff, Option.isSome_iff_exists]
  constructor
  · rintro ⟨i, hi⟩
    obtain rfl := hback.mp hi
    have hmem : (g.restrict keep).turns.get i ∈ g.turns.filter keep := List.get_mem _ i
    rw [hf] at hmem
    exact (List.mem_filter.mp hmem).2
  · intro hkeep
    have hmem : g.turns.get j ∈ (g.restrict keep).turns :=
      List.mem_filter.mpr ⟨List.get_mem _ j, hkeep⟩
    obtain ⟨i, hi⟩ := List.get_of_mem hmem
    rw [hf] at hi
    exact ⟨i, hback.mpr (hg.id_inj (congrArg Turn.id hi))⟩

/-! ### Arcs, children and parents -/

/-- An id that is known after turns were left out belongs to a turn that was kept. -/
lemma Keeps.index? (h : g.Keeps keep part) (hg : g.UniqueIds) (id : String) :
    (g.restrict keep).index? id = (g.index? id).bind part.back := by
  ext i
  rw [(hg.restrict keep).index?_eq_some_iff, h.turn, Option.bind_eq_some_iff]
  constructor
  · intro hid
    exact ⟨part.embed i, hg.index?_eq_some_iff.mpr hid, part.back_embed i⟩
  · rintro ⟨j, hj, hback⟩
    obtain rfl := part.back_eq_some_iff.mp hback
    exact id_of_index? hj

/-- Both ends of an arc, numbered anew. -/
def backArc {m n : Nat} (part : Part m n) (arc : Fin n × Fin n) : Option (Fin m × Fin m) :=
  (part.back arc.1).bind fun i => (part.back arc.2).map fun j => (i, j)

/-- An edge has ends where both its ids are known. -/
lemma ends?_eq_bind (g : Graph) (e : Edge) :
    g.ends? e = (g.index? e.source).bind fun i => (g.index? e.target).map fun j => (i, j) := by
  unfold ends?
  cases g.index? e.source <;> cases g.index? e.target <;> rfl

/-- The edges that are left are those that have ends. -/
lemma edges_restrict (g : Graph) (keep : Turn → Bool) :
    (g.restrict keep).edges =
      g.edges.filter fun e => ((g.restrict keep).ends? e).isSome := by
  have hindex : ∀ id, ((g.restrict keep).index? id).isSome =
      (g.turns.filter keep).any (·.id = id) := by
    intro id
    exact Bool.eq_iff_iff.mpr (by rw [Graph.index?, List.isSome_findFinIdx?]; rfl)
  refine List.filter_congr fun e _ => ?_
  rw [← hindex, ← hindex, ends?_eq_bind]
  cases (g.restrict keep).index? e.source <;> cases (g.restrict keep).index? e.target <;> rfl

/-- The arcs that are left are the old arcs between turns that were kept. -/
lemma Keeps.arcs (h : g.Keeps keep part) (hg : g.UniqueIds) :
    (g.restrict keep).arcs = g.arcs.filterMap (backArc part) := by
  have hends : ∀ e, (g.restrict keep).ends? e = (g.ends? e).bind (backArc part) := by
    intro e
    rw [ends?_eq_bind, ends?_eq_bind, h.index? hg, h.index? hg]
    cases g.index? e.source with
    | none => rfl
    | some a =>
      cases g.index? e.target with
      | none => cases hback : part.back a <;> simp [hback]
      | some b => rfl
  unfold Graph.arcs
  rw [edges_restrict, List.filterMap_filter, List.filterMap_filterMap]
  refine List.filterMap_congr fun e _ => ?_
  rw [← hends]
  cases (g.restrict keep).ends? e <;> rfl

/-- The other end of an arc is numbered anew where the arc has the one end that is looked for. -/
lemma bind_back_ite {m n : Nat} (part : Part m n) (a b : Fin n) (i : Fin m) :
    (if a = part.embed i then some b else none).bind part.back =
      if part.back a = some i then part.back b else none := by
  have hback : a = part.embed i ↔ part.back a = some i := by
    rw [part.back_eq_some_iff, eq_comm]
  simp only [hback]
  split <;> rfl

/-- If the children of turns that are kept are kept, turns that are kept are neighbours as they
were before. -/
lemma Keeps.adjacency (h : g.Keeps keep part) (hg : g.UniqueIds)
    (hclosed : ∀ i, ∀ j ∈ g.adjacency.children.get (part.embed i), (part.back j).isSome = true) :
    (g.restrict keep).adjacency.Embeds part g.adjacency := by
  constructor
  · intro i
    have hchildren : (g.adjacency.children.get (part.embed i)).filterMap part.back =
        (g.restrict keep).adjacency.children.get i := by
      unfold Graph.adjacency Adjacency.ofArcs
      rw [get_ofFn, get_ofFn, h.arcs hg, List.filterMap_filterMap, List.filterMap_filterMap]
      refine List.filterMap_congr fun arc _ => ?_
      simp only [bind_back_ite, backArc]
      cases part.back arc.1 <;> cases part.back arc.2 <;> simp
    rw [← hchildren, part.map_embed_filterMap_back (hclosed i)]
  · intro i
    unfold Graph.adjacency Adjacency.ofArcs
    rw [get_ofFn, get_ofFn, h.arcs hg, List.filterMap_filterMap, List.filterMap_filterMap]
    refine List.filterMap_congr fun arc _ => ?_
    simp only [bind_back_ite, backArc]
    cases part.back arc.1 <;> cases part.back arc.2 <;> simp

/-! ### Roots -/

section Roots

variable (h : g.Keeps keep part) (hg : g.UniqueIds)
  (hreach : ∀ j, (part.back j).isSome = true ↔ g.adjacency.Reached (g.roots g.adjacency) j)

include h hg hreach

/-- If the turns that can be reached are kept, they are neighbours as they were before. -/
lemma Keeps.embeds : (g.restrict keep).adjacency.Embeds part g.adjacency := by
  refine h.adjacency hg fun i j hj => ?_
  have hi := (hreach _).mp (part.isSome_back_embed i)
  exact (hreach j).mpr (hi.child hj)

/-- A turn that is kept was a root, or it still has a parent. -/
lemma Keeps.mem_roots_or_parents_ne_nil (i : Fin (g.restrict keep).size) :
    part.embed i ∈ g.roots g.adjacency ∨ (g.restrict keep).adjacency.parents.get i ≠ [] := by
  have hi := (hreach _).mp (part.isSome_back_embed i)
  rcases hi.mem_or_child with hroot | ⟨a, ha, hchild⟩
  · exact .inl hroot
  · refine .inr ?_
    obtain ⟨b, hb⟩ := Option.isSome_iff_exists.mp ((hreach a).mpr ha)
    have hparent : a ∈ g.adjacency.parents.get (part.embed i) := by
      rw [hg.mem_parents_iff, ← hg.mem_children_iff]
      exact hchild
    rw [← (h.embeds hg hreach).parents]
    exact List.ne_nil_of_mem (List.mem_filterMap.mpr ⟨a, hparent, hb⟩)

/-- Where there are turns without parents, the same turns have no parents afterwards. -/
lemma Keeps.orphans (horphans : g.adjacency.orphans ≠ []) :
    (g.restrict keep).adjacency.orphans = g.adjacency.orphans.filterMap part.back := by
  have hroots := roots_of_orphans_ne_nil horphans
  unfold Adjacency.orphans
  rw [part.filterMap_back_filter (q := fun i =>
    ((g.restrict keep).adjacency.parents.get i).isEmpty), part.filterMap_back_finRange]
  intro i
  rw [Bool.eq_iff_iff, List.isEmpty_iff, List.isEmpty_iff]
  constructor
  · intro hnone
    rw [← (h.embeds hg hreach).parents, hnone]
    rfl
  · intro hnone
    have hroot := (h.mem_roots_or_parents_ne_nil hg hreach i).resolve_right (not_not_intro hnone)
    rw [hroots] at hroot
    exact Adjacency.mem_orphans.mp hroot

/-- Where the turn with the smallest id stands in for the roots, it is the root afterwards: as the
only turn that may have lost its parents, or as the turn with the smallest id. -/
lemma Keeps.roots_of_orphans_eq_nil (horphans : g.adjacency.orphans = [])
    {r : Fin (g.restrict keep).size} (hr : g.smallest? = some (part.embed r)) :
    (g.restrict keep).roots (g.restrict keep).adjacency = [r] := by
  have hroots : g.roots g.adjacency = [part.embed r] := by
    rw [Graph.roots_of_orphans_eq_nil horphans, hr]
    rfl
  by_cases hlost : (g.restrict keep).adjacency.orphans = []
  · rw [Graph.roots_of_orphans_eq_nil hlost]
    obtain ⟨s, hs⟩ := Option.ne_none_iff_exists'.mp (smallest?_ne_none (Fin.pos r))
    have hle := smallest?_le hs r
    rw [h.turn, h.turn] at hle
    have hid := le_antisymm hle (smallest?_le hr (part.embed s))
    rw [hs, part.embed.injective (hg.id_inj hid)]
    rfl
  · rw [roots_of_orphans_ne_nil hlost]
    have honly : ∀ i ∈ (g.restrict keep).adjacency.orphans, i = r := by
      intro i hi
      have hroot := (h.mem_roots_or_parents_ne_nil hg hreach i).resolve_right
        (not_not_intro (Adjacency.mem_orphans.mp hi))
      rw [hroots, List.mem_singleton] at hroot
      exact part.embed.injective hroot
    have hnodup : (g.restrict keep).adjacency.orphans.Nodup :=
      (List.nodup_finRange _).filter _
    obtain ⟨i, hi⟩ := List.exists_mem_of_ne_nil _ hlost
    obtain rfl := honly i hi
    refine List.perm_singleton.mp
      ((List.perm_ext_iff_of_nodup hnodup (List.nodup_singleton i)).mpr fun j => ?_)
    rw [List.mem_singleton]
    exact ⟨honly j, fun hj => hj ▸ hi⟩

/-- If the turns that can be reached are kept, the roots are those that there were before. -/
lemma Keeps.roots :
    ((g.restrict keep).roots (g.restrict keep).adjacency).map part.embed =
      g.roots g.adjacency := by
  have hkept : ∀ r ∈ g.roots g.adjacency, (part.back r).isSome = true :=
    fun r hr => (hreach r).mpr (.of_mem hr)
  rcases Nat.eq_zero_or_pos g.size with hsize | hsize
  · have hnil : ∀ l : List (Fin g.size), l = [] := by
      intro l
      exact List.eq_nil_iff_forall_not_mem.mpr fun i _ => absurd i.isLt (by omega)
    rw [hnil (g.roots g.adjacency)]
    exact hnil _
  by_cases horphans : g.adjacency.orphans = []
  · obtain ⟨a, ha⟩ := Option.ne_none_iff_exists'.mp (smallest?_ne_none hsize)
    have hroots : g.roots g.adjacency = [a] := by
      rw [Graph.roots_of_orphans_eq_nil horphans, ha]
      rfl
    obtain ⟨r, hr⟩ := Option.isSome_iff_exists.mp (hkept a (by rw [hroots]; simp))
    obtain rfl := part.back_eq_some_iff.mp hr
    rw [h.roots_of_orphans_eq_nil hg hreach horphans ha, hroots]
    rfl
  · have hroots := roots_of_orphans_ne_nil horphans
    rw [hroots] at hkept
    have hmap := part.map_embed_filterMap_back hkept
    rw [← h.orphans hg hreach horphans] at hmap
    have hne : (g.restrict keep).adjacency.orphans ≠ [] := by
      intro hnil
      rw [hnil] at hmap
      exact horphans hmap.symm
    rw [roots_of_orphans_ne_nil hne, hmap, hroots]

end Roots

/-- A graph without the turns that have no position in a layout, and without the edges that name
an id of no turn that is left. -/
def placedIn {α : Type} (g : Graph) (layout : Layout α) : Graph :=
  g.restrict fun turn => (layout.position? turn.id).isSome

end Graph

/-! ### Layouts -/

namespace Layout

variable {α : Type} [Coordinate α] {g : Graph}

/-- A turn has a position exactly if it can be reached. -/
lemma isSome_position?_iff (hg : g.UniqueIds) (engine : Engine) (settings : LayoutSettings α)
    (i : Fin g.size) :
    ((ofGraph engine settings g).position? (g.turns.get i).id).isSome = true ↔
      g.adjacency.Reached (g.roots g.adjacency) i := by
  rw [ofGraph_eq, position?_turn hg, isSome_corner?_iff]

section Kept

variable {keep : Turn → Bool} {part : Part (g.restrict keep).size g.size}
  (h : g.Keeps keep part) (hg : g.UniqueIds)
  (hreach : ∀ j, (part.back j).isSome = true ↔ g.adjacency.Reached (g.roots g.adjacency) j)

include h hg hreach

/-- Turns that are kept are placed in the slots in which they were placed before. -/
lemma slots_agree (engine : Engine) (settings : LayoutSettings α) :
    part.Agrees (slots engine settings (g.restrict keep)) (slots engine settings g) := by
  have hadj := h.embeds hg hreach
  have hroots := h.roots hg hreach
  have hsort : Packing.SortsAlike part (ranks engine settings (g.restrict keep))
      (ranks engine settings g) := by
    cases engine with
    | basic => exact Packing.sortsAlike_none part
    | relaxed =>
      refine Packing.sortsAlike_some ?_
      rw [← hroots]
      refine Relaxation.run_covers hadj (fun i => ?_) settings.tension _
      rw [h.turn]
  unfold slots
  rw [← hroots]
  exact Packing.run_agrees hadj hsort _ _

/-- Where the turns that can be reached are kept, the same positions are listed. -/
lemma entries_restrict (engine : Engine) (settings : LayoutSettings α) :
    (ofGraph engine settings (g.restrict keep)).positions.entries =
      (ofGraph engine settings g).positions.entries := by
  have hagree := slots_agree h hg hreach engine settings
  rw [ofGraph_eq, ofGraph_eq, entries_eq (hg.restrict keep), entries_eq hg,
    ← part.filterMap_back_finRange, List.filterMap_filterMap]
  refine List.filterMap_congr fun j _ => ?_
  cases hj : part.back j with
  | some i =>
    obtain rfl := part.back_eq_some_iff.mp hj
    rw [Option.bind_some, hagree i, h.turn]
  | none =>
    -- A turn that was left out could not be reached, so it had no corner to list.
    have hcorner : ((slots engine settings g).get j).corner? = none := by
      rw [← Option.not_isSome_iff_eq_none, isSome_corner?_iff, ← hreach, hj]
      exact Bool.false_ne_true
    rw [hcorner]
    rfl

end Kept

/-- What is not laid out does not matter.  With distinct ids, and whatever engine, settings and
arithmetic are used: a graph without the turns that have no position, and without the edges that
name an unknown turn or one of these, has the same layout, with the same ids in the same order, at
the same positions. -/
theorem ofGraph_placedIn (g : Graph) (hg : g.UniqueIds) (engine : Engine)
    (settings : LayoutSettings α) :
    ofGraph engine settings (g.placedIn (ofGraph engine settings g)) =
      ofGraph engine settings g := by
  obtain ⟨part, h⟩ := hg.exists_keeps fun turn =>
    ((ofGraph engine settings g).position? turn.id).isSome
  have hreach : ∀ j, (part.back j).isSome = true ↔
      g.adjacency.Reached (g.roots g.adjacency) j := by
    intro j
    rw [h.isSome_back]
    exact isSome_position?_iff hg engine settings j
  refine eq_of_entries (entries_restrict h hg hreach engine settings) ?_
  rw [nodeSize_ofGraph, nodeSize_ofGraph]

/-- A graph without roots, in which the turn with the smallest id has a parent that is not laid
out.  Without this parent it is a root, and the layout is the same. -/
theorem ofGraph_placedIn_rootless :
    let g : Graph :=
      { turns := [⟨"c", "c", .user, "f"⟩, ⟨"a", "a", .bot, "f"⟩, ⟨"b", "b", .user, "f"⟩]
        edges := [⟨"c", "c"⟩, ⟨"c", "a"⟩, ⟨"c", "b"⟩, ⟨"a", "b"⟩, ⟨"b", "d"⟩, ⟨"d", "c"⟩] }
    let kept : Graph :=
      { turns := [⟨"a", "a", .bot, "f"⟩, ⟨"b", "b", .user, "f"⟩], edges := [⟨"a", "b"⟩] }
    let settings : LayoutSettings ℚ := ⟨⟨⟨160, 69⟩, 100, 40⟩, ⟨1 / 10, 1 / 100, 2, none⟩⟩
    g.UniqueIds ∧ g.adjacency.orphans = [] ∧ kept.adjacency.orphans ≠ [] ∧
      g.placedIn (ofGraph .relaxed settings g) = kept ∧
      ofGraph .relaxed settings kept = ofGraph .relaxed settings g := by
  intro g kept settings
  have hg : g.UniqueIds := by
    unfold Graph.UniqueIds
    decide
  have hkept : g.placedIn (ofGraph .relaxed settings g) = kept := by cbv
  have hsame := ofGraph_placedIn g hg .relaxed settings
  rw [hkept] at hsame
  exact ⟨hg, by decide, by decide, hkept, hsame⟩

end Layout

end DialogChart
