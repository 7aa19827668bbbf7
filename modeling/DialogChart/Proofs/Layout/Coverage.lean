import DialogChart.Proofs.Layout.Positions
import DialogChart.Proofs.Layout.Recursion
import Mathlib.Logic.Function.Iterate

/-!
# Which turns are laid out

Three traversals have to agree on what can be reached from the roots: the recursion that fills
the slots, with siblings in any order, the preorder that gives the first ranks, and the passes
that move the ranks.  For the recursion there is one invariant in each direction.  Whatever it
marks can be reached (`Stacks.reached`), and the children of whatever it places are marked
(`Stacks.closed`); no mark is left behind (`Stacks.pending_before`), so what is marked in the
end is placed.

The main statement is `coverage`: the turns with a position are those that can be reached, and
those with a rank, whichever engine is used.
-/

namespace DialogChart

namespace Packing

variable {α : Type} {n : Nat} [Coordinate α] {adj : Adjacency n}
  {ranks : Option (Vector (Option α) n)} {spacing : Spacing α}

/-! ### What the recursion does to the slots -/

/-- Sorting siblings neither adds nor loses any. -/
@[simp] lemma mem_ordered {siblings : List (Fin n)} {i : Fin n} :
    i ∈ ordered ranks siblings ↔ i ∈ siblings := by
  unfold ordered
  cases ranks with
  | none => rfl
  | some ranks => exact List.mem_mergeSort

/-- A single sibling stays as it is. -/
@[simp] lemma ordered_singleton (i : Fin n) : ordered ranks [i] = [i] := by
  unfold ordered
  cases ranks with
  | none => rfl
  | some ranks => exact List.mergeSort_singleton i

section Slots

variable {slots last : Vector (Slot α) n} {siblings : List (Fin n)} {above : α} {column : Nat}
  {height total : α}

/-- The slot of a turn that has been met stays as it is. -/
lemma Stacks.kept (h : Stacks adj ranks spacing slots siblings above column height last total)
    {j : Fin n} (hj : (slots.get j).isFree = false) : last.get j = slots.get j := by
  induction h with
  | done => rfl
  | skip _ _ ih => exact ih hj
  | @put slots inner last i _ _ _ _ _ _ hfree _ _ ihInner ihRest =>
    have hji : j ≠ i := by
      rintro rfl
      rw [hj] at hfree
      cases hfree
    have hpending : (slots.set i .pending i.isLt).get j = slots.get j := by
      rw [get_set, if_neg hji]
    have hinner : inner.get j = slots.get j := (ihInner (hpending ▸ hj)).trans hpending
    have hplaced : ∀ s, (inner.set i s i.isLt).get j = slots.get j := by
      intro s
      rw [get_set, if_neg hji, hinner]
    exact (ihRest (by rw [hplaced]; exact hj)).trans (hplaced _)

/-- A turn that is marked afterwards was marked before. -/
lemma Stacks.pending_before
    (h : Stacks adj ranks spacing slots siblings above column height last total) {j : Fin n}
    (hj : last.get j = .pending) : slots.get j = .pending := by
  induction h with
  | done => exact hj
  | skip _ _ ih => exact ih hj
  | @put slots inner last i _ _ _ _ _ _ _ _ _ ihInner ihRest =>
    have hrest := ihRest hj
    rw [get_set] at hrest
    by_cases hji : j = i
    · rw [if_pos hji] at hrest
      cases hrest
    · rw [if_neg hji] at hrest
      have hinner := ihInner hrest
      rwa [get_set, if_neg hji] at hinner

/-- All siblings are met. -/
lemma Stacks.met (h : Stacks adj ranks spacing slots siblings above column height last total)
    {j : Fin n} (hj : j ∈ siblings) : (last.get j).isFree = false := by
  induction h with
  | done => cases hj
  | skip hmet hrest ih =>
    rcases List.mem_cons.mp hj with rfl | hj
    · rw [hrest.kept hmet]
      exact hmet
    · exact ih hj
  | @put slots inner last i _ _ _ _ _ _ _ _ hrest _ ih =>
    rcases List.mem_cons.mp hj with rfl | hj
    · have hplaced : ∀ c p, ((inner.set j (.placed c p) j.isLt).get j).isFree = false := by
        intro c p
        rw [get_set, if_pos rfl]
        rfl
      rw [hrest.kept (hplaced _ _)]
      exact hplaced _ _
    · exact ih hj

/-- A turn that is met on the way can be reached from the siblings. -/
lemma Stacks.reached
    (h : Stacks adj ranks spacing slots siblings above column height last total) {j : Fin n}
    (hj : (slots.get j).isFree = true) (hlast : (last.get j).isFree = false) :
    adj.Reached siblings j := by
  induction h with
  | done =>
    rw [hj] at hlast
    cases hlast
  | skip _ _ ih => exact (ih hj hlast).mono (List.subset_cons_self _ _)
  | @put slots inner last i rest _ _ _ _ _ _ _ hrest ihInner ihRest =>
    by_cases hji : j = i
    · exact .of_mem (hji ▸ List.mem_cons_self)
    · have hpending : (slots.set i .pending i.isLt).get j = slots.get j := by
        rw [get_set, if_neg hji]
      have hplaced : ∀ s, (inner.set i s i.isLt).get j = inner.get j := by
        intro s
        rw [get_set, if_neg hji]
      cases hinner : (inner.get j).isFree with
      | true =>
        exact (ihRest (by rw [hplaced]; exact hinner) hlast).mono (List.subset_cons_self _ _)
      | false =>
        refine (ihInner (by rw [hpending]; exact hj) hinner).trans fun m hm => ?_
        exact Adjacency.Reached.child (.of_mem List.mem_cons_self) (mem_ordered.mp hm)

/-- The children of every turn that has been placed have been met. -/
def Closed (adj : Adjacency n) (slots : Vector (Slot α) n) : Prop :=
  ∀ (i : Fin n) (column : Nat) (corner : Point α), slots.get i = .placed column corner →
    ∀ j ∈ adj.children.get i, (slots.get j).isFree = false

omit [Coordinate α] in
/-- Marking a turn keeps the children of the placed turns met. -/
lemma Closed.mark (h : Closed adj slots) (i : Fin n) :
    Closed adj (slots.set i .pending i.isLt) := by
  intro a c p ha j hj
  rw [get_set] at ha ⊢
  by_cases hai : a = i
  · rw [if_pos hai] at ha
    cases ha
  · rw [if_neg hai] at ha
    split
    · rfl
    · exact h a c p ha j hj

omit [Coordinate α] in
/-- A turn may be placed once its children have been met. -/
lemma Closed.place (h : Closed adj slots) {i : Fin n}
    (hi : ∀ j ∈ adj.children.get i, (slots.get j).isFree = false) (column : Nat)
    (corner : Point α) : Closed adj (slots.set i (.placed column corner) i.isLt) := by
  intro a c p ha j hj
  rw [get_set] at ha ⊢
  split
  · rfl
  · by_cases hai : a = i
    · exact hi j (hai ▸ hj)
    · rw [if_neg hai] at ha
      exact h a c p ha j hj

/-- Stacking siblings keeps the children of the placed turns met. -/
lemma Stacks.closed
    (h : Stacks adj ranks spacing slots siblings above column height last total)
    (hclosed : Closed adj slots) : Closed adj last := by
  induction h with
  | done => exact hclosed
  | skip _ _ ih => exact ih hclosed
  | @put slots _ _ i _ _ _ _ _ _ _ hinner _ ihInner ihRest =>
    refine ihRest ((ihInner (hclosed.mark i)).place ?_ _ _)
    intro j hj
    exact hinner.met (mem_ordered.mpr hj)

end Slots

/-! ### The slots in the end -/

/-- No turn is left half placed. -/
theorem run_ne_pending (adj : Adjacency n) (roots : List (Fin n))
    (ranks : Option (Vector (Option α) n)) (spacing : Spacing α) (i : Fin n) :
    (run adj roots ranks spacing).get i ≠ .pending := by
  intro h
  rw [run_eq_stack] at h
  have hfirst := (stacks_stack adj ranks spacing _ _ _ _ _).pending_before h
  rw [get_replicate] at hfirst
  cases hfirst

/-- A turn is met in the end exactly if it can be reached from the roots. -/
lemma run_isFree_eq_false_iff (adj : Adjacency n) (roots : List (Fin n))
    (ranks : Option (Vector (Option α) n)) (spacing : Spacing α) (i : Fin n) :
    ((run adj roots ranks spacing).get i).isFree = false ↔ adj.Reached roots i := by
  have hrun := stacks_stack adj ranks spacing (.replicate n .free) (ordered ranks roots) 0 0 0
  rw [← run_eq_stack] at hrun
  constructor
  · intro h
    have hreached := hrun.reached (by rw [get_replicate]; rfl) h
    exact hreached.trans fun r hr => .of_mem (mem_ordered.mp hr)
  · intro h
    have hclosed : Closed adj (run adj roots ranks spacing) := by
      refine hrun.closed fun a c p ha => ?_
      rw [get_replicate] at ha
      cases ha
    refine h.mem_of_closed (fun r hr => hrun.met (mem_ordered.mpr hr)) fun a b ha hb => ?_
    cases hslot : (run adj roots ranks spacing).get a with
    | free =>
      rw [hslot] at ha
      cases ha
    | pending => exact absurd hslot (run_ne_pending adj roots ranks spacing a)
    | placed c p => exact hclosed a c p hslot b hb

/-- A turn is placed exactly if it can be reached from the roots. -/
theorem run_placed_iff (adj : Adjacency n) (roots : List (Fin n))
    (ranks : Option (Vector (Option α) n)) (spacing : Spacing α) (i : Fin n) :
    (∃ column corner, (run adj roots ranks spacing).get i = .placed column corner) ↔
      adj.Reached roots i := by
  rw [← run_isFree_eq_false_iff adj roots ranks spacing]
  cases h : (run adj roots ranks spacing).get i with
  | free => simp [Slot.isFree]
  | pending => exact absurd h (run_ne_pending adj roots ranks spacing i)
  | placed c p => simp [Slot.isFree]

/-! ### The siblings that are sorted -/

/-- A move keeps to what can be reached: the siblings of a new stack are children of a sibling
that was waiting. -/
lemma Move.siblings_reached {roots : List (Fin n)} {s t : State α n}
    (h : Move adj ranks spacing s t)
    (hs : ∀ f ∈ s.frames, ∀ i ∈ f.met ++ f.waiting, adj.Reached roots i) :
    ∀ f ∈ t.frames, ∀ i ∈ f.met ++ f.waiting, adj.Reached roots i := by
  cases h with
  | skip =>
    rw [List.forall_mem_cons] at hs ⊢
    refine ⟨fun i hi => hs.1 i ?_, hs.2⟩
    simp only [List.mem_append, List.mem_cons] at hi ⊢
    tauto
  | @descend slots a =>
    rw [List.forall_mem_cons] at hs
    rw [List.forall_mem_cons, List.forall_mem_cons]
    refine ⟨fun i hi => ?_, fun i hi => hs.1 i ?_, hs.2⟩
    · rw [List.nil_append, mem_ordered] at hi
      exact (hs.1 a (by simp)).child hi
    · simp only [List.mem_append, List.mem_cons] at hi ⊢
      tauto
  | ascend =>
    rw [List.forall_mem_cons, List.forall_mem_cons] at hs
    rw [List.forall_mem_cons]
    exact ⟨hs.2.1, hs.2.2⟩
  | leave =>
    intro f hf
    cases hf

/-- Every sibling that the walk from the roots stacks can be reached from the roots. -/
lemma Moves.siblings_reached {roots : List (Fin n)} {s : State α n}
    (h : Moves adj ranks spacing (begin ranks roots) s) :
    ∀ f ∈ s.frames, ∀ i ∈ f.met ++ f.waiting, adj.Reached roots i := by
  induction h with
  | refl =>
    intro f hf i hi
    rw [begin, List.mem_singleton] at hf
    subst hf
    rw [frame, List.nil_append, mem_ordered] at hi
    exact .of_mem hi
  | tail _ hstep ih => exact (move_of_step hstep).siblings_reached ih

end Packing

/-! ### The turns with a rank -/

namespace Relaxation

variable {α : Type} [Coordinate α] {n : Nat}

/-- Before the first pass the turns of the preorder have a rank, and no others. -/
lemma isSome_start (order : List (Fin n × Nat)) (i : Fin n) :
    ((start order : Ranks α n).get i).isSome = true ↔ i ∈ order.map Prod.fst := by
  have hfold : ∀ first : Ranks α n,
      ((order.foldl (fun ranks entry =>
        ranks.set entry.1 (some (Coordinate.ofCount entry.2)) entry.1.isLt) first).get i).isSome =
        true ↔ i ∈ order.map Prod.fst ∨ (first.get i).isSome = true := by
    induction order with
    | nil => simp
    | cons entry rest ih =>
      intro first
      obtain ⟨a, place⟩ := entry
      rw [List.foldl_cons, ih, get_set, List.map_cons, List.mem_cons]
      by_cases hia : i = a
      · simp [hia]
      · rw [if_neg hia]
        tauto
  have hnone : ((Vector.replicate n (none : Option α)).get i).isSome = false := by simp
  unfold start
  rw [hfold, hnone]
  simp

/-- Moving a turn gives no turn a rank and takes none away. -/
lemma isSome_update (tension : Tension α) (springs : Springs n) (state : Ranks α n × α)
    (i j : Fin n) :
    ((update tension springs state i).1.get j).isSome = (state.1.get j).isSome := by
  obtain ⟨ranks, longest⟩ := state
  unfold update
  cases hi : ranks.get i with
  | none => simp only [hi]
  | some own =>
    simp only [hi]
    rw [get_set]
    by_cases hji : j = i
    · rw [if_pos hji, hji, hi]
      rfl
    · rw [if_neg hji]

/-- Moving some turns gives no turn a rank and takes none away. -/
lemma isSome_foldl_update (tension : Tension α) (springs : Springs n) (moved : List (Fin n))
    (state : Ranks α n × α) (j : Fin n) :
    ((moved.foldl (update tension springs) state).1.get j).isSome = (state.1.get j).isSome := by
  induction moved generalizing state with
  | nil => rfl
  | cons i rest ih => rw [List.foldl_cons, ih, isSome_update]

/-- A pass is made, and either it was the last one or others follow. -/
lemma passes_succ (tension : Tension α) (springs : Springs n) (order : List (Fin n × Nat))
    (k : Nat) (ranks : Ranks α n) (done : List α) :
    passes tension springs order (k + 1) ranks done =
      if settled tension (pass tension springs order ranks).2 = true then
        ⟨(pass tension springs order ranks).1,
          ((pass tension springs order ranks).2 :: done).reverse, true⟩
      else
        passes tension springs order k (pass tension springs order ranks).1
          ((pass tension springs order ranks).2 :: done) := rfl

/-- The ranks after some passes are those after a number of whole passes. -/
lemma exists_ranks_passes_eq (tension : Tension α) (springs : Springs n)
    (order : List (Fin n × Nat)) (k : Nat) (ranks : Ranks α n) (done : List α) :
    ∃ m ≤ k, (passes tension springs order k ranks done).ranks =
      (fun ranks => (pass tension springs order ranks).1)^[m] ranks := by
  induction k generalizing ranks done with
  | zero => exact ⟨0, Nat.le_refl 0, rfl⟩
  | succ k ih =>
    rw [passes_succ]
    by_cases hstop : settled tension (pass tension springs order ranks).2 = true
    · rw [if_pos hstop]
      exact ⟨1, Nat.succ_le_succ (Nat.zero_le k), rfl⟩
    · rw [if_neg hstop]
      obtain ⟨m, hm, heq⟩ := ih (pass tension springs order ranks).1
        ((pass tension springs order ranks).2 :: done)
      exact ⟨m + 1, Nat.succ_le_succ hm, heq⟩

/-- The ranks after `k` whole passes and, in the pass after them, the moves of some turns. -/
def during (tension : Tension α) (springs : Springs n) (order : List (Fin n × Nat)) (k : Nat)
    (moved : List (Fin n)) : Ranks α n :=
  (moved.foldl (update tension springs)
    ((fun ranks => (pass tension springs order ranks).1)^[k] (start order), 0)).1

/-- At every moment of a relaxation the turns of the preorder have a rank, and no others. -/
lemma isSome_during (tension : Tension α) (springs : Springs n) (order : List (Fin n × Nat))
    (k : Nat) (moved : List (Fin n)) (i : Fin n) :
    ((during tension springs order k moved).get i).isSome = true ↔ i ∈ order.map Prod.fst := by
  have hiter : ∀ first : Ranks α n,
      (((fun ranks => (pass tension springs order ranks).1)^[k] first).get i).isSome =
        (first.get i).isSome := by
    induction k with
    | zero =>
      intro first
      rfl
    | succ k ih =>
      intro first
      rw [Function.iterate_succ_apply, ih]
      exact isSome_foldl_update tension springs (order.map Prod.fst) (first, 0) i
  unfold during
  rw [isSome_foldl_update, hiter, isSome_start]

/-- A turn has a rank in the end exactly if it can be reached from the roots. -/
lemma isSome_run (tension : Tension α) (g : Graph) (adj : Adjacency g.size)
    (roots : List (Fin g.size)) (i : Fin g.size) :
    ((run tension g adj roots).ranks.get i).isSome = true ↔ adj.Reached roots i := by
  obtain ⟨m, -, heq⟩ := exists_ranks_passes_eq tension (springs g adj) (adj.preorder roots)
    tension.iterations (start (adj.preorder roots)) []
  have hrun : (run tension g adj roots).ranks =
      during tension (springs g adj) (adj.preorder roots) m [] := heq
  rw [hrun, isSome_during, Adjacency.mem_preorder_iff]

end Relaxation

/-! ### Layouts -/

namespace Layout

variable {α : Type} [Coordinate α] {g : Graph}

/-- The slot of a turn has a corner exactly if the turn can be reached. -/
lemma isSome_corner?_iff (engine : Engine) (settings : LayoutSettings α) (i : Fin g.size) :
    ((slots engine settings g).get i).corner?.isSome = true ↔
      g.adjacency.Reached (g.roots g.adjacency) i := by
  rw [← Packing.run_placed_iff g.adjacency (g.roots g.adjacency) (ranks engine settings g)
    settings.spacing, Option.isSome_iff_exists, exists_comm]
  exact exists_congr fun corner => Packing.Slot.corner?_eq_some_iff

/-- The turns that an engine places are those that can be reached. -/
lemma mem_placed_iff (hg : g.UniqueIds) (engine : Engine) (settings : LayoutSettings α)
    (i : Fin g.size) : i ∈ placed (slots engine settings g) ↔ g.Reachable i := by
  unfold placed
  rw [List.mem_filter, isSome_corner?_iff, hg.reached_iff]
  exact and_iff_right (List.mem_finRange i)

/-- Any two engines place the same turns. -/
lemma placed_eq (hg : g.UniqueIds) (engine other : Engine)
    (settings otherSettings : LayoutSettings α) :
    placed (slots engine settings g) = placed (slots other otherSettings g) := by
  refine List.filter_congr fun i hi => ?_
  have hiff := (mem_placed_iff hg engine settings i).trans
    (mem_placed_iff hg other otherSettings i).symm
  unfold placed at hiff
  rw [List.mem_filter, List.mem_filter, and_iff_right hi, and_iff_right hi] at hiff
  exact Bool.eq_iff_iff.mpr hiff

/-- Where there are turns, one of them is placed. -/
lemma placed_ne_nil (hg : g.UniqueIds) (engine : Engine) (settings : LayoutSettings α)
    (h : 0 < g.size) : placed (slots engine settings g) ≠ [] := by
  obtain ⟨r, hr⟩ := List.exists_mem_of_ne_nil _ (Graph.roots_ne_nil h)
  exact List.ne_nil_of_mem ((mem_placed_iff hg engine settings r).mpr ⟨r, hr, .refl⟩)

/-- Coverage.  With distinct ids, and whatever engine and settings are used: no turn is left half
placed, and the turns that are placed are those that can be reached.  These are also the turns
with a rank; no sibling without a rank is ever sorted, and no turn without a rank is ever moved.
So all engines lay out the same ids, in the order of the graph and each of them once, and a graph
with turns has a layout with turns. -/
theorem coverage (g : Graph) (hg : g.UniqueIds) (settings : LayoutSettings α) :
    (∀ (engine : Engine) (i : Fin g.size),
      (slots engine settings g).get i ≠ .pending ∧
        ((∃ column corner, (slots engine settings g).get i = .placed column corner) ↔
          g.Reachable i)) ∧
    (∀ i : Fin g.size,
      ((Relaxation.run settings.tension g g.adjacency (g.roots g.adjacency)).ranks.get i).isSome =
        true ↔ g.Reachable i) ∧
    (∀ state : Packing.State α g.size,
      Packing.Moves g.adjacency (ranks .relaxed settings g) settings.spacing
          (Packing.begin (ranks .relaxed settings g) (g.roots g.adjacency)) state →
        ∀ f ∈ state.frames, ∀ i ∈ f.met ++ f.waiting,
          ((Relaxation.run settings.tension g g.adjacency
            (g.roots g.adjacency)).ranks.get i).isSome = true) ∧
    (∀ (k : Nat) (moved later : List (Fin g.size)) (i : Fin g.size),
      (g.adjacency.preorder (g.roots g.adjacency)).map Prod.fst = moved ++ i :: later →
        ((Relaxation.during settings.tension (Relaxation.springs g g.adjacency)
          (g.adjacency.preorder (g.roots g.adjacency)) k moved).get i).isSome = true) ∧
    (∀ (engine other : Engine) (otherSettings : LayoutSettings α),
      (ofGraph engine settings g).positions.names =
        (ofGraph other otherSettings g).positions.names) ∧
    (∀ engine : Engine,
      (∀ id, id ∈ (ofGraph engine settings g).positions.names ↔
        ∃ i : Fin g.size, (g.turns.get i).id = id ∧ g.Reachable i) ∧
      (ofGraph engine settings g).positions.names.Sublist (g.turns.map (·.id)) ∧
      (ofGraph engine settings g).positions.names.Nodup ∧
      (g.turns ≠ [] → 0 < (ofGraph engine settings g).size)) := by
  have hnames : ∀ (engine : Engine) (settings : LayoutSettings α),
      (ofGraph engine settings g).positions.names =
        (placed (slots engine settings g)).map fun i => (g.turns.get i).id := by
    intro engine settings
    rw [ofGraph_eq, names_ofSlots hg]
  refine ⟨?_, ?_, ?_, ?_, ?_, ?_⟩
  · intro engine i
    refine ⟨Packing.run_ne_pending _ _ _ _ i, ?_⟩
    exact (Packing.run_placed_iff _ _ _ _ i).trans (hg.reached_iff i)
  · intro i
    exact (Relaxation.isSome_run _ _ _ _ i).trans (hg.reached_iff i)
  · intro state hmoves f hf i hi
    exact (Relaxation.isSome_run _ _ _ _ i).mpr (hmoves.siblings_reached f hf i hi)
  · intro k moved later i horder
    rw [Relaxation.isSome_during, horder]
    exact List.mem_append_right _ List.mem_cons_self
  · intro engine other otherSettings
    rw [hnames, hnames, placed_eq hg engine other settings otherSettings]
  · intro engine
    refine ⟨?_, ?_, ?_, ?_⟩
    · intro id
      rw [hnames, List.mem_map]
      refine exists_congr fun i => ?_
      rw [mem_placed_iff hg, and_comm]
    · rw [hnames]
      exact sublist_ids _
    · rw [hnames]
      exact (sublist_ids _).nodup hg
    · intro hturns
      have hlen : (ofGraph engine settings g).size =
          (placed (slots engine settings g)).length := by
        rw [← List.length_map (fun i => (g.turns.get i).id), ← hnames]
        exact (List.length_map ..).symm
      rw [hlen]
      exact List.length_pos_of_ne_nil
        (placed_ne_nil hg engine settings (List.length_pos_of_ne_nil hturns))

/-- A cycle without a root, a loop at one turn, an edge drawn twice and an edge to nowhere: both
engines lay out the same turns, and at least one. -/
theorem coverage_rootless_cycle :
    let g : Graph :=
      { turns := [⟨"b", "b", .user, "f"⟩, ⟨"a", "a", .bot, "f"⟩, ⟨"c", "c", .bot, "f"⟩]
        edges := [⟨"a", "b"⟩, ⟨"b", "a"⟩, ⟨"a", "b"⟩, ⟨"c", "c"⟩, ⟨"b", "d"⟩] }
    g.UniqueIds ∧
      (ofGraph .basic LayoutSettings.default g).positions.names =
        (ofGraph .relaxed LayoutSettings.default g).positions.names ∧
      0 < (ofGraph .relaxed LayoutSettings.default g).size := by
  intro g
  have hg : g.UniqueIds := by
    unfold Graph.UniqueIds
    decide
  obtain ⟨-, -, -, -, hsame, hids⟩ := coverage g hg LayoutSettings.default
  obtain ⟨-, -, -, hsize⟩ := hids .relaxed
  exact ⟨hg, hsame .basic .relaxed LayoutSettings.default, hsize (List.cons_ne_nil _ _)⟩

end Layout

end DialogChart
