import DialogChart.Proofs.Layout.Coverage
import Mathlib.Data.List.Sort
import Mathlib.Order.Hom.Basic

/-!
# A part of the turns, numbered anew

Where some turns of a graph are left out, all others get new indices.  `Part` is such a change of
numbers, and this file proves that the traversals of a layout do not notice it.  What is said of
one adjacency inside another is `Adjacency.Embeds`: the children of a turn of the part are the
same, and its parents are the same up to parents outside of the part.

The preorder of the part is the preorder of the whole (`preorder_embeds`).  A pull on a rank adds
up the same distances in the same order, since turns outside of the part have no rank
(`pull_embeds`), and so the relaxations keep step (`run_covers`).  Siblings are sorted alike, and
the recursion fills corresponding slots alike (`run_agrees`).  Nothing is used of the arithmetic.
-/

namespace DialogChart

/-- Some of `n` turns, in their order and with new numbers: `embed` gives the old number of a turn,
and `back` the new number of a turn that belongs to the part. -/
structure Part (m n : Nat) where
  embed : Fin m ↪o Fin n
  back : Fin n → Option (Fin m)
  back_eq_some_iff : ∀ {i : Fin m} {j : Fin n}, back j = some i ↔ embed i = j

namespace Part

variable {m n : Nat} (part : Part m n)

/-! ### Lists of turns -/

/-- A turn of the part gets its number back. -/
@[simp] lemma back_embed (i : Fin m) : part.back (part.embed i) = some i :=
  part.back_eq_some_iff.mpr rfl

/-- A turn of the part has a new number. -/
lemma isSome_back_embed (i : Fin m) : (part.back (part.embed i)).isSome = true := by
  rw [back_embed]
  rfl

/-- Turns that all belong to the part are found again from their new numbers. -/
lemma map_embed_filterMap_back {l : List (Fin n)} (h : ∀ j ∈ l, (part.back j).isSome = true) :
    (l.filterMap part.back).map part.embed = l := by
  induction l with
  | nil => rfl
  | cons j rest ih =>
    rw [List.forall_mem_cons] at h
    obtain ⟨i, hi⟩ := Option.isSome_iff_exists.mp h.1
    rw [List.filterMap_cons_some hi, List.map_cons, ih h.2, part.back_eq_some_iff.mp hi]

/-- Turns may be picked out before or after they are numbered anew. -/
lemma filterMap_back_filter {p : Fin n → Bool} {q : Fin m → Bool}
    (h : ∀ i, p (part.embed i) = q i) (l : List (Fin n)) :
    (l.filter p).filterMap part.back = (l.filterMap part.back).filter q := by
  induction l with
  | nil => rfl
  | cons j rest ih =>
    cases hj : part.back j with
    | none =>
      rw [List.filterMap_cons_none hj, ← ih, List.filter_cons]
      split
      · rw [List.filterMap_cons_none hj]
      · rfl
    | some i =>
      obtain rfl := part.back_eq_some_iff.mp hj
      rw [List.filterMap_cons_some hj, List.filter_cons, List.filter_cons, h, ← ih]
      split
      · rw [List.filterMap_cons_some hj]
      · rfl

/-- All turns, numbered anew, are all turns of the part. -/
lemma filterMap_back_finRange : (List.finRange n).filterMap part.back = List.finRange m := by
  have hsorted : ((List.finRange n).filterMap part.back).Pairwise (· < ·) := by
    rw [List.pairwise_filterMap]
    refine (List.pairwise_lt_finRange n).imp fun {a b} hab i hi i' hi' => ?_
    obtain rfl := part.back_eq_some_iff.mp hi
    obtain rfl := part.back_eq_some_iff.mp hi'
    exact part.embed.lt_iff_lt.mp hab
  have hmem : ∀ i, i ∈ (List.finRange n).filterMap part.back ↔ i ∈ List.finRange m := by
    intro i
    have hi : i ∈ (List.finRange n).filterMap part.back :=
      List.mem_filterMap.mpr ⟨part.embed i, List.mem_finRange _, part.back_embed i⟩
    exact ⟨fun _ => List.mem_finRange i, fun _ => hi⟩
  have hperm : ((List.finRange n).filterMap part.back).Perm (List.finRange m) :=
    (List.perm_ext_iff_of_nodup (hsorted.imp fun h => h.ne) (List.nodup_finRange m)).mpr hmem
  exact hperm.eq_of_pairwise (fun a b _ _ hab hba => absurd hba hab.asymm) hsorted
    (List.pairwise_lt_finRange m)

/-! ### Tables of turns -/

/-- Two tables hold the same for the turns of the part. -/
def Agrees {β : Type} (inner : Vector β m) (outer : Vector β n) : Prop :=
  ∀ i, outer.get (part.embed i) = inner.get i

/-- Tables agree after the same write. -/
lemma Agrees.set {β : Type} {inner : Vector β m} {outer : Vector β n}
    (h : part.Agrees inner outer) (i : Fin m) (b : β) :
    part.Agrees (inner.set i b i.isLt)
      (outer.set (part.embed i) b (part.embed i).isLt) := by
  intro k
  have hk : part.embed k = part.embed i ↔ k = i := part.embed.injective.eq_iff
  rw [get_set, get_set, h k]
  simp only [hk]

/-- Two tables of things that may be missing hold the same for the turns of the part, and for no
other turn the outer one holds anything. -/
def Covers {β : Type} (inner : Vector (Option β) m) (outer : Vector (Option β) n) : Prop :=
  ∀ j, outer.get j = (part.back j).bind inner.get

/-- Tables that hold the same for all turns do so for the turns of the part. -/
lemma Covers.agrees {β : Type} {inner : Vector (Option β) m} {outer : Vector (Option β) n}
    (h : part.Covers inner outer) : part.Agrees inner outer := by
  intro i
  rw [h, part.back_embed, Option.bind_some]

/-- Tables hold the same after the same write. -/
lemma Covers.set {β : Type} {inner : Vector (Option β) m} {outer : Vector (Option β) n}
    (h : part.Covers inner outer) (i : Fin m) (b : Option β) :
    part.Covers (inner.set i b i.isLt)
      (outer.set (part.embed i) b (part.embed i).isLt) := by
  intro j
  cases hj : part.back j with
  | some k =>
    obtain rfl := part.back_eq_some_iff.mp hj
    exact h.agrees.set part i b k
  | none =>
    have hne : j ≠ part.embed i := by
      rintro rfl
      rw [part.back_embed] at hj
      cases hj
    rw [get_set, if_neg hne, h, hj]
    rfl

end Part

variable {m n : Nat} {part : Part m n}

/-! ### The preorder -/

/-- One adjacency is a part of another: turns of the part have the same children in both, and the
same parents up to those outside of the part. -/
structure Adjacency.Embeds (part : Part m n) (inner : Adjacency m) (outer : Adjacency n) :
    Prop where
  children : ∀ i, outer.children.get (part.embed i) = (inner.children.get i).map part.embed
  parents : ∀ i, (outer.parents.get (part.embed i)).filterMap part.back = inner.parents.get i

namespace Adjacency

variable {inner : Adjacency m} {outer : Adjacency n}

/-- A visit of turns of the part is a visit of the whole. -/
lemma visit_embeds (h : inner.Embeds part outer) (visited : Vector Bool m)
    (stack : List (Fin m × Nat)) {outerVisited : Vector Bool n}
    (hvisited : part.Agrees visited outerVisited) :
    outer.visit outerVisited (stack.map (Prod.map part.embed id)) =
      (inner.visit visited stack).map (Prod.map part.embed id) := by
  induction visited, stack using Adjacency.visit.induct inner generalizing outerVisited with
  | case1 visited =>
    rw [List.map_nil, Adjacency.visit, Adjacency.visit]
    rfl
  | case2 visited i place stack hfree ih =>
    have hnext := ih (hvisited.set part i true)
    have hstack : ((inner.children.get i).zipIdx ++ stack).map (Prod.map part.embed id) =
        (outer.children.get (part.embed i)).zipIdx ++ stack.map (Prod.map part.embed id) := by
      rw [List.map_append, h.children, List.zipIdx_map]
    have hfree' : outerVisited.get (part.embed i) = false := (hvisited i).trans hfree
    rw [hstack] at hnext
    rw [List.map_cons, Prod.map_apply, Adjacency.visit, dif_pos hfree', Adjacency.visit,
      dif_pos hfree, List.map_cons, Prod.map_apply, id, ← hnext]
  | case3 visited i place stack hmet ih =>
    have hmet' : ¬ outerVisited.get (part.embed i) = false := by
      rw [hvisited i]
      exact hmet
    rw [List.map_cons, Prod.map_apply, Adjacency.visit, dif_neg hmet', Adjacency.visit,
      dif_neg hmet, ih hvisited]

/-- The preorder from turns of the part is the preorder of the whole. -/
lemma preorder_embeds (h : inner.Embeds part outer) (roots : List (Fin m)) :
    outer.preorder (roots.map part.embed) =
      (inner.preorder roots).map (Prod.map part.embed id) := by
  have hnone : part.Agrees (.replicate m false) (.replicate n false) := by
    intro i
    rw [get_replicate, get_replicate]
  unfold preorder
  rw [List.zipIdx_map]
  exact visit_embeds h _ _ hnone

end Adjacency

/-! ### Ranks -/

namespace Relaxation

variable {α : Type} [Coordinate α]

/-- The springs of a part are those of the whole, up to turns outside of the part. -/
structure Springs.Embeds (part : Part m n) (inner : Springs m) (outer : Springs n) : Prop where
  edges : ∀ i, (outer.edges.get (part.embed i)).filterMap part.back = inner.edges.get i
  flows : ∀ i, (outer.flows.get (part.embed i)).filterMap part.back = inner.flows.get i

/-- A pull adds up the distances to the ranks that are there. -/
lemma pull_eq_foldl (ranks : Ranks α n) (own : α) (others : List (Fin n)) :
    pull ranks own others =
      (others.filterMap ranks.get).foldl (fun sum rank => sum + (rank - own)) 0 :=
  List.foldl_filterMap.symm

/-- A pull by turns of the whole is a pull by those that belong to the part. -/
lemma pull_embeds {ranks : Ranks α m} {outerRanks : Ranks α n}
    (h : part.Covers ranks outerRanks) (own : α) (others : List (Fin n)) :
    pull outerRanks own others = pull ranks own (others.filterMap part.back) := by
  have hget : outerRanks.get = fun j => (part.back j).bind ranks.get := funext h
  rw [pull_eq_foldl, pull_eq_foldl, hget, List.filterMap_filterMap]

variable {springs : Springs m} {outerSprings : Springs n}

/-- A turn of the part moves as far as in the whole. -/
lemma move_embeds (hsprings : springs.Embeds part outerSprings) {ranks : Ranks α m}
    {outerRanks : Ranks α n} (h : part.Covers ranks outerRanks) (tension : Tension α) (i : Fin m)
    (own : α) :
    move tension outerSprings outerRanks (part.embed i) own = move tension springs ranks i own := by
  unfold move
  rw [pull_embeds h, pull_embeds h, hsprings.edges, hsprings.flows]

/-- Two states of a pass hold the same ranks and the same longest move. -/
def Alike (part : Part m n) (state : Ranks α m × α) (outerState : Ranks α n × α) : Prop :=
  part.Covers state.1 outerState.1 ∧ outerState.2 = state.2

/-- Moving a turn of the part keeps the states alike. -/
lemma Alike.update (hsprings : springs.Embeds part outerSprings) {state : Ranks α m × α}
    {outerState : Ranks α n × α} (h : Alike part state outerState) (tension : Tension α)
    (i : Fin m) :
    Alike part (update tension springs state i)
      (update tension outerSprings outerState (part.embed i)) := by
  obtain ⟨ranks, longest⟩ := state
  obtain ⟨outerRanks, outerLongest⟩ := outerState
  obtain ⟨hranks, rfl⟩ := h
  have hrank : outerRanks.get (part.embed i) = ranks.get i := hranks.agrees part i
  unfold Relaxation.update
  cases hi : ranks.get i with
  | none =>
    rw [hi] at hrank
    simp only [hi, hrank]
    exact ⟨hranks, rfl⟩
  | some own =>
    rw [hi] at hrank
    simp only [hi, hrank, move_embeds hsprings hranks]
    exact ⟨hranks.set part i _, rfl⟩

/-- A pass over turns of the part is a pass of the whole. -/
lemma pass_alike (hsprings : springs.Embeds part outerSprings) {ranks : Ranks α m}
    {outerRanks : Ranks α n} (h : part.Covers ranks outerRanks) (tension : Tension α)
    (order : List (Fin m × Nat)) :
    Alike part (pass tension springs order ranks)
      (pass tension outerSprings (order.map (Prod.map part.embed id)) outerRanks) := by
  have horder : (order.map (Prod.map part.embed id)).map Prod.fst =
      (order.map Prod.fst).map part.embed := by
    rw [List.map_map, List.map_map]
    rfl
  have hfirst : Alike part (ranks, (0 : α)) (outerRanks, 0) := ⟨h, rfl⟩
  unfold pass
  rw [horder, List.foldl_map (f := part.embed)]
  refine List.foldl_rel (r := Alike part) hfirst ?_
  intro i _ state outerState hstate
  exact hstate.update hsprings tension i

/-- Passes over turns of the part leave the ranks that passes of the whole leave; in particular
they are stopped by a threshold at the same time. -/
lemma passes_covers (hsprings : springs.Embeds part outerSprings) (tension : Tension α)
    (order : List (Fin m × Nat)) (k : Nat) {ranks : Ranks α m} {outerRanks : Ranks α n}
    (h : part.Covers ranks outerRanks) (done : List α) :
    part.Covers (passes tension springs order k ranks done).ranks
      (passes tension outerSprings (order.map (Prod.map part.embed id)) k outerRanks done).ranks := by
  induction k generalizing ranks outerRanks done with
  | zero => exact h
  | succ k ih =>
    obtain ⟨hranks, hlongest⟩ := pass_alike hsprings h tension order
    rw [passes_succ, passes_succ, hlongest]
    split
    · exact hranks
    · exact ih hranks _

/-- Places in the preorder of a part are places in the preorder of the whole. -/
lemma start_covers (part : Part m n) (order : List (Fin m × Nat)) :
    part.Covers (start order : Ranks α m)
      (start (order.map (Prod.map part.embed id)) : Ranks α n) := by
  have hnone : part.Covers (.replicate m (none : Option α)) (.replicate n none) := by
    intro j
    rw [get_replicate]
    cases part.back j with
    | none => rfl
    | some i => rw [Option.bind_some, get_replicate]
  unfold start
  rw [List.foldl_map]
  refine List.foldl_rel (r := part.Covers) hnone ?_
  intro entry _ ranks outerRanks hranks
  exact hranks.set part entry.1 _

/-- The springs of a graph inside another one whose turns are in the same flows. -/
lemma springs_embeds {inner outer : Graph} {part : Part inner.size outer.size}
    {adj : Adjacency inner.size} {outerAdj : Adjacency outer.size}
    (hadj : adj.Embeds part outerAdj)
    (hflow : ∀ i, (outer.turns.get (part.embed i)).flow = (inner.turns.get i).flow) :
    (Relaxation.springs inner adj).Embeds part (Relaxation.springs outer outerAdj) := by
  constructor
  · intro i
    have hchildren : ((adj.children.get i).map part.embed).filterMap part.back =
        adj.children.get i := by
      rw [List.filterMap_map]
      simp
    unfold Relaxation.springs
    rw [get_ofFn, get_ofFn, List.filterMap_append, hadj.children, hadj.parents, hchildren]
  · intro i
    unfold Relaxation.springs
    simp only [get_ofFn]
    rw [part.filterMap_back_filter (q := fun j =>
      j ≠ i && (inner.turns.get j).flow = (inner.turns.get i).flow), part.filterMap_back_finRange]
    intro j
    simp only [hflow, ne_eq, part.embed.injective.eq_iff]

/-- The ranks of a part are the ranks of the whole, if the layout starts in the part. -/
lemma run_covers {inner outer : Graph} {part : Part inner.size outer.size}
    {adj : Adjacency inner.size} {outerAdj : Adjacency outer.size}
    (hadj : adj.Embeds part outerAdj)
    (hflow : ∀ i, (outer.turns.get (part.embed i)).flow = (inner.turns.get i).flow)
    (tension : Tension α) (roots : List (Fin inner.size)) :
    part.Covers (run tension inner adj roots).ranks
      (run tension outer outerAdj (roots.map part.embed)).ranks := by
  unfold run
  rw [Adjacency.preorder_embeds hadj]
  exact passes_covers (springs_embeds hadj hflow) tension _ _ (start_covers part _) []

end Relaxation

/-! ### Slots -/

namespace Packing

variable {α : Type} [Coordinate α]

/-- The course of stacking siblings leaves what the recursion leaves. -/
lemma Stacks.stack_eq {adj : Adjacency n} {ranks : Option (Vector (Option α) n)}
    {spacing : Spacing α} {slots last : Vector (Slot α) n} {siblings : List (Fin n)} {above : α}
    {column : Nat} {height total : α}
    (h : Stacks adj ranks spacing slots siblings above column height last total) :
    stack adj ranks spacing slots siblings above column height = (last, total) := by
  induction h with
  | done => rw [stack_nil]
  | skip hmet _ ih =>
    rw [stack_cons, place_met hmet]
    exact ih
  | put hfree _ _ ihInner ihRest =>
    rw [stack_cons, place_free hfree, ihInner]
    exact ihRest

/-- Siblings of the part are sorted as they are in the whole. -/
def SortsAlike (part : Part m n) (ranks : Option (Vector (Option α) m))
    (outerRanks : Option (Vector (Option α) n)) : Prop :=
  ∀ siblings, ordered outerRanks (siblings.map part.embed) =
    (ordered ranks siblings).map part.embed

/-- Without ranks siblings stay in their order. -/
lemma sortsAlike_none (part : Part m n) : SortsAlike (α := α) part none none := by
  intro siblings
  rfl

/-- With the same ranks siblings are sorted alike. -/
lemma sortsAlike_some {ranks : Vector (Option α) m} {outerRanks : Vector (Option α) n}
    (h : part.Covers ranks outerRanks) : SortsAlike part (some ranks) (some outerRanks) := by
  intro siblings
  refine (List.map_mergeSort fun i _ j _ => ?_).symm
  rw [h.agrees part i, h.agrees part j]

variable {inner : Adjacency m} {outer : Adjacency n} {ranks : Option (Vector (Option α) m)}
  {outerRanks : Option (Vector (Option α) n)} {spacing : Spacing α}

/-- The recursion fills the slots of a part as it does in the whole. -/
lemma Stacks.embeds (hadj : inner.Embeds part outer) (hsort : SortsAlike part ranks outerRanks)
    {slots last : Vector (Slot α) m} {siblings : List (Fin m)} {above : α} {column : Nat}
    {height total : α}
    (h : Stacks inner ranks spacing slots siblings above column height last total)
    {outerSlots : Vector (Slot α) n} (hslots : part.Agrees slots outerSlots) :
    ∃ outerLast, Stacks outer outerRanks spacing outerSlots (siblings.map part.embed) above column
      height outerLast total ∧ part.Agrees last outerLast := by
  -- Only the slots differ; the heights are the same numbers on both sides.
  induction h generalizing outerSlots with
  | done slots above column height =>
    exact ⟨outerSlots, .done _ _ _ _, hslots⟩
  | @skip slots _ i _ _ _ _ _ hmet _ ih =>
    have hmet' : (outerSlots.get (part.embed i)).isFree = false := by
      rw [hslots i]
      exact hmet
    obtain ⟨outerLast, hrest, hlast⟩ := ih hslots
    exact ⟨outerLast, .skip hmet' hrest, hlast⟩
  | @put slots _ _ i _ _ _ _ _ _ hfree _ _ ihInner ihRest =>
    have hfree' : (outerSlots.get (part.embed i)).isFree = true := by
      rw [hslots i]
      exact hfree
    obtain ⟨outerInner, hinner, hagree⟩ := ihInner (hslots.set part i .pending)
    rw [← hsort, ← hadj.children] at hinner
    obtain ⟨outerLast, hrest, hlast⟩ := ihRest (hagree.set part i _)
    exact ⟨outerLast, .put hfree' hinner hrest, hlast⟩

/-- The slots of a part are the slots of the whole, if the layout starts in the part. -/
lemma run_agrees (hadj : inner.Embeds part outer) (hsort : SortsAlike part ranks outerRanks)
    (roots : List (Fin m)) (spacing : Spacing α) :
    part.Agrees (run inner roots ranks spacing)
      (run outer (roots.map part.embed) outerRanks spacing) := by
  have hfree : part.Agrees (.replicate m (.free : Slot α)) (.replicate n .free) := by
    intro i
    rw [get_replicate, get_replicate]
  obtain ⟨outerLast, hstack, hlast⟩ :=
    (stacks_stack inner ranks spacing _ (ordered ranks roots) 0 0 0).embeds hadj hsort hfree
  rw [← hsort] at hstack
  rw [run_eq_stack, run_eq_stack, hstack.stack_eq]
  exact hlast

end Packing

end DialogChart
