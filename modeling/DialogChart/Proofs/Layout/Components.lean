import DialogChart.Proofs.Layout.Restriction

/-!
# Independent parts of a graph

Two graphs that share no id may be joined: the turns of the one before those of the other, and the
edges of both in any order that keeps the two orders.  The basic layout of the whole keeps the
front part where it is, and moves the other part down, by one distance, below it
(`independent_part_stays`).

The roots of the whole are those of the front part and then those of the other one
(`Joins.roots`), so the recursion first stacks the front part, in slots that the other part does
not reach (`Stacks.unreached`), and then goes on with the other part, from the height that it has
come to.  What a start at another height changes is said by `Stacks.lift`, for any relation between
the old and the new levels that is kept when the same height is added on both sides.  The
arithmetic need have no laws: with the relation that always holds the columns and the left sides
come out the same.  In exact arithmetic the levels differ by a constant.
-/

namespace DialogChart

/-- What is reached from turns of a part belongs to the part. -/
lemma Adjacency.Embeds.exists_embed_of_reached {m n : Nat} {part : Part m n}
    {inner : Adjacency m} {outer : Adjacency n} (h : inner.Embeds part outer)
    {starts : List (Fin m)} {j : Fin n} (hj : outer.Reached (starts.map part.embed) j) :
    ∃ i, part.embed i = j := by
  refine hj.mem_of_closed (P := fun j => ∃ i, part.embed i = j) ?_ ?_
  · intro r hr
    obtain ⟨i, -, hi⟩ := List.mem_map.mp hr
    exact ⟨i, hi⟩
  · rintro _ b ⟨i, rfl⟩ hb
    rw [h.children] at hb
    obtain ⟨k, -, hk⟩ := List.mem_map.mp hb
    exact ⟨k, hk⟩

namespace Packing

variable {α : Type} [Coordinate α] {m n : Nat}

/-! ### One stack after another -/

omit [Coordinate α] in
/-- A slot is free if its turn was not met. -/
lemma Slot.eq_free_of_isFree {slot : Slot α} (h : slot.isFree = true) : slot = .free := by
  cases slot with
  | free => rfl
  | pending => cases h
  | placed column corner => cases h

section Append

variable {adj : Adjacency n} {ranks : Option (Vector (Option α) n)} {spacing : Spacing α}
  {slots last : Vector (Slot α) n} {above : α} {column : Nat} {height total : α}

/-- Siblings may be stacked in two goes. -/
lemma Stacks.append {first second : List (Fin n)} {middle : Vector (Slot α) n} {between : α}
    (h : Stacks adj ranks spacing slots first above column height middle between)
    (hnext : Stacks adj ranks spacing middle second above column between last total) :
    Stacks adj ranks spacing slots (first ++ second) above column height last total := by
  induction h with
  | done => exact hnext
  | skip hmet _ ih => exact .skip hmet (ih hnext)
  | put hfree hinner _ _ ih => exact .put hfree hinner (ih hnext)

/-- A slot stays as it is if its turn cannot be reached. -/
lemma Stacks.unreached {siblings : List (Fin n)}
    (h : Stacks adj ranks spacing slots siblings above column height last total) {j : Fin n}
    (hj : ¬ adj.Reached siblings j) : last.get j = slots.get j := by
  cases hbefore : (slots.get j).isFree with
  | false => exact h.kept hbefore
  | true =>
    cases hafter : (last.get j).isFree with
    | false => exact absurd (h.reached hbefore hafter) hj
    | true => rw [Slot.eq_free_of_isFree hbefore, Slot.eq_free_of_isFree hafter]

end Append

/-! ### Another start -/

/-- A relation between levels that is kept when the same height is added to both: to the levels
themselves, or to the heights of two stacks that end there. -/
structure LevelRelation (R : α → α → Prop) : Prop where
  add : ∀ {u v : α} (k : α), R u v → R (u + k) (v + k)
  add_height : ∀ {above above' height height' : α} (k : α), R (above + height) (above' + height') →
    R (above + (height + k)) (above' + (height' + k))

/-- Two slots hold the same, up to related levels. -/
inductive Slot.Lifted (R : α → α → Prop) : Slot α → Slot α → Prop where
  | free : Lifted R .free .free
  | pending : Lifted R .pending .pending
  | placed (column : Nat) (x : α) {y y' : α} : R y y' →
    Lifted R (.placed column ⟨x, y⟩) (.placed column ⟨x, y'⟩)

namespace Slot.Lifted

omit [Coordinate α]

variable {R : α → α → Prop} {slot slot' : Slot α}

/-- Both slots are free, or none is. -/
lemma isFree_eq (h : Lifted R slot slot') : slot'.isFree = slot.isFree := by
  cases h <;> rfl

/-- The left side is the same. -/
lemma x_eq (h : Lifted R slot slot') :
    slot'.corner?.map Point.x = slot.corner?.map Point.x := by
  cases h <;> rfl

end Slot.Lifted

/-- Two tables of slots hold the same for the turns of a part, up to related levels. -/
def Lifted (part : Part m n) (R : α → α → Prop) (inner : Vector (Slot α) m)
    (outer : Vector (Slot α) n) : Prop :=
  ∀ i, Slot.Lifted R (inner.get i) (outer.get (part.embed i))

variable {part : Part m n} {R : α → α → Prop}

omit [Coordinate α] in
/-- Tables are related after related writes. -/
lemma Lifted.set {inner : Vector (Slot α) m} {outer : Vector (Slot α) n}
    (h : Lifted part R inner outer) (i : Fin m) {slot slot' : Slot α}
    (hslot : Slot.Lifted R slot slot') :
    Lifted part R (inner.set i slot i.isLt)
      (outer.set (part.embed i) slot' (part.embed i).isLt) := by
  intro k
  have hk : part.embed k = part.embed i ↔ k = i := part.embed.injective.eq_iff
  rw [get_set, get_set]
  simp only [hk]
  split
  · exact hslot
  · exact h k

variable {inner : Adjacency m} {outer : Adjacency n} {ranks : Option (Vector (Option α) m)}
  {outerRanks : Option (Vector (Option α) n)} {spacing : Spacing α}

/-- The recursion on a part, from another level: it fills the slots alike, and a stack that starts
with the same height ends with the same height. -/
lemma Stacks.lift (hR : LevelRelation R) (hadj : inner.Embeds part outer)
    (hsort : SortsAlike part ranks outerRanks) {slots last : Vector (Slot α) m}
    {siblings : List (Fin m)} {above : α} {column : Nat} {height total : α}
    (h : Stacks inner ranks spacing slots siblings above column height last total)
    {outerSlots : Vector (Slot α) n} (hslots : Lifted part R slots outerSlots)
    {above' height' : α} (hlevel : R (above + height) (above' + height')) :
    ∃ outerLast total', Stacks outer outerRanks spacing outerSlots (siblings.map part.embed)
        above' column height' outerLast total' ∧
      Lifted part R last outerLast ∧ (height' = height → total' = total) := by
  -- The stack of the children of a turn starts with no height on both sides.  So it comes to the
  -- same height, and the turn reserves the same.
  induction h generalizing outerSlots above' height' with
  | done slots above column height => exact ⟨outerSlots, height', .done _ _ _ _, hslots, id⟩
  | @skip slots _ i _ _ _ _ _ hmet _ ih =>
    have hmet' : (outerSlots.get (part.embed i)).isFree = false := by
      rw [(hslots i).isFree_eq]
      exact hmet
    obtain ⟨outerLast, total', hrest, hlast, htotal⟩ := ih hslots (hR.add_height _ hlevel)
    refine ⟨outerLast, total', .skip hmet' hrest, hlast, ?_⟩
    rintro rfl
    exact htotal rfl
  | @put slots _ _ i _ _ column _ tall _ hfree _ _ ihInner ihRest =>
    have hfree' : (outerSlots.get (part.embed i)).isFree = true := by
      rw [(hslots i).isFree_eq]
      exact hfree
    obtain ⟨outerInner, tall', hinner, hinnerSlots, htall⟩ :=
      ihInner (hslots.set i .pending) (hR.add 0 hlevel)
    obtain rfl := htall rfl
    rw [← hsort, ← hadj.children] at hinner
    have hplaced := Slot.Lifted.placed column
      (Coordinate.ofCount column * (spacing.nodeSize.width + spacing.columnGap))
      (hR.add (Coordinate.larger (Coordinate.half (stackHeight spacing tall') -
        Coordinate.half spacing.nodeSize.height) 0) (hR.add spacing.rowGap hlevel))
    obtain ⟨outerLast, total', hrest, hlast, htotal⟩ :=
      ihRest (hinnerSlots.set i hplaced) (hR.add_height _ hlevel)
    refine ⟨outerLast, total', .put hfree' hinner hrest, hlast, ?_⟩
    rintro rfl
    exact htotal rfl

/-- Two parts, one after the other.  The slots of the first part are filled as they are without the
second part, and those of the second part alike, from the height that the first part takes. -/
lemma run_append {k : Nat} {first : Adjacency k} {second : Adjacency m} {whole : Adjacency n}
    {partF : Part k n} {partS : Part m n} (hfirst : first.Embeds partF whole)
    (hsecond : second.Embeds partS whole) (hne : ∀ i j, partF.embed i ≠ partS.embed j)
    (rootsF : List (Fin k)) (rootsS : List (Fin m)) (spacing : Spacing α) :
    partF.Agrees (run first rootsF none spacing)
        (run whole (rootsF.map partF.embed ++ rootsS.map partS.embed) none spacing) ∧
      ∃ height, ∀ R : α → α → Prop, LevelRelation R → R (0 + 0) (0 + height) →
        Lifted partS R (run second rootsS none spacing)
          (run whole (rootsF.map partF.embed ++ rootsS.map partS.embed) none spacing) := by
  have hfree : partF.Agrees (.replicate k (.free : Slot α)) (.replicate n .free) := by
    intro i
    rw [get_replicate, get_replicate]
  obtain ⟨middle, hfront, hmiddle⟩ :=
    (stacks_stack first none spacing (.replicate k .free) rootsF 0 0 0).embeds hfirst
      (sortsAlike_none partF) hfree
  generalize (stack first none spacing (.replicate k .free) rootsF 0 0 0).2 = height at hfront
  have hback := stacks_stack whole none spacing middle (rootsS.map partS.embed) 0 0 height
  have hrun : run whole (rootsF.map partF.embed ++ rootsS.map partS.embed) none spacing =
      (stack whole none spacing middle (rootsS.map partS.embed) 0 0 height).1 := by
    rw [run_eq_stack]
    exact congrArg Prod.fst (hfront.append hback).stack_eq
  rw [hrun]
  refine ⟨fun i => ?_, height, fun R hR hlevel => ?_⟩
  · have hout : ¬ whole.Reached (rootsS.map partS.embed) (partF.embed i) := by
      intro hreach
      obtain ⟨j, hj⟩ := hsecond.exists_embed_of_reached hreach
      exact hne i j hj.symm
    rw [hback.unreached hout, hmiddle i, run_eq_stack]
    rfl
  · have hslots : Lifted partS R (.replicate m .free) middle := by
      intro j
      have hout : ¬ whole.Reached (rootsF.map partF.embed) (partS.embed j) := by
        intro hreach
        obtain ⟨i, hi⟩ := hfirst.exists_embed_of_reached hreach
        exact hne i j hi
      rw [hfront.unreached hout, get_replicate, get_replicate]
      exact .free
    obtain ⟨last, total, hlast, hlifted, -⟩ :=
      (stacks_stack second none spacing (.replicate m .free) rootsS 0 0 0).lift hR hsecond
        (sortsAlike_none partS) hslots hlevel
    rw [hlast.stack_eq, run_eq_stack]
    exact hlifted

end Packing

/-! ### Joining two graphs -/

/-- A list holds the items of two others, each of them in its order. -/
inductive Interleaves {β : Type} : List β → List β → List β → Prop where
  | nil : Interleaves [] [] []
  | left {b : β} {l r whole : List β} : Interleaves l r whole →
    Interleaves (b :: l) r (b :: whole)
  | right {b : β} {l r whole : List β} : Interleaves l r whole →
    Interleaves l (b :: r) (b :: whole)

namespace Interleaves

variable {β : Type} {l r whole : List β}

/-- The two lists may change places. -/
lemma swap (h : Interleaves l r whole) : Interleaves r l whole := by
  induction h with
  | nil => exact .nil
  | left _ ih => exact .right ih
  | right _ ih => exact .left ih

/-- The items are those of the two lists. -/
lemma mem_iff (h : Interleaves l r whole) {b : β} : b ∈ whole ↔ b ∈ l ∨ b ∈ r := by
  induction h with
  | nil => simp
  | left _ ih => rw [List.mem_cons, List.mem_cons, ih, or_assoc]
  | right _ ih => rw [List.mem_cons, List.mem_cons, ih, or_left_comm]

/-- The items of one list can be told from those of the other. -/
lemma filter_eq_left (h : Interleaves l r whole) {p : β → Bool} (hl : ∀ b ∈ l, p b = true)
    (hr : ∀ b ∈ r, ¬ p b = true) : whole.filter p = l := by
  induction h with
  | nil => rfl
  | left _ ih =>
    obtain ⟨hb, hl⟩ := List.forall_mem_cons.mp hl
    rw [List.filter_cons_of_pos hb, ih hl hr]
  | right _ ih =>
    obtain ⟨hb, hr⟩ := List.forall_mem_cons.mp hr
    rw [List.filter_cons_of_neg hb, ih hl hr]

end Interleaves

namespace Graph

/-- A graph that is complete in itself: its ids are distinct, its edges lead from its turns to its
turns, and there is a turn to which no edge leads. -/
structure Standalone (g : Graph) : Prop where
  ids : g.UniqueIds
  sources : ∀ e ∈ g.edges, e.source ∈ g.turns.map (·.id)
  targets : ∀ e ∈ g.edges, e.target ∈ g.turns.map (·.id)
  start : ∃ t ∈ g.turns, ∀ e ∈ g.edges, e.target ≠ t.id

/-- A graph joins two others that share no id: it has the turns of the one before those of the
other, and the edges of both, each in their order. -/
structure Joins (whole front back : Graph) : Prop where
  apart : ∀ id ∈ front.turns.map (·.id), id ∉ back.turns.map (·.id)
  turns : whole.turns = front.turns ++ back.turns
  edges : Interleaves front.edges back.edges whole.edges

/-- The turns of a graph are the given part of the turns of another one, and no edge of the other
one leads into the part or out of it. -/
structure Component (side whole : Graph) (part : Part side.size whole.size) : Prop where
  turn : ∀ i, whole.turns.get (part.embed i) = side.turns.get i
  embeds : side.adjacency.Embeds part whole.adjacency
  parents : ∀ i, ∀ j ∈ whole.adjacency.parents.get (part.embed i), (part.back j).isSome = true

/-- The edges of one side are those that name its ids. -/
lemma restrict_eq_side {side other whole : Graph} {keep : Turn → Bool}
    (hturns : whole.turns.filter keep = side.turns)
    (hedges : Interleaves side.edges other.edges whole.edges)
    (hside : ∀ e ∈ side.edges, e.source ∈ side.turns.map (·.id) ∧
      e.target ∈ side.turns.map (·.id))
    (hother : ∀ e ∈ other.edges, e.source ∉ side.turns.map (·.id)) :
    whole.restrict keep = side := by
  have hany : ∀ id, side.turns.any (·.id = id) = true ↔ id ∈ side.turns.map (·.id) := by
    intro id
    simp
  have hfilter := hedges.filter_eq_left
    (p := fun e => side.turns.any (·.id = e.source) && side.turns.any (·.id = e.target))
    (fun e he => by rw [Bool.and_eq_true, hany, hany]; exact hside e he)
    (fun e he => by rw [Bool.and_eq_true, hany]; exact fun h => hother e he h.1)
  unfold restrict
  rw [hturns, hfilter]

/-- One of two sides is a component of the whole, wherever its turns stand. -/
lemma exists_component {side other whole : Graph} (hwhole : whole.UniqueIds)
    (hturns : whole.turns.filter (fun t => t.id ∈ side.turns.map (·.id)) = side.turns)
    (hedges : Interleaves side.edges other.edges whole.edges)
    (hside : ∀ e ∈ side.edges, e.source ∈ side.turns.map (·.id) ∧
      e.target ∈ side.turns.map (·.id))
    (hother : ∀ e ∈ other.edges, e.source ∉ side.turns.map (·.id) ∧
      e.target ∉ side.turns.map (·.id)) :
    ∃ part, side.Component whole part := by
  -- An edge of the whole has both its ends on one side.
  have hedge : ∀ e ∈ whole.edges,
      e.source ∈ side.turns.map (·.id) ↔ e.target ∈ side.turns.map (·.id) := by
    intro e he
    rcases hedges.mem_iff.mp he with he | he
    · exact iff_of_true (hside e he).1 (hside e he).2
    · exact iff_of_false (hother e he).1 (hother e he).2
  have hrestrict : ∃ keep, whole.restrict keep = side ∧
      ∀ t, keep t = true ↔ t.id ∈ side.turns.map (·.id) :=
    ⟨_, restrict_eq_side hturns hedges hside fun e he => (hother e he).1,
      fun t => decide_eq_true_iff⟩
  clear hturns hedges hside hother
  obtain ⟨keep, rfl, hkeep⟩ := hrestrict
  obtain ⟨part, hkeeps⟩ := hwhole.exists_keeps keep
  have hback : ∀ j, (part.back j).isSome = true ↔
      (whole.turns.get j).id ∈ (whole.restrict keep).turns.map (·.id) := by
    intro j
    rw [hkeeps.isSome_back, hkeep]
  have hmem : ∀ i, (whole.turns.get (part.embed i)).id ∈
      (whole.restrict keep).turns.map (·.id) := fun i =>
    (hback _).mp (part.isSome_back_embed i)
  refine ⟨part, fun i => (hkeeps.turn i).symm, hkeeps.adjacency hwhole ?_, ?_⟩
  · intro i j hj
    obtain ⟨e, he, hsource, htarget⟩ := hwhole.mem_children_iff.mp hj
    rw [hback, ← htarget, ← hedge e he, hsource]
    exact hmem i
  · intro i j hj
    obtain ⟨e, he, hsource, htarget⟩ := hwhole.mem_parents_iff.mp hj
    rw [hback, ← hsource, hedge e he, htarget]
    exact hmem i

/-- A turn has parents in the whole exactly if it has some in its component. -/
lemma Component.isEmpty_parents {side whole : Graph} {part : Part side.size whole.size}
    (h : side.Component whole part) (i : Fin side.size) :
    (whole.adjacency.parents.get (part.embed i)).isEmpty =
      (side.adjacency.parents.get i).isEmpty := by
  rw [← part.map_embed_filterMap_back (h.parents i), h.embeds.parents, List.isEmpty_map]

/-- A graph that is complete in itself has a turn without parents. -/
lemma Standalone.orphans_ne_nil {g : Graph} (h : g.Standalone) : g.adjacency.orphans ≠ [] := by
  obtain ⟨t, ht, hstart⟩ := h.start
  obtain ⟨i, rfl⟩ := List.get_of_mem ht
  have hnone : g.adjacency.parents.get i = [] := by
    refine List.eq_nil_iff_forall_not_mem.mpr fun j hj => ?_
    obtain ⟨e, he, -, htarget⟩ := h.ids.mem_parents_iff.mp hj
    exact hstart e he htarget
  exact List.ne_nil_of_mem (Adjacency.mem_orphans.mpr hnone)

/-- In a graph with distinct ids the place of a turn is told by its id. -/
lemma UniqueIds.val_eq {g : Graph} (hg : g.UniqueIds) {j : Fin g.size} {k : Nat}
    (h : g.turns[k]? = some (g.turns.get j)) : j.val = k := by
  obtain ⟨hk, hget⟩ := List.getElem?_eq_some_iff.mp h
  exact congrArg Fin.val (hg.id_inj (j := ⟨k, hk⟩) (congrArg Turn.id hget.symm))

namespace Joins

variable {whole front back : Graph} (h : whole.Joins front back)

include h

/-- The ids of the whole are distinct. -/
lemma uniqueIds (hfront : front.UniqueIds) (hback : back.UniqueIds) : whole.UniqueIds := by
  unfold UniqueIds
  rw [h.turns, List.map_append]
  refine hfront.append hback ?_
  intro id hid hid'
  exact h.apart id hid hid'

/-- The front part is a component of the whole. -/
lemma exists_front (hfront : front.Standalone) (hback : back.Standalone) :
    ∃ part, front.Component whole part := by
  refine exists_component (h.uniqueIds hfront.ids hback.ids) ?_ h.edges
    (fun e he => ⟨hfront.sources e he, hfront.targets e he⟩)
    (fun e he => ⟨fun hid => h.apart _ hid (hback.sources e he),
      fun hid => h.apart _ hid (hback.targets e he)⟩)
  rw [h.turns, List.filter_append, List.filter_eq_self.mpr, List.filter_eq_nil_iff.mpr,
    List.append_nil]
  · intro t ht hid
    exact h.apart _ (of_decide_eq_true hid) (List.mem_map_of_mem ht)
  · intro t ht
    exact decide_eq_true (List.mem_map_of_mem ht)

/-- The other part is a component of the whole. -/
lemma exists_back (hfront : front.Standalone) (hback : back.Standalone) :
    ∃ part, back.Component whole part := by
  refine exists_component (h.uniqueIds hfront.ids hback.ids) ?_ h.edges.swap
    (fun e he => ⟨hback.sources e he, hback.targets e he⟩)
    (fun e he => ⟨h.apart _ (hfront.sources e he), h.apart _ (hfront.targets e he)⟩)
  rw [h.turns, List.filter_append, List.filter_eq_nil_iff.mpr, List.filter_eq_self.mpr,
    List.nil_append]
  · intro t ht
    exact decide_eq_true (List.mem_map_of_mem ht)
  · intro t ht hid
    exact h.apart _ (List.mem_map_of_mem ht) (of_decide_eq_true hid)

section Roots

variable {partF : Part front.size whole.size} {partB : Part back.size whole.size}
  (hfront : front.Standalone) (hback : back.Standalone) (hF : front.Component whole partF)
  (hB : back.Component whole partB)

include hfront hback hF hB

/-- The turns of the front part come first. -/
lemma val_embed : (∀ i, (partF.embed i).val = i.val) ∧
    ∀ i, (partB.embed i).val = front.size + i.val := by
  have hwhole := h.uniqueIds hfront.ids hback.ids
  constructor
  · intro i
    refine hwhole.val_eq ?_
    rw [hF.turn, h.turns, List.getElem?_append_left i.isLt]
    exact List.getElem?_eq_getElem i.isLt
  · intro i
    refine hwhole.val_eq ?_
    rw [hB.turn, h.turns, List.getElem?_append_right (Nat.le_add_right _ _),
      Nat.add_sub_cancel_left]
    exact List.getElem?_eq_getElem i.isLt

/-- All turns are those of the front part and then those of the other part. -/
lemma finRange_eq :
    List.finRange whole.size =
      (List.finRange front.size).map partF.embed ++ (List.finRange back.size).map partB.embed := by
  obtain ⟨hvalF, hvalB⟩ := h.val_embed hfront hback hF hB
  have hsize : whole.size = front.size + back.size := by
    unfold size
    rw [h.turns, List.length_append]
  have hvalsF : (List.finRange front.size).map (Fin.val ∘ partF.embed) =
      List.range front.size := by
    rw [← List.map_coe_finRange_eq_range]
    exact List.map_congr_left fun i _ => hvalF i
  have hvalsB : (List.finRange back.size).map (Fin.val ∘ partB.embed) =
      (List.range back.size).map (front.size + ·) := by
    rw [← List.map_coe_finRange_eq_range, List.map_map]
    exact List.map_congr_left fun i _ => hvalB i
  refine List.map_injective_iff.mpr Fin.val_injective ?_
  rw [List.map_append, List.map_map, List.map_map, hvalsF, hvalsB, ← List.range_add,
    List.map_coe_finRange_eq_range, hsize]

/-- The layout of the whole starts with the roots of the front part and goes on with those of the
other part. -/
lemma roots :
    whole.roots whole.adjacency =
      (front.roots front.adjacency).map partF.embed ++
        (back.roots back.adjacency).map partB.embed := by
  have horphans : whole.adjacency.orphans =
      front.adjacency.orphans.map partF.embed ++ back.adjacency.orphans.map partB.embed := by
    unfold Adjacency.orphans
    rw [h.finRange_eq hfront hback hF hB, List.filter_append, List.filter_map, List.filter_map]
    congr 2
    · exact List.filter_congr fun i _ => hF.isEmpty_parents i
    · exact List.filter_congr fun i _ => hB.isEmpty_parents i
  have hne : whole.adjacency.orphans ≠ [] := by
    rw [horphans]
    exact List.append_ne_nil_of_left_ne_nil (by simpa using hfront.orphans_ne_nil) _
  rw [roots_of_orphans_ne_nil hne, roots_of_orphans_ne_nil hfront.orphans_ne_nil,
    roots_of_orphans_ne_nil hback.orphans_ne_nil, horphans]

/-- No turn belongs to both parts. -/
lemma embed_ne (i : Fin front.size) (j : Fin back.size) : partF.embed i ≠ partB.embed j := by
  obtain ⟨hvalF, hvalB⟩ := h.val_embed hfront hback hF hB
  intro heq
  have hval := congrArg Fin.val heq
  rw [hvalF, hvalB] at hval
  omega

end Roots

end Joins

end Graph

/-! ### The layout of the whole -/

/-- In exact arithmetic a constant distance between levels is kept. -/
lemma Packing.levelRelation_shift (c : ℚ) :
    Packing.LevelRelation fun u v : ℚ => v = u + c where
  add := by
    rintro u v k rfl
    ring
  add_height := by
    intro above above' height height' k h
    rw [← add_assoc, h]
    ring

/-- The corner of a slot that was lifted by a constant distance. -/
lemma Packing.Slot.Lifted.corner?_shift {c : ℚ} {slot slot' : Packing.Slot ℚ}
    (h : Packing.Slot.Lifted (fun u v => v = u + c) slot slot') :
    slot'.corner? = slot.corner?.map fun p => ⟨p.x, p.y + c⟩ := by
  cases h with
  | free => rfl
  | pending => rfl
  | placed column x hy =>
    subst hy
    rfl

namespace Layout

/-- The turns of a component are found at the corners of its slots, in its own layout and in that
of the whole. -/
lemma position?_component {α : Type} [Coordinate α] {side whole : Graph}
    {part : Part side.size whole.size} (h : side.Component whole part) (hside : side.UniqueIds)
    (hwhole : whole.UniqueIds) (engine : Engine) (settings : LayoutSettings α) {t : Turn}
    (ht : t ∈ side.turns) :
    ∃ i, (ofGraph engine settings side).position? t.id =
        ((slots engine settings side).get i).corner? ∧
      (ofGraph engine settings whole).position? t.id =
        ((slots engine settings whole).get (part.embed i)).corner? := by
  obtain ⟨i, rfl⟩ := List.get_of_mem ht
  refine ⟨i, ?_, ?_⟩
  · rw [ofGraph_eq, position?_turn hside]
  · rw [ofGraph_eq, ← h.turn, position?_turn hwhole]

/-- The slots of the whole: those of the front part, and those of the other part up to levels that
start at another height. -/
lemma slots_joins {α : Type} [Coordinate α] {whole front back : Graph}
    (h : whole.Joins front back) (hfront : front.Standalone) (hback : back.Standalone)
    {partF : Part front.size whole.size} {partB : Part back.size whole.size}
    (hF : front.Component whole partF) (hB : back.Component whole partB)
    (settings : LayoutSettings α) :
    partF.Agrees (slots .basic settings front) (slots .basic settings whole) ∧
      ∃ height, ∀ R : α → α → Prop, Packing.LevelRelation R → R (0 + 0) (0 + height) →
        Packing.Lifted partB R (slots .basic settings back) (slots .basic settings whole) := by
  unfold slots
  rw [h.roots hfront hback hF hB]
  exact Packing.run_append hF.embeds hB.embeds (h.embed_ne hfront hback hF hB) _ _ _

/-- An independent part does not move what is there.  Let two graphs have distinct ids and share
none, have edges between their own turns only, and a turn each to which no edge leads.  Join them:
the turns of the one before those of the other, and the edges of both in any order that keeps their
orders.  With all settings, the basic layout of the whole gives every turn of the front graph the
position that it has in the layout of this graph, in every arithmetic; every turn of the other
graph the left side that it has there; and in exact arithmetic also its level there, plus a
distance that is the same for all of them. -/
theorem independent_part_stays (front back whole : Graph) (hfront : front.Standalone)
    (hback : back.Standalone) (h : whole.Joins front back) :
    (∀ (α : Type) [Coordinate α] (settings : LayoutSettings α),
      (∀ t ∈ front.turns, (ofGraph .basic settings whole).position? t.id =
        (ofGraph .basic settings front).position? t.id) ∧
      ∀ t ∈ back.turns, ((ofGraph .basic settings whole).position? t.id).map Point.x =
        ((ofGraph .basic settings back).position? t.id).map Point.x) ∧
    ∀ settings : LayoutSettings ℚ, ∃ shift : ℚ, ∀ t ∈ back.turns,
      (ofGraph .basic settings whole).position? t.id =
        ((ofGraph .basic settings back).position? t.id).map fun p => ⟨p.x, p.y + shift⟩ := by
  obtain ⟨partF, hF⟩ := h.exists_front hfront hback
  obtain ⟨partB, hB⟩ := h.exists_back hfront hback
  have hwhole := h.uniqueIds hfront.ids hback.ids
  refine ⟨fun α _ settings => ⟨?_, ?_⟩, ?_⟩
  · intro t ht
    obtain ⟨i, hown, hthere⟩ := position?_component hF hfront.ids hwhole .basic settings ht
    rw [hown, hthere, (slots_joins h hfront hback hF hB settings).1 i]
  · intro t ht
    obtain ⟨-, height, hlifted⟩ := slots_joins h hfront hback hF hB settings
    obtain ⟨i, hown, hthere⟩ := position?_component hB hback.ids hwhole .basic settings ht
    rw [hown, hthere]
    -- Nothing needs to be known of the levels here.
    exact (hlifted (fun _ _ => True) ⟨fun _ _ => trivial, fun _ _ => trivial⟩ trivial i).x_eq
  · intro settings
    obtain ⟨-, height, hlifted⟩ := slots_joins h hfront hback hF hB settings
    refine ⟨height, fun t ht => ?_⟩
    obtain ⟨i, hown, hthere⟩ := position?_component hB hback.ids hwhole .basic settings ht
    rw [hown, hthere]
    refine (hlifted _ (Packing.levelRelation_shift height) ?_ i).corner?_shift
    rw [add_zero]

/-- A turn with two children, and a chain that ends in a cycle, with mixed edges: the children stay
where they are, and the chain is moved down by both rows of the children, cycle and all. -/
theorem independent_part_stays_cycle :
    let front : Graph :=
      { turns := [⟨"a", "a", .bot, "f"⟩, ⟨"b", "b", .user, "f"⟩, ⟨"c", "c", .user, "f"⟩]
        edges := [⟨"a", "b"⟩, ⟨"a", "c"⟩] }
    let back : Graph :=
      { turns := [⟨"y", "y", .bot, "f"⟩, ⟨"x", "x", .user, "f"⟩, ⟨"z", "z", .user, "f"⟩]
        edges := [⟨"x", "y"⟩, ⟨"y", "z"⟩, ⟨"z", "y"⟩] }
    let whole : Graph :=
      { turns := front.turns ++ back.turns
        edges := [⟨"x", "y"⟩, ⟨"a", "b"⟩, ⟨"y", "z"⟩, ⟨"a", "c"⟩, ⟨"z", "y"⟩] }
    let settings : LayoutSettings ℚ := ⟨⟨⟨160, 69⟩, 100, 40⟩, ⟨1 / 10, 1 / 100, 2, none⟩⟩
    front.Standalone ∧ back.Standalone ∧ whole.Joins front back ∧
      (ofGraph .basic settings front).position? "b" = some ⟨260, 40⟩ ∧
      (ofGraph .basic settings whole).position? "b" = some ⟨260, 40⟩ ∧
      (ofGraph .basic settings front).position? "c" = some ⟨260, 149⟩ ∧
      (ofGraph .basic settings whole).position? "c" = some ⟨260, 149⟩ ∧
      (ofGraph .basic settings back).position? "y" = some ⟨260, 40⟩ ∧
      (ofGraph .basic settings whole).position? "y" = some ⟨260, 258⟩ ∧
      (ofGraph .basic settings back).position? "z" = some ⟨520, 40⟩ ∧
      (ofGraph .basic settings whole).position? "z" = some ⟨520, 258⟩ ∧
      ∀ t ∈ back.turns, (ofGraph .basic settings whole).position? t.id =
        ((ofGraph .basic settings back).position? t.id).map fun p => ⟨p.x, p.y + 218⟩ := by
  intro front back whole settings
  have hfront : front.Standalone :=
    ⟨by unfold Graph.UniqueIds; decide, by decide, by decide, _, .head _, by decide⟩
  have hback : back.Standalone :=
    ⟨by unfold Graph.UniqueIds; decide, by decide, by decide, _, .tail _ (.head _), by decide⟩
  have hjoins : whole.Joins front back :=
    ⟨by decide, rfl, .right (.left (.right (.left (.right .nil))))⟩
  obtain ⟨hsame, hshift⟩ := independent_part_stays front back whole hfront hback hjoins
  obtain ⟨shift, hmoved⟩ := hshift settings
  have hb : (ofGraph .basic settings front).position? "b" = some ⟨260, 40⟩ := by cbv
  have hc : (ofGraph .basic settings front).position? "c" = some ⟨260, 149⟩ := by cbv
  have hy : (ofGraph .basic settings back).position? "y" = some ⟨260, 40⟩ := by cbv
  have hz : (ofGraph .basic settings back).position? "z" = some ⟨520, 40⟩ := by cbv
  have hdown : (ofGraph .basic settings whole).position? "y" = some ⟨260, 258⟩ := by cbv
  obtain rfl : shift = 218 := by
    have h := hmoved _ (.head _)
    rw [hy, hdown, Option.map_some, Option.some.injEq, Point.mk.injEq] at h
    linarith [h.2]
  have hlast : (ofGraph .basic settings whole).position? "z" = some ⟨520, 258⟩ := by
    have h := hmoved _ (.tail _ (.tail _ (.head _)))
    rw [hz, Option.map_some] at h
    norm_num [h]
  have hstay := (hsame ℚ settings).1
  exact ⟨hfront, hback, hjoins, hb, (hstay _ (.tail _ (.head _))).trans hb, hc,
    (hstay _ (.tail _ (.tail _ (.head _)))).trans hc, hy, hdown, hz, hlast, hmoved⟩

end Layout

end DialogChart
