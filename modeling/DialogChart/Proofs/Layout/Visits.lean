import DialogChart.Proofs.Layout.Coverage
import Mathlib.Data.List.Basic
import Mathlib.Data.List.Nodup

/-!
# Visits

The walk visits a turn when it comes upon it for the first time: the turn is marked, its children
are stacked, and when their stack is finished the turn is placed.  A `Visit` is the pair of the two
states at which this begins and ends, both read off the walk itself.  The stack that is finished at
the end holds what decides the place of the turn: the height above it and the height of its
children.

The states of the walk lie in one line, and it never comes back to the same siblings of the same
stack (`faces_unique`), because waiting siblings only become fewer and a turn that was placed owns
no stack any more.  So every turn that is placed has exactly one visit, and what happens during it
is what the recursion does with the children of the turn (`Visit.course`).
-/

namespace DialogChart

namespace Packing

variable {α : Type} {n : Nat} [Coordinate α] {adj : Adjacency n}
  {ranks : Option (Vector (Option α) n)} {spacing : Spacing α} {roots : List (Fin n)}

/-! ### The line of states -/

/-- Of two states that a walk comes to, one lies on the way to the other. -/
lemma Moves.linear {s t u : State α n} (ht : Moves adj ranks spacing s t)
    (hu : Moves adj ranks spacing s u) :
    Moves adj ranks spacing t u ∨ Moves adj ranks spacing u t := by
  have hunique : Relator.RightUnique fun a b : State α n => step adj ranks spacing a = some b := by
    intro a b c hb hc
    exact Option.some.inj (hb.symm.trans hc)
  exact Relation.ReflTransGen.total_of_right_unique hunique ht hu

/-- A condition that does not come back after a move holds in one state only. -/
lemma Moves.eq_of_once {P : State α n → Prop} {s t u : State α n}
    (honce : ∀ a b c, Moves adj ranks spacing s a → P a → step adj ranks spacing a = some b →
      Moves adj ranks spacing b c → ¬ P c)
    (ht : Moves adj ranks spacing s t) (hu : Moves adj ranks spacing s u) (hPt : P t)
    (hPu : P u) : t = u := by
  rcases ht.linear hu with h | h
  · rcases Relation.ReflTransGen.cases_head h with heq | ⟨b, hstep, hb⟩
    · exact heq
    · exact absurd hPu (honce t b u ht hPt hstep hb)
  · rcases Relation.ReflTransGen.cases_head h with heq | ⟨b, hstep, hb⟩
    · exact heq.symm
    · exact absurd hPt (honce u b t hu hPu hstep hb)

/-- Every state of the walk from the roots lies on the way to the last one. -/
lemma Moves.exists_last {s : State α n} (h : Moves adj ranks spacing (begin ranks roots) s) :
    ∃ last : State α n, Moves adj ranks spacing s last ∧
      last.slots = run adj roots ranks spacing := by
  obtain ⟨last, hlast, hstop, hslots⟩ := moves_begin adj ranks spacing roots
  rw [← run_eq_stack] at hslots
  rcases h.linear hlast with hs | hs
  · exact ⟨last, hs, hslots⟩
  · rcases Relation.ReflTransGen.cases_head hs with rfl | ⟨b, hstep, -⟩
    · exact ⟨last, .refl, hslots⟩
    · rw [hstop] at hstep
      cases hstep

/-! ### The owners of the stacks -/

/-- The siblings of a stack as they come: the roots, or the children of its owner. -/
def siblingsOf (adj : Adjacency n) (roots : List (Fin n)) : Option (Fin n) → List (Fin n)
  | none => roots
  | some i => adj.children.get i

/-- What holds of the stacks in every state of the walk from the roots. -/
structure Tracked (adj : Adjacency n) (ranks : Option (Vector (Option α) n))
    (roots : List (Fin n)) (s : State α n) : Prop where
  /-- Every stack goes through its siblings in their order. -/
  siblings : ∀ f ∈ s.frames,
    f.met.reverse ++ f.waiting = ordered ranks (siblingsOf adj roots f.owner)
  /-- No two stacks have the same owner. -/
  nodup : (s.frames.map (·.owner)).Nodup
  /-- The owners are the turns that were met and not yet placed. -/
  pending : ∀ i, some i ∈ s.frames.map (·.owner) ↔ s.slots.get i = .pending

/-- The walk begins with the stack of the roots. -/
lemma tracked_begin : Tracked adj ranks roots (begin ranks roots) := by
  refine ⟨?_, ?_, ?_⟩
  · intro f hf
    obtain rfl := List.mem_singleton.mp hf
    rfl
  · exact List.nodup_singleton _
  · intro i
    simp [begin, frame]

omit [Coordinate α] in
/-- The owner of a finished stack is placed, and the other owners stay. -/
lemma pending_place {slots : Vector (Slot α) n} {i : Fin n} {others : List (Option (Fin n))}
    (hnodup : (some i :: others).Nodup)
    (hpending : ∀ j, some j ∈ some i :: others ↔ slots.get j = .pending) (column : Nat)
    (corner : Point α) (j : Fin n) :
    some j ∈ others ↔ (slots.set i (.placed column corner) i.isLt).get j = .pending := by
  rw [List.nodup_cons] at hnodup
  rw [get_set]
  by_cases hji : j = i
  · rw [if_pos hji, hji]
    exact iff_of_false hnodup.1 (fun h => by cases h)
  · rw [if_neg hji, ← hpending j, List.mem_cons, Option.some.injEq]
    exact (or_iff_right hji).symm

/-- A move keeps the stacks in order. -/
lemma Tracked.move {s t : State α n} (h : Tracked adj ranks roots s)
    (hmove : Move adj ranks spacing s t) : Tracked adj ranks roots t := by
  obtain ⟨hsiblings, hnodup, hpending⟩ := h
  cases hmove with
  | @skip slots i owner met rest above column height below hmet =>
    rw [List.forall_mem_cons] at hsiblings
    refine ⟨?_, hnodup, hpending⟩
    rw [List.forall_mem_cons]
    refine ⟨?_, hsiblings.2⟩
    rw [List.reverse_cons, List.append_assoc]
    exact hsiblings.1
  | @descend slots i owner met rest above column height below hfree =>
    rw [List.forall_mem_cons] at hsiblings
    refine ⟨?_, ?_, ?_⟩
    · rw [List.forall_mem_cons, List.forall_mem_cons]
      refine ⟨rfl, ?_, hsiblings.2⟩
      rw [List.reverse_cons, List.append_assoc]
      exact hsiblings.1
    · refine List.nodup_cons.mpr ⟨?_, hnodup⟩
      intro hmem
      rw [(hpending i).mp hmem] at hfree
      cases hfree
    · intro j
      rw [get_set, List.map_cons, List.mem_cons, Option.some.injEq]
      by_cases hji : j = i
      · simp [hji]
      · rw [if_neg hji]
        exact (or_iff_right hji).trans (hpending j)
  | @ascend slots i met above column tall outer below =>
    rw [List.forall_mem_cons, List.forall_mem_cons] at hsiblings
    refine ⟨?_, (List.nodup_cons.mp hnodup).2, pending_place hnodup hpending _ _⟩
    rw [List.forall_mem_cons]
    exact hsiblings.2
  | leave =>
    exact ⟨fun f hf => (by cases hf), List.nodup_nil, pending_place hnodup hpending _ _⟩

/-- Moves keep the stacks in order. -/
lemma Tracked.moves {s t : State α n} (h : Tracked adj ranks roots s)
    (hmoves : Moves adj ranks spacing s t) : Tracked adj ranks roots t := by
  induction hmoves with
  | refl => exact h
  | tail _ hstep ih => exact ih.move (move_of_step hstep)

/-- The walk from the roots keeps its stacks in order. -/
lemma Moves.tracked {s : State α n} (h : Moves adj ranks spacing (begin ranks roots) s) :
    Tracked adj ranks roots s :=
  tracked_begin.moves h

/-- A stack is told by its owner. -/
lemma Tracked.frame_eq {s : State α n} (h : Tracked adj ranks roots s) {f f' : Frame α n}
    (hf : f ∈ s.frames) (hf' : f' ∈ s.frames) (howner : f.owner = f'.owner) : f = f' :=
  List.inj_on_of_nodup_map h.nodup hf hf' howner

/-- The owner of a stack has been met. -/
lemma Tracked.met {s : State α n} (h : Tracked adj ranks roots s) {f : Frame α n}
    (hf : f ∈ s.frames) {i : Fin n} (howner : f.owner = some i) :
    s.slots.get i = .pending := by
  rw [← h.pending i, ← howner]
  exact List.mem_map_of_mem hf

/-! ### What moves keep -/

/-- A move leaves a slot as it is, or marks a turn that has not been met, or places a turn that was
marked. -/
lemma Move.slot_cases {s t : State α n} (h : Move adj ranks spacing s t)
    (hs : Tracked adj ranks roots s) (j : Fin n) :
    t.slots.get j = s.slots.get j ∨
      ((s.slots.get j).isFree = true ∧ t.slots.get j = .pending) ∨
      (s.slots.get j = .pending ∧ ∃ c p, t.slots.get j = .placed c p) := by
  cases h with
  | skip => exact .inl rfl
  | @descend slots i _ _ _ _ _ _ _ hfree =>
    dsimp only
    rw [get_set]
    by_cases hji : j = i
    · rw [if_pos hji, hji]
      exact .inr (.inl ⟨hfree, rfl⟩)
    · exact .inl (if_neg hji)
  | @ascend slots i | @leave slots i =>
    have hpending : slots.get i = .pending := hs.met List.mem_cons_self rfl
    dsimp only
    rw [get_set]
    by_cases hji : j = i
    · rw [if_pos hji, hji]
      exact .inr (.inr ⟨hpending, _, _, rfl⟩)
    · exact .inl (if_neg hji)

/-- A turn that has been met stays so. -/
lemma Moves.met {s t : State α n} (h : Moves adj ranks spacing s t)
    (hs : Tracked adj ranks roots s) {j : Fin n} (hj : (s.slots.get j).isFree = false) :
    (t.slots.get j).isFree = false := by
  induction h with
  | refl => exact hj
  | tail hmoves hstep ih =>
    rcases (move_of_step hstep).slot_cases (hs.moves hmoves) j with
      heq | ⟨-, heq⟩ | ⟨-, c, p, heq⟩
    · rw [heq]
      exact ih
    · rw [heq]
      rfl
    · rw [heq]
      rfl

/-- A turn that has been placed keeps its place. -/
lemma Moves.placed {s t : State α n} (h : Moves adj ranks spacing s t)
    (hs : Tracked adj ranks roots s) {j : Fin n} {c : Nat} {p : Point α}
    (hj : s.slots.get j = .placed c p) : t.slots.get j = .placed c p := by
  induction h with
  | refl => exact hj
  | tail hmoves hstep ih =>
    rcases (move_of_step hstep).slot_cases (hs.moves hmoves) j with
      heq | ⟨hfree, -⟩ | ⟨hpending, -⟩
    · rw [heq, ih]
    · rw [ih] at hfree
      cases hfree
    · rw [ih] at hpending
      cases hpending

/-- A turn that was placed on the way keeps its place to the end. -/
lemma Moves.run_placed {s : State α n} (h : Moves adj ranks spacing (begin ranks roots) s)
    {j : Fin n} {c : Nat} {p : Point α} (hj : s.slots.get j = .placed c p) :
    (run adj roots ranks spacing).get j = .placed c p := by
  obtain ⟨last, hlast, hslots⟩ := h.exists_last
  rw [← hslots]
  exact hlast.placed h.tracked hj

/-- A stack after a move is a stack from before the move, with no more siblings to come, or the
stack of a turn that had not been met. -/
lemma Move.waiting_cases {s t : State α n} (h : Move adj ranks spacing s t) {f : Frame α n}
    (hf : f ∈ t.frames) :
    (∃ f' ∈ s.frames, f'.owner = f.owner ∧ f.waiting <:+ f'.waiting) ∨
      ∃ i, f.owner = some i ∧ (s.slots.get i).isFree = true := by
  cases h with
  | skip =>
    rcases List.mem_cons.mp hf with rfl | hf
    · exact .inl ⟨_, List.mem_cons_self, rfl, List.suffix_cons _ _⟩
    · exact .inl ⟨f, List.mem_cons_of_mem _ hf, rfl, List.suffix_rfl⟩
  | @descend slots i _ _ _ _ _ _ _ hfree =>
    rcases List.mem_cons.mp hf with rfl | hf
    · exact .inr ⟨i, rfl, hfree⟩
    · rcases List.mem_cons.mp hf with rfl | hf
      · exact .inl ⟨_, List.mem_cons_self, rfl, List.suffix_cons _ _⟩
      · exact .inl ⟨f, List.mem_cons_of_mem _ hf, rfl, List.suffix_rfl⟩
  | @ascend slots i met above column tall outer below =>
    rcases List.mem_cons.mp hf with rfl | hf
    · exact .inl ⟨outer, List.mem_cons_of_mem _ List.mem_cons_self, rfl, List.suffix_rfl⟩
    · exact .inl ⟨f, List.mem_cons_of_mem _ (List.mem_cons_of_mem _ hf), rfl, List.suffix_rfl⟩
  | leave => cases hf

/-- The siblings that wait in the stack of an owner become fewer. -/
lemma Moves.waiting_suffix {s t : State α n} (h : Moves adj ranks spacing s t)
    (hs : Tracked adj ranks roots s) {f f' : Frame α n} (hf : f ∈ s.frames) (hf' : f' ∈ t.frames)
    (howner : f.owner = f'.owner) : f'.waiting <:+ f.waiting := by
  induction h generalizing f' with
  | refl =>
    obtain rfl := hs.frame_eq hf hf' howner
    exact List.suffix_rfl
  | tail hmoves hstep ih =>
    rcases (move_of_step hstep).waiting_cases hf' with ⟨g, hg, hgowner, hsuffix⟩ | ⟨i, hi, hfree⟩
    · exact hsuffix.trans (ih hg (howner.trans hgowner.symm))
    · -- The owner had been met before, so the stack is not a new one.
      have hpending := hs.met hf (howner.trans hi)
      have hmet := Moves.met hmoves hs (j := i) (by rw [hpending]; rfl)
      rw [hfree] at hmet
      cases hmet

/-! ### States that are told by their innermost stack -/

/-- The innermost stack has a given owner and given siblings to come. -/
def Faces (owner : Option (Fin n)) (waiting : List (Fin n)) (s : State α n) : Prop :=
  ∃ top below, s.frames = top :: below ∧ top.owner = owner ∧ top.waiting = waiting

/-- The walk does not come back to the same siblings of the same stack. -/
lemma faces_unique {owner : Option (Fin n)} {waiting : List (Fin n)} {s t : State α n}
    (hs : Moves adj ranks spacing (begin ranks roots) s)
    (ht : Moves adj ranks spacing (begin ranks roots) t) (hfs : Faces owner waiting s)
    (hft : Faces owner waiting t) : s = t := by
  refine Moves.eq_of_once ?_ hs ht hfs hft
  rintro a b c ha ⟨top, below, htop, howner, hwaiting⟩ hstep hbc
    ⟨last, rest, hlast, howner', hwaits⟩
  have hb : Tracked adj ranks roots b := ha.tracked.move (move_of_step hstep)
  have hmem : last ∈ c.frames := by
    rw [hlast]
    exact List.mem_cons_self
  -- Once a sibling was taken, fewer are waiting in the stack.
  have hfewer : ∀ f ∈ b.frames, f.owner = owner → f.waiting.length < waiting.length → False := by
    intro f hf hfowner hlt
    have hsuffix := hbc.waiting_suffix hb hf hmem (hfowner.trans howner'.symm)
    rw [hwaits] at hsuffix
    exact absurd hsuffix.length_le (Nat.not_le_of_lt hlt)
  -- Once the owner is placed, it has no stack.
  have hplaced : ∀ i c' p, owner = some i → b.slots.get i = .placed c' p → False := by
    intro i c' p hi hp
    have hkept := hbc.placed hb hp
    rw [(hb.moves hbc).met hmem (howner'.trans hi)] at hkept
    cases hkept
  cases move_of_step hstep with
  | skip =>
    cases htop
    subst howner hwaiting
    exact hfewer _ List.mem_cons_self rfl (Nat.lt_succ_self _)
  | descend =>
    cases htop
    subst howner hwaiting
    exact hfewer _ (List.mem_cons_of_mem _ List.mem_cons_self) rfl (Nat.lt_succ_self _)
  | ascend | leave =>
    cases htop
    exact hplaced _ _ _ howner.symm (by rw [get_set, if_pos rfl])

/-- The next sibling of the innermost stack is a given turn, which has not been met. -/
def Opens (i : Fin n) (s : State α n) : Prop :=
  ∃ top below later, s.frames = top :: below ∧ top.waiting = i :: later ∧
    (s.slots.get i).isFree = true

/-- A turn is met for the first time in one state only. -/
lemma opens_unique {i : Fin n} {s t : State α n}
    (hs : Moves adj ranks spacing (begin ranks roots) s)
    (ht : Moves adj ranks spacing (begin ranks roots) t) (hos : Opens i s) (hot : Opens i t) :
    s = t := by
  refine Moves.eq_of_once ?_ hs ht hos hot
  rintro a b c ha ⟨top, below, later, htop, hwaiting, hfree⟩ hstep hbc ⟨-, -, -, -, -, hfree'⟩
  have hb : Tracked adj ranks roots b := ha.tracked.move (move_of_step hstep)
  have hmet : (b.slots.get i).isFree = false := by
    cases move_of_step hstep with
    | skip hmet =>
      cases htop
      cases hwaiting
      exact hmet
    | descend =>
      cases htop
      cases hwaiting
      dsimp only
      rw [get_set, if_pos rfl]
      rfl
    | ascend | leave =>
      cases htop
      cases hwaiting
  rw [hbc.met hb hmet] at hfree'
  cases hfree'

/-- A move that marks a turn does so because the turn is the next sibling. -/
lemma Move.opens {s t : State α n} (h : Move adj ranks spacing s t)
    (hs : Tracked adj ranks roots s) {i : Fin n} (hfree : (s.slots.get i).isFree = true)
    (hmet : (t.slots.get i).isFree = false) : Opens i s := by
  cases h with
  | skip =>
    rw [hfree] at hmet
    cases hmet
  | @descend slots j =>
    by_cases hij : i = j
    · subst hij
      exact ⟨_, _, _, rfl, rfl, hfree⟩
    · rw [get_set, if_neg hij, hfree] at hmet
      cases hmet
  | @ascend slots j | @leave slots j =>
    by_cases hij : i = j
    · rw [hij, hs.met List.mem_cons_self rfl] at hfree
      cases hfree
    · rw [get_set, if_neg hij, hfree] at hmet
      cases hmet

/-- Where a turn that has not been met comes next, a stack for its children is opened. -/
lemma step_next {slots : Vector (Slot α) n} {outer : Frame α n} {i : Fin n}
    {later : List (Fin n)} (hnext : outer.waiting = i :: later)
    (hfree : (slots.get i).isFree = true) (below : List (Frame α n)) :
    step adj ranks spacing ⟨slots, outer :: below⟩ =
      some ⟨slots.set i .pending i.isLt,
        ⟨some i, [], ordered ranks (adj.children.get i), outer.above + outer.height,
          outer.column + 1, 0⟩ ::
          { outer with met := i :: outer.met, waiting := later } :: below⟩ := by
  obtain ⟨owner, met, waiting, above, column, height⟩ := outer
  cases hnext
  exact step_open hfree _ _ _ _ _ _ _

/-! ### Visits -/

/-- A visit of a turn: the walk comes upon the turn in some stack when it has not been met, goes on
until the stack of its children is finished, and then leaves the turn. -/
structure Visit (adj : Adjacency n) (ranks : Option (Vector (Option α) n)) (spacing : Spacing α)
    (roots : List (Fin n)) (i : Fin n) where
  /-- The slots when the walk comes upon the turn. -/
  before : Vector (Slot α) n
  /-- The stack in which the turn stands, at that time. -/
  outer : Frame α n
  /-- The stacks around that one. -/
  below : List (Frame α n)
  /-- The siblings after the turn. -/
  later : List (Fin n)
  /-- The slots when the children are stacked. -/
  after : Vector (Slot α) n
  /-- The finished stack of the children. -/
  own : Frame α n
  /-- The stacks around the stack of the children. -/
  around : List (Frame α n)
  /-- The state in which the walk leaves the turn. -/
  left : State α n
  reached : Moves adj ranks spacing (begin ranks roots) ⟨before, outer :: below⟩
  next : outer.waiting = i :: later
  fresh : (before.get i).isFree = true
  stacked : Moves adj ranks spacing ⟨before, outer :: below⟩ ⟨after, own :: around⟩
  owner : own.owner = some i
  finished : own.waiting = []
  leaves : step adj ranks spacing ⟨after, own :: around⟩ = some left

namespace Visit

variable {i : Fin n}

/-- The height above the turn. -/
def above (v : Visit adj ranks spacing roots i) : α :=
  v.own.above

/-- The height of the children of the turn. -/
def stack (v : Visit adj ranks spacing roots i) : α :=
  stackHeight spacing v.own.height

/-- The height that the turn reserves in its stack. -/
def reserved (v : Visit adj ranks spacing roots i) : α :=
  Coordinate.larger spacing.nodeSize.height v.stack

/-- A turn has no place before the visit and has one when the walk leaves. -/
def Places (v : Visit adj ranks spacing roots i) (j : Fin n) : Prop :=
  (∀ c p, v.before.get j ≠ .placed c p) ∧ ∃ c p, v.left.slots.get j = .placed c p

/-- A turn has at most one visit. -/
lemma unique (v w : Visit adj ranks spacing roots i) : v = w := by
  have hopen := opens_unique v.reached w.reached ⟨_, _, _, rfl, v.next, v.fresh⟩
    ⟨_, _, _, rfl, w.next, w.fresh⟩
  have hclose := faces_unique (v.reached.trans v.stacked) (w.reached.trans w.stacked)
    ⟨_, _, rfl, v.owner, v.finished⟩ ⟨_, _, rfl, w.owner, w.finished⟩
  have hleft : some v.left = some w.left := by rw [← v.leaves, ← w.leaves, hclose]
  have hlater : i :: v.later = i :: w.later := by
    rw [← v.next, ← w.next, (List.cons.inj (State.mk.inj hopen).2).1]
  cases v
  cases w
  cases hopen
  cases hclose
  cases hleft
  cases hlater
  rfl

/-- Where the walk comes upon a turn, the recursion gives the rest of the visit. -/
def ofStacks {before inner : Vector (Slot α) n} {outer : Frame α n} {below : List (Frame α n)}
    {later : List (Fin n)} {tall : α}
    (reached : Moves adj ranks spacing (begin ranks roots) ⟨before, outer :: below⟩)
    (next : outer.waiting = i :: later) (fresh : (before.get i).isFree = true)
    (h : Stacks adj ranks spacing (before.set i .pending i.isLt)
      (ordered ranks (adj.children.get i)) (outer.above + outer.height) (outer.column + 1) 0
      inner tall) :
    Visit adj ranks spacing roots i where
  before := before
  outer := outer
  below := below
  later := later
  after := inner
  own := ⟨some i, (ordered ranks (adj.children.get i)).reverse ++ [], [],
    outer.above + outer.height, outer.column + 1, tall⟩
  around := { outer with met := i :: outer.met, waiting := later } :: below
  left := ⟨inner.set i (.placed outer.column (corner spacing outer.column
      (outer.above + outer.height) (stackHeight spacing tall))) i.isLt,
    { outer with
      met := i :: outer.met
      waiting := later
      height := outer.height +
        (Coordinate.larger spacing.nodeSize.height (stackHeight spacing tall) +
          spacing.rowGap) } :: below⟩
  reached := reached
  next := next
  fresh := fresh
  stacked := .head (step_next next fresh below) (h.moves _ _ _)
  owner := rfl
  finished := rfl
  leaves := step_close _ _ _ _ _ _ _ _

/-- A visit is what the recursion makes of it. -/
lemma eq_ofStacks (v : Visit adj ranks spacing roots i) :
    v = ofStacks v.reached v.next v.fresh (stacks_stack adj ranks spacing _ _ _ _ _) :=
  unique _ _

/-- The turn stands below what its stack has taken so far. -/
lemma above_eq (v : Visit adj ranks spacing roots i) :
    v.above = v.outer.above + v.outer.height :=
  congrArg (fun u : Visit adj ranks spacing roots i => u.own.above) v.eq_ofStacks

/-- The visit begins with a stack for the children of the turn. -/
lemma opened (v : Visit adj ranks spacing roots i) :
    Moves adj ranks spacing (begin ranks roots) ⟨v.before.set i .pending i.isLt,
      ⟨some i, [], ordered ranks (adj.children.get i), v.above, v.outer.column + 1, 0⟩ ::
        { v.outer with met := i :: v.outer.met, waiting := v.later } :: v.below⟩ := by
  rw [v.above_eq]
  exact v.reached.tail (step_next v.next v.fresh v.below)

/-- During a visit the children of the turn are stacked. -/
lemma course (v : Visit adj ranks spacing roots i) :
    Stacks adj ranks spacing (v.before.set i .pending i.isLt)
      (ordered ranks (adj.children.get i)) v.above (v.outer.column + 1) 0 v.after v.own.height := by
  have hafter := congrArg after v.eq_ofStacks
  have hown := congrArg own v.eq_ofStacks
  rw [v.above_eq, hafter, hown]
  exact stacks_stack adj ranks spacing _ _ _ _ _

/-- When the walk leaves the turn, it has placed it, and the stack of the turn has grown by what the
turn reserves and a gap. -/
lemma left_eq (v : Visit adj ranks spacing roots i) :
    v.left = ⟨v.after.set i (.placed v.outer.column
        (corner spacing v.outer.column v.above v.stack)) i.isLt,
      { v.outer with
        met := i :: v.outer.met
        waiting := v.later
        height := v.outer.height + (v.reserved + spacing.rowGap) } :: v.below⟩ := by
  have hafter := congrArg after v.eq_ofStacks
  have hown := congrArg own v.eq_ofStacks
  have hleft := congrArg left v.eq_ofStacks
  rw [hleft, hafter, v.above_eq]
  unfold reserved stack
  rw [hown]
  rfl

/-- When the walk leaves the turn, its children have been met. -/
lemma met_children (v : Visit adj ranks spacing roots i) {j : Fin n}
    (hj : j ∈ adj.children.get i) : (v.left.slots.get j).isFree = false := by
  rw [v.left_eq]
  dsimp only
  rw [get_set]
  split
  · rfl
  · exact v.course.met (mem_ordered.mpr hj)

/-- The siblings of the turn are taken in their order. -/
lemma siblings (v : Visit adj ranks spacing roots i) :
    v.outer.met.reverse ++ i :: v.later = ordered ranks (siblingsOf adj roots v.outer.owner) := by
  rw [← v.next]
  exact v.reached.tracked.siblings _ List.mem_cons_self

/-- The turn is one of the siblings of its stack. -/
lemma mem_siblings (v : Visit adj ranks spacing roots i) :
    i ∈ siblingsOf adj roots v.outer.owner := by
  have hmem : i ∈ ordered ranks (siblingsOf adj roots v.outer.owner) := by
    rw [← v.siblings]
    exact List.mem_append_right _ List.mem_cons_self
  exact mem_ordered.mp hmem

/-- The walk leaves the turn on its way. -/
lemma reached_left (v : Visit adj ranks spacing roots i) :
    Moves adj ranks spacing (begin ranks roots) v.left :=
  (v.reached.trans v.stacked).tail v.leaves

/-- The place of the turn is decided by the height above it and the height of its children. -/
lemma left_get (v : Visit adj ranks spacing roots i) :
    v.left.slots.get i =
      .placed v.outer.column (corner spacing v.outer.column v.above v.stack) := by
  rw [v.left_eq]
  dsimp only
  rw [get_set, if_pos rfl]

/-- The turn keeps its place to the end. -/
lemma run_get (v : Visit adj ranks spacing roots i) :
    (run adj roots ranks spacing).get i =
      .placed v.outer.column (corner spacing v.outer.column v.above v.stack) :=
  v.reached_left.run_placed v.left_get

end Visit

/-- Every turn that has been met has a visit. -/
lemma Moves.exists_visit {s : State α n} (h : Moves adj ranks spacing (begin ranks roots) s)
    {i : Fin n} (hi : (s.slots.get i).isFree = false) :
    Nonempty (Visit adj ranks spacing roots i) := by
  induction h with
  | refl =>
    rw [begin, get_replicate] at hi
    cases hi
  | @tail b c hmoves hstep ih =>
    cases hfree : (b.slots.get i).isFree with
    | false => exact ih hfree
    | true =>
      obtain ⟨top, below, later, hframes, hnext, hfresh⟩ :=
        (move_of_step hstep).opens (Moves.tracked hmoves) hfree hi
      obtain ⟨slots, frames⟩ := b
      cases hframes
      exact ⟨.ofStacks hmoves hnext hfresh (stacks_stack adj ranks spacing _ _ _ _ _)⟩

/-- The turns that are placed are those that have a visit. -/
lemma run_placed_iff_visit {i : Fin n} :
    (∃ c p, (run adj roots ranks spacing).get i = .placed c p) ↔
      Nonempty (Visit adj ranks spacing roots i) := by
  constructor
  · rintro ⟨c, p, hplaced⟩
    obtain ⟨last, hlast, hslots⟩ := Moves.exists_last (.refl : Moves adj ranks spacing
      (begin ranks roots) (begin ranks roots))
    refine hlast.exists_visit (i := i) ?_
    rw [hslots, hplaced]
    rfl
  · rintro ⟨v⟩
    exact ⟨_, _, v.run_get⟩

end Packing

end DialogChart
