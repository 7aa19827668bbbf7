import DialogChart.Proofs.Coordinate
import DialogChart.Proofs.Layout.Visits
import Mathlib.Data.List.Chain

/-!
# Stacks upon stacks

The walk keeps its unfinished stacks in a pile.  At the bottom lies the stack of the roots, which has
no owner.  Any other stack rests on the one in which its owner was met last: it stands one column
further, and it begins at the height that the stack below it has reached (`Rests`).

A move changes the pile at its top only (`Piled.move`), so all states of the walk have such a pile
(`Moves.piled`).  With what `Tracked` says of the owners this gives the order of the pile
(`InOrder`): the owners are the turns that were met and not yet placed, each of them once, and they
form a path of the graph that begins at a root.  So a turn is placed only when there is a stack
around it, and the walk stops when the stack of the roots is finished and not before.
-/

namespace DialogChart

namespace Packing

variable {α : Type} {n : Nat}

/-! ### The siblings of a stack -/

/-- The siblings of a stack, those that were met in front of those to come. -/
def Frame.siblings (f : Frame α n) : List (Fin n) :=
  f.met.reverse ++ f.waiting

/-- The place of the next sibling to be met. -/
def Frame.next (f : Frame α n) : Nat :=
  f.met.length

/-- The sibling that was met last stands just before the next one. -/
lemma Frame.head?_met_iff {f : Frame α n} {i : Fin n} :
    f.met.head? = some i ↔ 0 < f.next ∧ f.siblings[f.next - 1]? = some i := by
  unfold Frame.next Frame.siblings
  cases f.met with
  | nil => simp
  | cons j met => simp

/-- No more siblings were met than there are. -/
lemma Frame.next_le_length (f : Frame α n) : f.next ≤ f.siblings.length := by
  rw [Frame.next, Frame.siblings, List.length_append, List.length_reverse]
  exact Nat.le_add_right _ _

/-- A stack is finished when no sibling is to come. -/
lemma Frame.next_eq_length_iff {f : Frame α n} :
    f.next = f.siblings.length ↔ f.waiting = [] := by
  unfold Frame.next Frame.siblings
  rw [List.length_append, List.length_reverse, ← List.length_eq_zero_iff]
  omega

/-! ### The pile -/

/-- A stack rests on the one in which its owner was met last. -/
structure Rests [Add α] (inner outer : Frame α n) : Prop where
  owner : ∃ i, inner.owner = some i ∧ outer.met.head? = some i
  column : inner.column = outer.column + 1
  above : inner.above = outer.above + outer.height

/-- Stacks, innermost first, of which each rests on the next one, down to the stack of the roots. -/
inductive Piled [Add α] : List (Frame α n) → Prop where
  | bottom {f : Frame α n} : f.owner = none → f.column = 0 → Piled [f]
  | upon {inner outer : Frame α n} {below : List (Frame α n)} :
    Rests inner outer → Piled (outer :: below) → Piled (inner :: outer :: below)

section Pile

variable [Add α]

/-- What a stack rests on does not depend on what was met in it. -/
lemma Piled.replace {f f' : Frame α n} {below : List (Frame α n)} (h : Piled (f :: below))
    (howner : f'.owner = f.owner) (hcolumn : f'.column = f.column) (habove : f'.above = f.above) :
    Piled (f' :: below) := by
  cases h with
  | bottom hnone hzero => exact .bottom (howner.trans hnone) (hcolumn.trans hzero)
  | upon hrests hbelow =>
    obtain ⟨⟨i, hi, hmet⟩, hnext, hstart⟩ := hrests
    exact .upon ⟨⟨i, howner.trans hi, hmet⟩, hcolumn.trans hnext, habove.trans hstart⟩ hbelow

/-- The stacks below one of a pile form a pile with it. -/
lemma Piled.of_append {upper : List (Frame α n)} {f : Frame α n} {below : List (Frame α n)}
    (h : Piled (upper ++ f :: below)) : Piled (f :: below) := by
  induction upper with
  | nil => exact h
  | cons top upper ih =>
    rw [List.cons_append] at h
    refine ih ?_
    generalize hrest : upper ++ f :: below = others at h
    cases h with
    | bottom => simp at hrest
    | upon _ hbelow =>
      exact hbelow

/-- The column of a stack is its height in the pile, and the lowest one has no owner. -/
lemma Piled.column_eq {f : Frame α n} {below : List (Frame α n)} (h : Piled (f :: below)) :
    f.column = below.length ∧ (f.owner = none ↔ below = []) := by
  induction below generalizing f with
  | nil =>
    cases h with
    | bottom hnone hzero => exact ⟨hzero, iff_of_true hnone rfl⟩
  | cons outer below ih =>
    cases h with
    | upon hrests hbelow =>
      obtain ⟨⟨i, hi, -⟩, hnext, -⟩ := hrests
      refine ⟨?_, iff_of_false ?_ (List.cons_ne_nil _ _)⟩
      · rw [hnext, (ih hbelow).1, List.length_cons]
      · rw [hi]
        exact Option.some_ne_none i

end Pile

/-! ### The owners -/

/-- The owners of the stacks, outermost first. -/
def owners (frames : List (Frame α n)) : List (Fin n) :=
  (frames.filterMap (·.owner)).reverse

/-- A stack without an owner adds none. -/
lemma owners_cons_none {f : Frame α n} (h : f.owner = none) (below : List (Frame α n)) :
    owners (f :: below) = owners below := by
  simp [owners, h]

/-- The owner of the innermost stack comes last. -/
lemma owners_cons_some {f : Frame α n} {i : Fin n} (h : f.owner = some i)
    (below : List (Frame α n)) : owners (f :: below) = owners below ++ [i] := by
  simp [owners, h]

/-- The owners are those of the stacks. -/
lemma mem_owners {frames : List (Frame α n)} {i : Fin n} :
    i ∈ owners frames ↔ some i ∈ frames.map (·.owner) := by
  simp [owners]

/-- Owners differ if the stacks differ in their owners. -/
lemma nodup_owners {frames : List (Frame α n)} (h : (frames.map (·.owner)).Nodup) :
    (owners frames).Nodup := by
  have howners : owners frames = ((frames.map (·.owner)).filterMap id).reverse := by
    rw [owners, List.filterMap_map, Function.id_comp]
  rw [howners, List.nodup_reverse]
  refine h.filterMap ?_
  intro a b i ha hb
  exact ha.trans hb.symm

variable [Coordinate α] {adj : Adjacency n} {ranks : Option (Vector (Option α) n)}
  {spacing : Spacing α} {roots : List (Fin n)}

/-- The owner of a stack is one of the siblings in the stack below it. -/
lemma Rests.mem_siblingsOf {inner outer : Frame α n} (h : Rests inner outer) {i : Fin n}
    (hi : inner.owner = some i)
    (hsiblings : outer.siblings = ordered ranks (siblingsOf adj roots outer.owner)) :
    i ∈ siblingsOf adj roots outer.owner := by
  obtain ⟨j, hj, hmet⟩ := h.owner
  obtain rfl : i = j := Option.some.inj (hi.symm.trans hj)
  rw [← @mem_ordered _ _ _ ranks, ← hsiblings, Frame.siblings, List.mem_append, List.mem_reverse]
  exact .inl (List.mem_of_mem_head? hmet)

/-- The owner of the innermost stack ends the list of the owners. -/
lemma Piled.getLast?_owners {f : Frame α n} {below : List (Frame α n)} (h : Piled (f :: below)) :
    (owners (f :: below)).getLast? = f.owner := by
  cases howner : f.owner with
  | none =>
    rw [owners_cons_none howner, h.column_eq.2.mp howner]
    rfl
  | some i => rw [owners_cons_some howner, List.getLast?_concat]

/-- The owners of a pile lead from a root to child after child. -/
lemma Piled.path {frames : List (Frame α n)} (h : Piled frames)
    (hsiblings : ∀ f ∈ frames, f.siblings = ordered ranks (siblingsOf adj roots f.owner)) :
    (owners frames).IsChain (fun i j => j ∈ adj.children.get i) ∧
      ∀ i ∈ (owners frames).head?, i ∈ roots := by
  induction h with
  | bottom hnone =>
    rw [owners_cons_none hnone]
    exact ⟨.nil, by simp [owners]⟩
  | @upon inner outer below hrests hpiled ih =>
    rw [List.forall_mem_cons] at hsiblings
    obtain ⟨hchain, hhead⟩ := ih hsiblings.2
    obtain ⟨i, hi, -⟩ := hrests.owner
    have hmem := hrests.mem_siblingsOf hi (hsiblings.2 outer List.mem_cons_self)
    rw [owners_cons_some hi]
    have hlast := hpiled.getLast?_owners
    cases howner : outer.owner with
    | none =>
      -- The stack below is the one of the roots, so the path begins here.
      rw [howner] at hlast hmem
      rw [List.getLast?_eq_none_iff.mp hlast]
      refine ⟨List.IsChain.singleton i, ?_⟩
      intro j hj
      obtain rfl : i = j := Option.some.inj hj
      exact hmem
    | some j =>
      rw [howner] at hlast hmem
      refine ⟨List.isChain_append.mpr ⟨hchain, List.IsChain.singleton i, ?_⟩, ?_⟩
      · intro a ha b hb
        obtain rfl : j = a := Option.some.inj (hlast.symm.trans ha)
        obtain rfl : i = b := Option.some.inj hb
        exact hmem
      · have hne : owners (outer :: below) ≠ [] := by
          intro hnil
          rw [hnil] at hlast
          cases hlast
        rw [List.head?_append_of_ne_nil _ hne]
        exact hhead

/-! ### The walk keeps a pile -/

/-- A move leaves a pile. -/
lemma Piled.move {s t : State α n} (h : Piled s.frames) (hmove : Move adj ranks spacing s t) :
    Piled t.frames := by
  cases hmove with
  | skip => exact h.replace rfl rfl rfl
  | descend => exact .upon ⟨⟨_, rfl, rfl⟩, rfl, rfl⟩ (h.replace rfl rfl rfl)
  | ascend =>
    cases h with
    | upon _ hbelow => exact hbelow.replace rfl rfl rfl
  | leave =>
    -- The lowest stack has no owner.
    cases h with
    | bottom hnone => cases hnone

/-- Every state of the walk from the roots has a pile. -/
lemma Moves.piled {s : State α n} (h : Moves adj ranks spacing (begin ranks roots) s) :
    Piled s.frames := by
  induction h with
  | refl => exact .bottom rfl rfl
  | tail _ hstep ih => exact ih.move (move_of_step hstep)

/-- The walk stops when the stack of the roots is finished, and not before. -/
lemma Piled.step_eq_none_iff {s : State α n} (h : Piled s.frames) :
    step adj ranks spacing s = none ↔
      ∃ bottom, s.frames = [bottom] ∧ bottom.owner = none ∧
        bottom.next = bottom.siblings.length := by
  obtain ⟨slots, frames⟩ := s
  constructor
  · intro hstop
    match frames with
    | [] => cases h
    | ⟨owner, met, i :: rest, above, column, height⟩ :: below =>
      cases hfree : (slots.get i).isFree with
      | false =>
        rw [step_skip hfree] at hstop
        cases hstop
      | true =>
        rw [step_open hfree] at hstop
        cases hstop
    | ⟨some i, met, [], above, column, height⟩ :: outer :: below => cases hstop
    | [⟨some i, met, [], above, column, height⟩] => cases hstop
    | ⟨none, met, [], above, column, height⟩ :: below =>
      obtain rfl := h.column_eq.2.mp rfl
      exact ⟨_, rfl, rfl, Frame.next_eq_length_iff.mpr rfl⟩
  · rintro ⟨⟨owner, met, waiting, above, column, height⟩, rfl, rfl, hfinished⟩
    obtain rfl : waiting = [] := Frame.next_eq_length_iff.mp hfinished
    rfl

/-- A walk goes on to where it has no move left. -/
lemma moves_walk (adj : Adjacency n) (ranks : Option (Vector (Option α) n)) (spacing : Spacing α)
    (s : State α n) :
    Moves adj ranks spacing s (walk adj ranks spacing s) ∧
      step adj ranks spacing (walk adj ranks spacing s) = none := by
  fun_induction walk adj ranks spacing s with
  | case1 s hstop => exact ⟨.refl, hstop⟩
  | case2 s next hstep ih => exact ⟨.head hstep ih.1, ih.2⟩

/-! ### The order of the pile -/

/-- The order of the unfinished stacks, which are listed innermost first. -/
structure InOrder (g : Graph) (ranks : Option (Vector (Option α) g.size)) (s : State α g.size) :
    Prop where
  /-- There is a stack without an owner, and it is the lowest one. -/
  bottom : s.frames ≠ [] ∧ ∀ upper f below, s.frames = upper ++ f :: below →
    (f.owner = none ↔ below = [])
  /-- The column of a stack is the number of stacks below it. -/
  column : ∀ upper f below, s.frames = upper ++ f :: below → f.column = below.length
  /-- The siblings of a stack are the roots or the children of its owner, in their order. -/
  siblings : ∀ f ∈ s.frames,
    f.siblings = ordered ranks (siblingsOf g.adjacency (g.roots g.adjacency) f.owner)
  /-- The next sibling to be met is one of the siblings, or all have been met. -/
  next_le : ∀ f ∈ s.frames, f.next ≤ f.siblings.length
  /-- No turn owns two stacks. -/
  nodup : (owners s.frames).Nodup
  /-- The owners are the turns whose stacks are being filled. -/
  pending : ∀ i, i ∈ owners s.frames ↔ s.slots.get i = .pending
  /-- An owner stands just before the next sibling of the stack below. -/
  owner : ∀ upper inner outer below, s.frames = upper ++ inner :: outer :: below →
    ∃ i, inner.owner = some i ∧ 0 < outer.next ∧ outer.siblings[outer.next - 1]? = some i
  /-- The owners form a path of the graph. -/
  path : (owners s.frames).IsChain fun i j => (i, j) ∈ g.arcs
  /-- The path begins at a root. -/
  head : ∀ i ∈ (owners s.frames).head?, i ∈ g.roots g.adjacency
  /-- A stack begins at the height that the stack below it has reached. -/
  above : ∀ upper inner outer below, s.frames = upper ++ inner :: outer :: below →
    inner.above = outer.above + outer.height

/-- Stacks that rest on each other and are owned by the turns in question are in order. -/
lemma Piled.inOrder {g : Graph} {ranks : Option (Vector (Option α) g.size)} {s : State α g.size}
    (h : Piled s.frames) (htracked : Tracked g.adjacency ranks (g.roots g.adjacency) s) :
    InOrder g ranks s := by
  have hpath := h.path htracked.siblings
  have hrests : ∀ upper inner outer below, s.frames = upper ++ inner :: outer :: below →
      Rests inner outer := by
    intro upper inner outer below hframes
    rw [hframes] at h
    cases h.of_append with
    | upon hrests _ => exact hrests
  refine ⟨⟨?_, ?_⟩, ?_, htracked.siblings, fun f _ => f.next_le_length,
    nodup_owners htracked.nodup, ?_, ?_, ?_, hpath.2, ?_⟩
  · intro hnil
    rw [hnil] at h
    cases h
  · intro upper f below hframes
    rw [hframes] at h
    exact h.of_append.column_eq.2
  · intro upper f below hframes
    rw [hframes] at h
    exact h.of_append.column_eq.1
  · exact fun i => mem_owners.trans (htracked.pending i)
  · intro upper inner outer below hframes
    obtain ⟨i, hi, hmet⟩ := (hrests upper inner outer below hframes).owner
    exact ⟨i, hi, Frame.head?_met_iff.mp hmet⟩
  · exact hpath.1.imp fun i j hj => Adjacency.mem_children_ofArcs.mp hj
  · exact fun upper inner outer below hframes => (hrests upper inner outer below hframes).above

/-- The unfinished stacks are in order in every state of the walk, whatever the arithmetic is.  So
whenever the innermost stack has an owner to be placed, it stands behind the first column and there
is a stack around it.  The walk stops in exactly the states in which the stack of the roots is the
only one and is finished, and it comes to such a state. -/
theorem unfinished_stacks_in_order (g : Graph) (ranks : Option (Vector (Option α) g.size))
    (spacing : Spacing α) (s : State α g.size)
    (h : Moves g.adjacency ranks spacing (begin ranks (g.roots g.adjacency)) s) :
    InOrder g ranks s ∧
    (∀ top below i, s.frames = top :: below → top.owner = some i →
      0 < top.column ∧ ∃ outer rest, below = outer :: rest) ∧
    (step g.adjacency ranks spacing s = none ↔
      ∃ bottom, s.frames = [bottom] ∧ bottom.owner = none ∧
        bottom.next = bottom.siblings.length) ∧
    ∃ bottom, (walk g.adjacency ranks spacing s).frames = [bottom] ∧ bottom.owner = none ∧
      bottom.next = bottom.siblings.length := by
  obtain ⟨hmoves, hstop⟩ := moves_walk g.adjacency ranks spacing s
  have hwalk : Moves g.adjacency ranks spacing (begin ranks (g.roots g.adjacency))
      (walk g.adjacency ranks spacing s) := h.trans hmoves
  refine ⟨h.piled.inOrder h.tracked, ?_, h.piled.step_eq_none_iff,
    hwalk.piled.step_eq_none_iff.mp hstop⟩
  intro top below i hframes howner
  have hpiled := h.piled
  rw [hframes] at hpiled
  obtain ⟨hcolumn, hbottom⟩ := hpiled.column_eq
  rw [howner] at hbottom
  have hne : below ≠ [] := fun hnil => Option.some_ne_none i (hbottom.mpr hnil)
  refine ⟨?_, List.exists_cons_of_ne_nil hne⟩
  rw [hcolumn]
  exact List.length_pos_iff.mpr hne

/-- Two turns that lead to each other.  When both have been met, the stack of the second one rests on
the stack of the first one, and the first one comes again as its next sibling. -/
theorem unfinished_stacks_in_order_cycle :
    let g : Graph :=
      { turns := [⟨"a", "", .bot, ""⟩, ⟨"b", "", .user, ""⟩], edges := [⟨"a", "b"⟩, ⟨"b", "a"⟩] }
    let spacing : Spacing ℚ := ⟨⟨160, 69⟩, 100, 40⟩
    let a : Fin g.size := ⟨0, by decide⟩
    let b : Fin g.size := ⟨1, by decide⟩
    let s : State ℚ g.size :=
      ⟨((Vector.replicate g.size .free).set a .pending a.isLt).set b .pending b.isLt,
        [⟨some b, [], [a], 0, 2, 0⟩, ⟨some a, [b], [], 0, 1, 0⟩, ⟨none, [a], [], 0, 0, 0⟩]⟩
    Moves g.adjacency none spacing (begin none (g.roots g.adjacency)) s ∧
      owners s.frames = [a, b] ∧ InOrder g none s ∧
      step g.adjacency none spacing s ≠ none := by
  intro g spacing a b s
  have hroots : g.roots g.adjacency = [a] := by decide
  have hofA : g.adjacency.children.get a = [b] := by decide
  have hofB : g.adjacency.children.get b = [a] := by decide
  have hmoves : Moves g.adjacency none spacing (begin none (g.roots g.adjacency)) s := by
    rw [hroots]
    refine .head (step_open rfl _ _ _ _ _ _ _) ?_
    rw [hofA]
    refine .head (step_open rfl _ _ _ _ _ _ _) ?_
    rw [hofB, add_zero, add_zero]
    exact .refl
  obtain ⟨hinOrder, -, hstop, -⟩ := unfinished_stacks_in_order g none spacing s hmoves
  refine ⟨hmoves, rfl, hinOrder, ?_⟩
  intro hnone
  obtain ⟨bottom, hframes, -⟩ := hstop.mp hnone
  cases hframes

end Packing

end DialogChart
