import DialogChart.Layout.Packing
import Mathlib.Logic.Relation

/-!
# Packing by recursion

The walk of `Packing` keeps its own list of unfinished stacks.  This file gives the recursion
that the walk stands for, and proves that the two fill the slots in the same way.

`place` puts one turn below a height: a turn that has been met before reserves nothing, any
other turn is marked, its children are stacked one column further, and it is centred against
that stack.  `stack` places siblings one after the other and adds up what they take.  The table
of slots is threaded through both, so the recursion visits a turn at most once, and it ends
because every turn it opens leaves fewer turns to be met.

The simulation is `Stacks.moves`: a walk whose innermost stack has siblings to come does what
`stack` does with these siblings, whatever lies below on the list of stacks.  The main statement
is `run_refines_recursion`.
-/

namespace DialogChart

namespace Packing

variable {α : Type} {n : Nat} [Coordinate α]

/-! ### The recursion -/

/-- What a sibling adds to its stack: its reserved height and a gap, or only the gap. -/
def taken (spacing : Spacing α) : Option α → α
  | some reserved => reserved + spacing.rowGap
  | none => spacing.rowGap

mutual

/-- `place` with the bound on the turns that remain to be met, by which the recursion ends. -/
def placeBounded (adj : Adjacency n) (ranks : Option (Vector (Option α) n)) (spacing : Spacing α)
    (slots : Vector (Slot α) n) (i : Fin n) (above : α) (column : Nat) :
    { r : Vector (Slot α) n × Option α // unmet r.1 ≤ unmet slots } :=
  if h : (slots.get i).isFree = true then
    let inner := stackBounded adj ranks spacing (slots.set i .pending i.isLt)
      (ordered ranks (adj.children.get i)) above (column + 1) 0
    let childrenHeight := Coordinate.larger (inner.val.2 - spacing.rowGap) 0
    let topLeft : Point α :=
      { x := Coordinate.ofCount column * (spacing.nodeSize.width + spacing.columnGap)
        y := above + spacing.rowGap + Coordinate.larger
          (Coordinate.half childrenHeight - Coordinate.half spacing.nodeSize.height) 0 }
    ⟨(inner.val.1.set i (.placed column topLeft) i.isLt,
      some (Coordinate.larger spacing.nodeSize.height childrenHeight)),
      Nat.le_trans (unmet_set_le rfl)
        (Nat.le_trans inner.property (Nat.le_of_lt (unmet_set_lt h rfl)))⟩
  else ⟨(slots, none), Nat.le_refl _⟩
termination_by (unmet slots, 0)
decreasing_by exact Prod.Lex.left _ _ (unmet_set_lt h rfl)

/-- `stack` with the bound on the turns that remain to be met. -/
def stackBounded (adj : Adjacency n) (ranks : Option (Vector (Option α) n)) (spacing : Spacing α)
    (slots : Vector (Slot α) n) (siblings : List (Fin n)) (above : α) (column : Nat)
    (height : α) : { r : Vector (Slot α) n × α // unmet r.1 ≤ unmet slots } :=
  match siblings with
  | [] => ⟨(slots, height), Nat.le_refl _⟩
  | i :: rest =>
    let first := placeBounded adj ranks spacing slots i (above + height) column
    let others := stackBounded adj ranks spacing first.val.1 rest above column
      (height + taken spacing first.val.2)
    ⟨others.val, Nat.le_trans others.property first.property⟩
termination_by (unmet slots, siblings.length)
decreasing_by
  · exact Prod.Lex.right _ (Nat.succ_pos _)
  · rcases Nat.lt_or_eq_of_le first.property with hlt | heq
    · exact Prod.Lex.left _ _ hlt
    · rw [heq]
      exact Prod.Lex.right _ (Nat.lt_succ_self _)

end

/-- Place a turn below a height, in a column: the slots afterwards, and the height that the turn
reserves, if it had not been met. -/
def place (adj : Adjacency n) (ranks : Option (Vector (Option α) n)) (spacing : Spacing α)
    (slots : Vector (Slot α) n) (i : Fin n) (above : α) (column : Nat) :
    Vector (Slot α) n × Option α :=
  (placeBounded adj ranks spacing slots i above column).val

/-- Place siblings in a column, one below the other: the slots and the height of the stack
afterwards. -/
def stack (adj : Adjacency n) (ranks : Option (Vector (Option α) n)) (spacing : Spacing α)
    (slots : Vector (Slot α) n) (siblings : List (Fin n)) (above : α) (column : Nat)
    (height : α) : Vector (Slot α) n × α :=
  (stackBounded adj ranks spacing slots siblings above column height).val

section Equations

variable {adj : Adjacency n} {ranks : Option (Vector (Option α) n)} {spacing : Spacing α}
  {slots : Vector (Slot α) n} {i : Fin n}

/-- A turn that has been met is left where it is and reserves nothing. -/
lemma place_met (h : (slots.get i).isFree = false) (above : α) (column : Nat) :
    place adj ranks spacing slots i above column = (slots, none) := by
  have hn : ¬ (slots.get i).isFree = true := by
    rw [h]
    exact Bool.false_ne_true
  unfold place
  rw [placeBounded, dif_neg hn]

/-- A turn that has not been met is marked, its children are stacked beside it, and it is put
against the middle of their stack. -/
lemma place_free (h : (slots.get i).isFree = true) (above : α) (column : Nat) :
    place adj ranks spacing slots i above column =
      let inner := stack adj ranks spacing (slots.set i .pending i.isLt)
        (ordered ranks (adj.children.get i)) above (column + 1) 0
      let height := stackHeight spacing inner.2
      (inner.1.set i (.placed column (corner spacing column above height)) i.isLt,
        some (Coordinate.larger spacing.nodeSize.height height)) := by
  unfold place stack
  rw [placeBounded, dif_pos h]
  rfl

/-- Without siblings nothing changes. -/
@[simp] lemma stack_nil (above : α) (column : Nat) (height : α) :
    stack adj ranks spacing slots [] above column height = (slots, height) := by
  unfold stack
  rw [stackBounded]

/-- The first sibling is placed below the stack so far, and the others below it. -/
lemma stack_cons (rest : List (Fin n)) (above : α) (column : Nat) (height : α) :
    stack adj ranks spacing slots (i :: rest) above column height =
      let first := place adj ranks spacing slots i (above + height) column
      stack adj ranks spacing first.1 rest above column (height + taken spacing first.2) := by
  unfold stack place
  rw [stackBounded]

end Equations

/-! ### Derivations

The recursion is studied by induction on its course, written as a relation: `Stacks` relates the
slots and the height before some siblings are stacked to the slots and the height afterwards. -/

/-- The course of stacking siblings. -/
inductive Stacks (adj : Adjacency n) (ranks : Option (Vector (Option α) n)) (spacing : Spacing α) :
    Vector (Slot α) n → List (Fin n) → α → Nat → α → Vector (Slot α) n → α → Prop where
  /-- All siblings are stacked. -/
  | done (slots : Vector (Slot α) n) (above : α) (column : Nat) (height : α) :
    Stacks adj ranks spacing slots [] above column height slots height
  /-- The next sibling was met before: it takes a gap. -/
  | skip {slots last : Vector (Slot α) n} {i : Fin n} {rest : List (Fin n)} {above : α}
    {column : Nat} {height total : α} :
    (slots.get i).isFree = false →
    Stacks adj ranks spacing slots rest above column (height + spacing.rowGap) last total →
    Stacks adj ranks spacing slots (i :: rest) above column height last total
  /-- The next sibling is new: its children are stacked, and it takes what it reserves and a
  gap. -/
  | put {slots inner last : Vector (Slot α) n} {i : Fin n} {rest : List (Fin n)} {above : α}
    {column : Nat} {height tall total : α} :
    (slots.get i).isFree = true →
    Stacks adj ranks spacing (slots.set i .pending i.isLt) (ordered ranks (adj.children.get i))
      (above + height) (column + 1) 0 inner tall →
    Stacks adj ranks spacing
      (inner.set i (.placed column (corner spacing column (above + height)
        (stackHeight spacing tall))) i.isLt)
      rest above column
      (height + (Coordinate.larger spacing.nodeSize.height (stackHeight spacing tall) +
        spacing.rowGap)) last total →
    Stacks adj ranks spacing slots (i :: rest) above column height last total

section Derivations

variable {adj : Adjacency n} {ranks : Option (Vector (Option α) n)} {spacing : Spacing α}

/-- Stacking never adds to the turns that remain to be met. -/
lemma unmet_stack_le (slots : Vector (Slot α) n) (siblings : List (Fin n)) (above : α)
    (column : Nat) (height : α) :
    unmet (stack adj ranks spacing slots siblings above column height).1 ≤ unmet slots :=
  (stackBounded adj ranks spacing slots siblings above column height).property

/-- The recursion runs its course. -/
theorem stacks_stack (adj : Adjacency n) (ranks : Option (Vector (Option α) n))
    (spacing : Spacing α) (slots : Vector (Slot α) n) (siblings : List (Fin n)) (above : α)
    (column : Nat) (height : α) :
    Stacks adj ranks spacing slots siblings above column height
      (stack adj ranks spacing slots siblings above column height).1
      (stack adj ranks spacing slots siblings above column height).2 := by
  match siblings with
  | [] =>
    rw [stack_nil]
    exact .done slots above column height
  | i :: rest =>
    cases h : (slots.get i).isFree with
    | false =>
      rw [stack_cons, place_met h]
      exact .skip h (stacks_stack adj ranks spacing slots rest above column _)
    | true =>
      have hinner := stacks_stack adj ranks spacing (slots.set i .pending i.isLt)
        (ordered ranks (adj.children.get i)) (above + height) (column + 1) 0
      rw [stack_cons, place_free h]
      exact .put h hinner (stacks_stack adj ranks spacing _ rest above column _)
termination_by (unmet slots, siblings.length)
decreasing_by
  · exact Prod.Lex.right _ (Nat.lt_succ_self _)
  · exact Prod.Lex.left _ _ (unmet_set_lt h rfl)
  · refine Prod.Lex.left _ _ ?_
    calc
      unmet _ ≤ unmet _ := unmet_set_le rfl
      _ ≤ unmet (slots.set i .pending i.isLt) := unmet_stack_le ..
      _ < unmet slots := unmet_set_lt h rfl

end Derivations

/-! ### The walk follows the recursion -/

section Simulation

variable {adj : Adjacency n} {ranks : Option (Vector (Option α) n)} {spacing : Spacing α}

/-- One state of the walk leads to another by some number of moves. -/
def Moves (adj : Adjacency n) (ranks : Option (Vector (Option α) n)) (spacing : Spacing α) :
    State α n → State α n → Prop :=
  Relation.ReflTransGen fun s t => step adj ranks spacing s = some t

/-- A walk goes on from where its moves lead. -/
lemma Moves.walk_eq {s t : State α n} (h : Moves adj ranks spacing s t) :
    walk adj ranks spacing s = walk adj ranks spacing t := by
  induction h with
  | refl => rfl
  | @tail b c _ hbc ih =>
    rw [ih, walk]
    split
    · rename_i hb
      rw [hb] at hbc
      cases hbc
    · rename_i next hb
      rw [hb] at hbc
      cases hbc
      rfl

/-- A walk that has no move left stays where it is. -/
lemma walk_of_step_eq_none {s : State α n} (h : step adj ranks spacing s = none) :
    walk adj ranks spacing s = s := by
  rw [walk]
  split
  · rfl
  · rename_i next hs
    rw [h] at hs
    cases hs

/-- A sibling that was met before is taken off the stack, which grows by a gap. -/
lemma step_skip {slots : Vector (Slot α) n} {i : Fin n} (h : (slots.get i).isFree = false)
    (owner : Option (Fin n)) (met rest : List (Fin n)) (above : α) (column : Nat) (height : α)
    (below : List (Frame α n)) :
    step adj ranks spacing ⟨slots, ⟨owner, met, i :: rest, above, column, height⟩ :: below⟩ =
      some ⟨slots,
        ⟨owner, i :: met, rest, above, column, height + spacing.rowGap⟩ :: below⟩ := by
  simp only [step, h, Bool.false_eq_true, if_false]

/-- A new sibling is marked, and a stack for its children is opened. -/
lemma step_open {slots : Vector (Slot α) n} {i : Fin n} (h : (slots.get i).isFree = true)
    (owner : Option (Fin n)) (met rest : List (Fin n)) (above : α) (column : Nat) (height : α)
    (below : List (Frame α n)) :
    step adj ranks spacing ⟨slots, ⟨owner, met, i :: rest, above, column, height⟩ :: below⟩ =
      some ⟨slots.set i .pending i.isLt,
        ⟨some i, [], ordered ranks (adj.children.get i), above + height, column + 1, 0⟩ ::
          ⟨owner, i :: met, rest, above, column, height⟩ :: below⟩ := by
  simp only [step, h, if_true, frame]

/-- When the children of a turn are stacked, the turn is placed and the stack it stands in
grows. -/
lemma step_close (slots : Vector (Slot α) n) (i : Fin n) (met : List (Fin n)) (above : α)
    (column : Nat) (tall : α) (outer : Frame α n) (below : List (Frame α n)) :
    step adj ranks spacing
        ⟨slots, ⟨some i, met, [], above, column + 1, tall⟩ :: outer :: below⟩ =
      some ⟨slots.set i
          (.placed column (corner spacing column above (stackHeight spacing tall))) i.isLt,
        { outer with
          height := outer.height +
            (Coordinate.larger spacing.nodeSize.height (stackHeight spacing tall) +
              spacing.rowGap) } :: below⟩ := by
  simp only [step, Nat.add_sub_cancel]

/-- The moves of the walk, by what they do. -/
inductive Move (adj : Adjacency n) (ranks : Option (Vector (Option α) n)) (spacing : Spacing α) :
    State α n → State α n → Prop where
  /-- A sibling that was met before takes a gap. -/
  | skip {slots : Vector (Slot α) n} {i : Fin n} {owner : Option (Fin n)}
    {met rest : List (Fin n)} {above : α} {column : Nat} {height : α}
    {below : List (Frame α n)} :
    (slots.get i).isFree = false →
    Move adj ranks spacing ⟨slots, ⟨owner, met, i :: rest, above, column, height⟩ :: below⟩
      ⟨slots, ⟨owner, i :: met, rest, above, column, height + spacing.rowGap⟩ :: below⟩
  /-- A new sibling is marked, and a stack for its children is opened. -/
  | descend {slots : Vector (Slot α) n} {i : Fin n} {owner : Option (Fin n)}
    {met rest : List (Fin n)} {above : α} {column : Nat} {height : α}
    {below : List (Frame α n)} :
    (slots.get i).isFree = true →
    Move adj ranks spacing ⟨slots, ⟨owner, met, i :: rest, above, column, height⟩ :: below⟩
      ⟨slots.set i .pending i.isLt,
        ⟨some i, [], ordered ranks (adj.children.get i), above + height, column + 1, 0⟩ ::
          ⟨owner, i :: met, rest, above, column, height⟩ :: below⟩
  /-- A finished stack gives its owner a place, and the stack around it grows. -/
  | ascend {slots : Vector (Slot α) n} {i : Fin n} {met : List (Fin n)} {above : α}
    {column : Nat} {tall : α} {outer : Frame α n} {below : List (Frame α n)} :
    Move adj ranks spacing ⟨slots, ⟨some i, met, [], above, column, tall⟩ :: outer :: below⟩
      ⟨slots.set i (.placed (column - 1)
          (corner spacing (column - 1) above (stackHeight spacing tall))) i.isLt,
        { outer with
          height := outer.height +
            (Coordinate.larger spacing.nodeSize.height (stackHeight spacing tall) +
              spacing.rowGap) } :: below⟩
  /-- A finished stack with no stack around it gives its owner a place. -/
  | leave {slots : Vector (Slot α) n} {i : Fin n} {met : List (Fin n)} {above : α}
    {column : Nat} {tall : α} :
    Move adj ranks spacing ⟨slots, [⟨some i, met, [], above, column, tall⟩]⟩
      ⟨slots.set i (.placed (column - 1)
        (corner spacing (column - 1) above (stackHeight spacing tall))) i.isLt, []⟩

/-- Every step is one of the moves. -/
lemma move_of_step {s t : State α n} (h : step adj ranks spacing s = some t) :
    Move adj ranks spacing s t := by
  obtain ⟨slots, frames⟩ := s
  match frames with
  | [] => cases h
  | ⟨owner, met, i :: rest, above, column, height⟩ :: below =>
    cases hfree : (slots.get i).isFree with
    | false =>
      rw [step_skip hfree] at h
      cases h
      exact .skip hfree
    | true =>
      rw [step_open hfree] at h
      cases h
      exact .descend hfree
  | ⟨none, met, [], above, column, height⟩ :: below => cases h
  | [⟨some i, met, [], above, column, height⟩] =>
    cases h
    exact .leave
  | ⟨some i, met, [], above, column, height⟩ :: outer :: below =>
    cases h
    exact .ascend

/-- The walk does with the siblings of its innermost stack what the recursion does with them,
whatever stacks lie below. -/
lemma Stacks.moves {slots last : Vector (Slot α) n} {siblings : List (Fin n)} {above : α}
    {column : Nat} {height total : α}
    (h : Stacks adj ranks spacing slots siblings above column height last total)
    (owner : Option (Fin n)) (met : List (Fin n)) (below : List (Frame α n)) :
    Moves adj ranks spacing
      ⟨slots, ⟨owner, met, siblings, above, column, height⟩ :: below⟩
      ⟨last, ⟨owner, siblings.reverse ++ met, [], above, column, total⟩ :: below⟩ := by
  -- The stacks below stand for what the recursion has yet to do, so they stay arbitrary.
  induction h generalizing owner met below with
  | done => exact .refl
  | skip hmet _ ih =>
    refine .head (step_skip hmet _ _ _ _ _ _ _) ?_
    rw [List.reverse_cons, List.append_assoc]
    exact ih owner _ below
  | put hfree _ _ ihInner ihRest =>
    refine .head (step_open hfree _ _ _ _ _ _ _) ?_
    refine .trans (ihInner _ _ _) ?_
    refine .head (step_close _ _ _ _ _ _ _ _) ?_
    rw [List.reverse_cons, List.append_assoc]
    exact ihRest owner _ below

/-- The walk from the roots makes the moves that stack the roots, and stops there. -/
lemma moves_begin (adj : Adjacency n) (ranks : Option (Vector (Option α) n))
    (spacing : Spacing α) (roots : List (Fin n)) :
    ∃ last : State α n, Moves adj ranks spacing (begin ranks roots) last ∧
      step adj ranks spacing last = none ∧
      last.slots =
        (stack adj ranks spacing (.replicate n .free) (ordered ranks roots) 0 0 0).1 :=
  ⟨_, (stacks_stack adj ranks spacing _ _ _ _ _).moves none [] [], rfl, rfl⟩

/-- The slots that the walk leaves are those of stacking the roots. -/
lemma run_eq_stack (adj : Adjacency n) (roots : List (Fin n))
    (ranks : Option (Vector (Option α) n)) (spacing : Spacing α) :
    run adj roots ranks spacing =
      (stack adj ranks spacing (.replicate n .free) (ordered ranks roots) 0 0 0).1 := by
  obtain ⟨last, hmoves, hstop, hslots⟩ := moves_begin adj ranks spacing roots
  rw [run, hmoves.walk_eq, walk_of_step_eq_none hstop, hslots]

/-- The list of unfinished stacks does the work of the recursion, whatever the arithmetic is: the
walk from the roots comes to an end after some number of moves, and the slots it leaves are
those of the recursion that stacks the roots. -/
theorem run_refines_recursion (adj : Adjacency n) (roots : List (Fin n))
    (ranks : Option (Vector (Option α) n)) (spacing : Spacing α) :
    run adj roots ranks spacing =
        (stack adj ranks spacing (.replicate n .free) (ordered ranks roots) 0 0 0).1 ∧
      ∃ last : State α n, Moves adj ranks spacing (begin ranks roots) last ∧
        step adj ranks spacing last = none ∧ last.slots = run adj roots ranks spacing := by
  obtain ⟨last, hmoves, hstop, hslots⟩ := moves_begin adj ranks spacing roots
  exact ⟨run_eq_stack adj roots ranks spacing, last, hmoves, hstop,
    hslots.trans (run_eq_stack adj roots ranks spacing).symm⟩

end Simulation

end Packing

end DialogChart
