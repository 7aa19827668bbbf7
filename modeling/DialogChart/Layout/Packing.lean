import DialogChart.Geometry
import DialogChart.Layout.Adjacency

/-!
# Packing subtrees into columns

A turn stands in the column after the one of the turn it was placed from.  The children of a
turn form a stack, with a gap after each of them, and the turn is centred against the stack.
The first placement of a turn wins: where a turn appears again, in another stack or below
itself, it takes no height there but still its gap.

The walk keeps its own list of unfinished stacks, the innermost one first.  `step` is one move
of the walk, and `walk` repeats it until the stack of the roots is finished.
-/

namespace DialogChart

/-- The size of a turn and the gaps between turns. -/
structure Spacing (α : Type) where
  nodeSize : Size α
  columnGap : α
  rowGap : α

namespace Packing

/-- The state of a turn. -/
inductive Slot (α : Type) where
  /-- Not met yet. -/
  | free
  /-- Its stack is being filled. -/
  | pending
  /-- Placed in a column, with its top left corner at a point. -/
  | placed (column : Nat) (corner : Point α)

/-- Whether a turn has not been met yet. -/
def Slot.isFree {α : Type} : Slot α → Bool
  | .free => true
  | _ => false

/-- A stack of siblings that is being filled. -/
structure Frame (α : Type) (n : Nat) where
  /-- The turn whose children are stacked; the roots have none. -/
  owner : Option (Fin n)
  /-- The siblings that were met, last one first. -/
  met : List (Fin n)
  /-- The siblings to come. -/
  waiting : List (Fin n)
  /-- The height above the stack. -/
  above : α
  /-- The column of the siblings. -/
  column : Nat
  /-- The height of the stack so far, with the gap after the last sibling. -/
  height : α

/-- A state of the walk. -/
structure State (α : Type) (n : Nat) where
  slots : Vector (Slot α) n
  frames : List (Frame α n)

variable {α : Type} {n : Nat}

/-! ### Measures of progress -/

/-- The number of turns that have not been met. -/
def unmet (slots : Vector (Slot α) n) : Nat :=
  slots.countP (·.isFree)

/-- The siblings to come and the stacks to finish. -/
def pendingWork (frames : List (Frame α n)) : Nat :=
  frames.foldr (fun f count => f.waiting.length + 1 + count) 0

/-- Meeting a turn for the first time leaves fewer unmet ones, which is why the packing ends. -/
theorem unmet_set_lt {slots : Vector (Slot α) n} {i : Fin n} {s : Slot α}
    (h : (slots.get i).isFree = true) (hs : s.isFree = false) :
    unmet (slots.set i s i.isLt) < unmet slots := by
  have hpos : 0 < slots.countP (·.isFree) := by
    rw [Vector.countP_pos_iff]
    exact ⟨slots.get i, Vector.getElem_mem i.isLt, h⟩
  have hi : slots[i.val].isFree = true := h
  unfold unmet
  rw [Vector.countP_set i.isLt, hi, hs]
  simp only [if_true, Bool.false_eq_true, if_false]
  omega

/-- Storing a slot that is not free leaves no more unmet turns than before. -/
theorem unmet_set_le {slots : Vector (Slot α) n} {i : Fin n} {s : Slot α}
    (hs : s.isFree = false) : unmet (slots.set i s i.isLt) ≤ unmet slots := by
  unfold unmet
  rw [Vector.countP_set i.isLt, hs]
  simp only [Bool.false_eq_true, if_false]
  omega

/-! ### The walk -/

variable [Coordinate α]

/-- The order in which siblings are stacked: by rank, if there are ranks, and otherwise as they
come.  Siblings of equal rank stay as they come. -/
def ordered (ranks : Option (Vector (Option α) n)) (siblings : List (Fin n)) : List (Fin n) :=
  match ranks with
  | none => siblings
  | some ranks => siblings.mergeSort fun i j =>
    Coordinate.precedes ((ranks.get i).getD Coordinate.unranked)
      ((ranks.get j).getD Coordinate.unranked)

/-- An empty stack for the given siblings. -/
def frame (ranks : Option (Vector (Option α) n)) (owner : Option (Fin n))
    (siblings : List (Fin n)) (above : α) (column : Nat) : Frame α n where
  owner := owner
  met := []
  waiting := ordered ranks siblings
  above := above
  column := column
  height := 0

/-- The height of a finished stack, without the gap after its last sibling. -/
def stackHeight (spacing : Spacing α) (height : α) : α :=
  Coordinate.larger (height - spacing.rowGap) 0

/-- The corner of a turn in a column, below `above` and beside a stack of a given height. -/
def corner (spacing : Spacing α) (column : Nat) (above stack : α) : Point α where
  x := Coordinate.ofCount column * (spacing.nodeSize.width + spacing.columnGap)
  y := above + spacing.rowGap +
    Coordinate.larger (Coordinate.half stack - Coordinate.half spacing.nodeSize.height) 0

/-- One move of the walk; `none` when the stack of the roots is finished. -/
def step (adj : Adjacency n) (ranks : Option (Vector (Option α) n)) (spacing : Spacing α)
    (state : State α n) : Option (State α n) :=
  match state.frames with
  | [] => none
  | top :: below =>
    match top.waiting with
    | i :: waiting =>
      let top := { top with met := i :: top.met, waiting := waiting }
      if (state.slots.get i).isFree then
        let inner := frame ranks (some i) (adj.children.get i) (top.above + top.height)
          (top.column + 1)
        some ⟨state.slots.set i .pending i.isLt, inner :: top :: below⟩
      else some ⟨state.slots, { top with height := top.height + spacing.rowGap } :: below⟩
    | [] =>
      match top.owner with
      | none => none
      | some i =>
        let stack := stackHeight spacing top.height
        let column := top.column - 1
        let slots := state.slots.set i
          (.placed column (corner spacing column top.above stack)) i.isLt
        match below with
        | [] => some ⟨slots, []⟩
        | outer :: below =>
          let taken := Coordinate.larger spacing.nodeSize.height stack + spacing.rowGap
          some ⟨slots, { outer with height := outer.height + taken } :: below⟩

/-- Every move meets a new turn, or takes a sibling off a stack, or finishes a stack. -/
theorem step_progress {adj : Adjacency n} {ranks : Option (Vector (Option α) n)}
    {spacing : Spacing α} {state next : State α n} (h : step adj ranks spacing state = some next) :
    unmet next.slots < unmet state.slots ∨
      (unmet next.slots ≤ unmet state.slots ∧
        pendingWork next.frames < pendingWork state.frames) := by
  unfold step at h
  split at h
  · simp at h
  · rename_i top below hf
    split at h
    · rename_i i waiting hw
      split at h
      · rename_i hfree
        simp only [Option.some.injEq] at h
        subst h
        exact .inl (unmet_set_lt hfree rfl)
      · simp only [Option.some.injEq] at h
        subst h
        refine .inr ⟨Nat.le_refl _, ?_⟩
        simp [pendingWork, hf, hw]
    · rename_i hw
      split at h
      · simp at h
      · split at h
        · simp only [Option.some.injEq] at h
          subst h
          exact .inr ⟨unmet_set_le rfl, by simp [pendingWork, hf]⟩
        · simp only [Option.some.injEq] at h
          subst h
          exact .inr ⟨unmet_set_le rfl, by simp [pendingWork, hf, hw]⟩

/-- Repeat the moves of the walk until the stack of the roots is finished. -/
def walk (adj : Adjacency n) (ranks : Option (Vector (Option α) n)) (spacing : Spacing α)
    (state : State α n) : State α n :=
  match _h : step adj ranks spacing state with
  | none => state
  | some next => walk adj ranks spacing next
termination_by (unmet state.slots, pendingWork state.frames)
decreasing_by
  rcases step_progress _h with hlt | ⟨hle, hlt⟩
  · exact Prod.Lex.left _ _ hlt
  · rcases Nat.lt_or_eq_of_le hle with hlt' | heq
    · exact Prod.Lex.left _ _ hlt'
    · rw [heq]
      exact Prod.Lex.right _ hlt

/-- The state before the first move. -/
def begin (ranks : Option (Vector (Option α) n)) (roots : List (Fin n)) : State α n :=
  ⟨.replicate n .free, [frame ranks none roots 0 0]⟩

/-- Place every turn that can be reached from the roots. -/
def run (adj : Adjacency n) (roots : List (Fin n)) (ranks : Option (Vector (Option α) n))
    (spacing : Spacing α) : Vector (Slot α) n :=
  (walk adj ranks spacing (begin ranks roots)).slots

end Packing

end DialogChart
