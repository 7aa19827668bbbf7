import DialogChart.Coordinate
import DialogChart.Layout.Adjacency

/-!
# Ranks by relaxation

Every turn that can be reached gets a rank, which starts as its place in the preorder.  In a
pass over the preorder each rank is pulled towards the ranks of its neighbours along edges and
towards those of the other turns of its flow.  Ranks are updated in place: a pull sees the
moves that were made before it in the same pass.

Passes are repeated a given number of times, or until no rank has moved by more than a
threshold.  Ranks serve only to sort siblings.
-/

namespace DialogChart

/-- How strongly ranks are pulled, and for how long. -/
structure Tension (α : Type) where
  edgeStiffness : α
  flowStiffness : α
  iterations : Nat
  threshold : Option α

namespace Relaxation

variable {α : Type} [Coordinate α] {n : Nat}

/-- The ranks of the turns; those that cannot be reached have none. -/
abbrev Ranks (α : Type) (n : Nat) := Vector (Option α) n

/-- What a turn is pulled by: its children and parents, and the other turns of its flow. -/
structure Springs (n : Nat) where
  edges : Vector (List (Fin n)) n
  flows : Vector (List (Fin n)) n

/-- The springs of a graph. -/
def springs (g : Graph) (adj : Adjacency g.size) : Springs g.size :=
  let flow : Vector String g.size := .ofFn fun i => (g.turns.get i).flow
  { edges := .ofFn fun i => adj.children.get i ++ adj.parents.get i
    flows := .ofFn fun i =>
      (List.finRange g.size).filter fun j => j ≠ i && flow.get j = flow.get i }

/-- The ranks before the first pass: places in the preorder. -/
def start (order : List (Fin n × Nat)) : Ranks α n :=
  order.foldl (fun ranks (i, place) => ranks.set i (some (Coordinate.ofCount place)) i.isLt)
    (.replicate n none)

/-- The sum of the distances from a rank to the ranks of other turns. -/
@[specialize] def pull (ranks : Ranks α n) (own : α) (others : List (Fin n)) : α :=
  others.foldl (fun sum j =>
    match ranks.get j with
    | some rank => sum + (rank - own)
    | none => sum) 0

/-- How far a turn moves. -/
@[specialize] def move (tension : Tension α) (springs : Springs n) (ranks : Ranks α n) (i : Fin n)
    (own : α) : α :=
  tension.edgeStiffness * pull ranks own (springs.edges.get i) +
    tension.flowStiffness * pull ranks own (springs.flows.get i)

/-- Move one turn; the second part of the state is the longest move of the pass. -/
@[specialize] def update (tension : Tension α) (springs : Springs n) (state : Ranks α n × α)
    (i : Fin n) : Ranks α n × α :=
  let (ranks, longest) := state
  match ranks.get i with
  | none => state
  | some own =>
    let delta := move tension springs ranks i own
    (ranks.set i (some (own + delta)) i.isLt,
      Coordinate.larger longest (Coordinate.magnitude delta))

/-- One pass: every turn moves once, in order. -/
@[specialize] def pass (tension : Tension α) (springs : Springs n) (order : List (Fin n × Nat))
    (ranks : Ranks α n) : Ranks α n × α :=
  (order.map Prod.fst).foldl (update tension springs) (ranks, 0)

/-- The result of a relaxation: the ranks, the longest move of every pass, and whether the
passes were stopped by the threshold. -/
structure Outcome (α : Type) (n : Nat) where
  ranks : Ranks α n
  longest : List α
  converged : Bool

/-- Whether a pass whose longest move is given was the last one. -/
def settled (tension : Tension α) (longest : α) : Bool :=
  match tension.threshold with
  | some threshold => Coordinate.atMost longest threshold
  | none => false

/-- Make up to `passes` passes; `done` are the longest moves of the passes before, last one
first. -/
@[specialize] def passes (tension : Tension α) (springs : Springs n) (order : List (Fin n × Nat)) :
    Nat → Ranks α n → List α → Outcome α n
  | 0, ranks, done => ⟨ranks, done.reverse, false⟩
  | k + 1, ranks, done =>
    let (ranks, longest) := pass tension springs order ranks
    let done := longest :: done
    if settled tension longest then ⟨ranks, done.reverse, true⟩
    else passes tension springs order k ranks done

/-- The ranks of the turns that can be reached from the roots. -/
@[specialize] def run (tension : Tension α) (g : Graph) (adj : Adjacency g.size)
    (roots : List (Fin g.size)) : Outcome α g.size :=
  let order := adj.preorder roots
  passes tension (springs g adj) order tension.iterations (start order) []

end Relaxation

end DialogChart
