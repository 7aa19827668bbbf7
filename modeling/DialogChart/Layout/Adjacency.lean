import DialogChart.Graph.Basic

/-!
# Turns by index

A layout works on the indices of the turns.  An id belongs to the first turn that has it, and
edges that name an unknown id are left out.  Children and parents are listed in the order of
the edges.

`roots` are the turns without parents; where every turn has one, the turn with the smallest id
takes their place.  `preorder` visits what can be reached from them, depth first, and pairs
every turn with its place among the children of the turn it was reached from.
-/

namespace DialogChart

namespace Graph

variable (g : Graph)

/-- The number of turns. -/
abbrev size : Nat := g.turns.length

/-- The index of an id: the first turn that has it. -/
def index? (id : String) : Option (Fin g.size) :=
  g.turns.findFinIdx? (·.id = id)

/-- The ends of an edge, if both are known. -/
def ends? (e : Edge) : Option (Fin g.size × Fin g.size) :=
  match g.index? e.source, g.index? e.target with
  | some i, some j => some (i, j)
  | _, _ => none

/-- The edges between known turns, by index. -/
def arcs : List (Fin g.size × Fin g.size) :=
  g.edges.filterMap g.ends?

/-- The edges that name an unknown id. -/
def dangling : List Edge :=
  g.edges.filter fun e => (g.ends? e).isNone

end Graph

/-- For each of `n` turns its children and its parents, in the order of the edges. -/
structure Adjacency (n : Nat) where
  children : Vector (List (Fin n)) n
  parents : Vector (List (Fin n)) n

namespace Adjacency

variable {n : Nat}

/-- The adjacency of a list of arcs. -/
def ofArcs (arcs : List (Fin n × Fin n)) : Adjacency n where
  children := .ofFn fun i => arcs.filterMap fun (a, b) => if a = i then some b else none
  parents := .ofFn fun j => arcs.filterMap fun (a, b) => if b = j then some a else none

/-- The turns without parents, in order. -/
def orphans (adj : Adjacency n) : List (Fin n) :=
  (List.finRange n).filter fun i => (adj.parents.get i).isEmpty

/-! ### Preorder -/

/-- The number of turns that have not been visited. -/
def unvisited (visited : Vector Bool n) : Nat :=
  visited.countP (!·)

/-- Visiting a turn leaves fewer unvisited ones, which is why a search ends. -/
theorem unvisited_set_lt {visited : Vector Bool n} {i : Fin n} (h : visited.get i = false) :
    unvisited (visited.set i true i.isLt) < unvisited visited := by
  have hpos : 0 < visited.countP (!·) := by
    rw [Vector.countP_pos_iff]
    exact ⟨visited.get i, Vector.getElem_mem i.isLt, by simp [h]⟩
  have hi : visited[i.val] = false := h
  unfold unvisited
  rw [Vector.countP_set i.isLt, hi]
  simp only [Bool.not_false, Bool.not_true, if_true, Bool.false_eq_true, if_false]
  omega

/-- Visit the turns on a stack, first one first: a turn that has not been visited is noted,
and its children are put on the stack. -/
def visit (adj : Adjacency n) (visited : Vector Bool n) (stack : List (Fin n × Nat)) :
    List (Fin n × Nat) :=
  match stack with
  | [] => []
  | (i, place) :: stack =>
    if _h : visited.get i = false then
      (i, place) :: adj.visit (visited.set i true i.isLt) ((adj.children.get i).zipIdx ++ stack)
    else adj.visit visited stack
termination_by (unvisited visited, stack.length)
decreasing_by
  · exact Prod.Lex.left _ _ (unvisited_set_lt _h)
  · exact Prod.Lex.right _ (by simp)

/-- What can be reached from the roots, depth first, each turn with its place among the
children of the turn it was reached from, or among the roots. -/
def preorder (adj : Adjacency n) (roots : List (Fin n)) : List (Fin n × Nat) :=
  adj.visit (.replicate n false) roots.zipIdx

end Adjacency

namespace Graph

variable (g : Graph)

/-- The children and parents of the turns. -/
def adjacency : Adjacency g.size :=
  .ofArcs g.arcs

/-- The turn with the smallest id, the first one of them. -/
def smallest? : Option (Fin g.size) :=
  (List.finRange g.size).foldl (fun best i =>
    match best with
    | none => some i
    | some b => if (g.turns.get i).id < (g.turns.get b).id then some i else best) none

/-- Where a layout starts, and the id that stands in for missing roots. -/
def roots (adj : Adjacency g.size) : List (Fin g.size) :=
  match adj.orphans with
  | [] => g.smallest?.toList
  | orphans => orphans

end Graph

end DialogChart
