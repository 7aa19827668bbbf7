import DialogChart.Proofs.Layout.Positions
import DialogChart.Proofs.Layout.Reachability
import Mathlib.Order.Fin.Basic

/-!
# Children and parents, edge by edge

A graph names its turns by ids, and ids may be repeated or unknown.  An id stands for the first turn
that has it (`FirstWith`).  The children and the parents of the turns can be filled in side by side,
one edge after the other: an edge between known ids puts the turn of its target behind the children
of the turn of its source, and the other way round, and any other edge is passed over
(`adjacency_eq_foldl`).

`ListsEnds` says what the lists hold after some edges, for children and parents alike, with the two
ends of an edge exchanged.  One more edge keeps it (`Indexes.linkEdge`), so it holds after all edges
(`indexes_adjacency`), and it determines the lists (`ListsEnds.unique`).  The rest follows from it.
How often a turn is a child of another one is the number of edges between their ids
(`ListsEnds.count_eq`), and a later turn with an id that is taken has no neighbours
(`ListsEnds.eq_nil`).  Edges with an unknown end never matter for children and parents
(`adjacency_prune`), nor for a layout, which knows the edges only through these (`ofGraph_congr`).
The main statement is `adjacency_indexes_known_edges`.
-/

namespace DialogChart

namespace Graph

variable {g : Graph}

/-! ### The turn of an id -/

/-- A turn is the first one that has a given id. -/
def FirstWith (g : Graph) (id : String) (i : Fin g.size) : Prop :=
  (g.turns.get i).id = id ∧ ∀ j < i, (g.turns.get j).id ≠ id

instance (id : String) (i : Fin g.size) : Decidable (g.FirstWith id i) :=
  inferInstanceAs (Decidable (_ ∧ _))

/-- The index of an id is the first turn that has it. -/
lemma index?_eq_some_iff {id : String} {i : Fin g.size} :
    g.index? id = some i ↔ g.FirstWith id i := by
  unfold index? FirstWith
  rw [List.findFinIdx?_eq_some_iff]
  simp only [decide_eq_true_eq, List.get_eq_getElem, ne_eq]
  rfl

/-- There is only one first turn with an id. -/
lemma FirstWith.unique {id : String} {i j : Fin g.size} (hi : g.FirstWith id i)
    (hj : g.FirstWith id j) : i = j :=
  Option.some.inj ((index?_eq_some_iff.mpr hi).symm.trans (index?_eq_some_iff.mpr hj))

/-- The id of a first turn is known. -/
lemma FirstWith.mem_ids {id : String} {i : Fin g.size} (h : g.FirstWith id i) :
    id ∈ g.turns.map (·.id) :=
  List.mem_map.mpr ⟨g.turns.get i, List.get_mem _ i, h.1⟩

/-- An id that is known has a first turn. -/
lemma exists_firstWith {id : String} (h : id ∈ g.turns.map (·.id)) : ∃ i, g.FirstWith id i := by
  obtain ⟨turn, hturn, rfl⟩ := List.mem_map.mp h
  have hsome : (g.index? turn.id).isSome = true := by
    unfold index?
    rw [List.isSome_findFinIdx?, List.any_eq_true]
    exact ⟨turn, hturn, decide_eq_true rfl⟩
  obtain ⟨i, hi⟩ := Option.isSome_iff_exists.mp hsome
  exact ⟨i, index?_eq_some_iff.mp hi⟩

/-- The ends of an edge are the turns of its ids. -/
lemma ends?_eq_some_iff {e : Edge} {a b : Fin g.size} :
    g.ends? e = some (a, b) ↔ g.FirstWith e.source a ∧ g.FirstWith e.target b := by
  rw [← index?_eq_some_iff, ← index?_eq_some_iff]
  unfold ends?
  cases g.index? e.source <;> cases g.index? e.target <;> simp

/-- An edge without ends has an id that is not known. -/
lemma ends?_eq_none_iff {e : Edge} :
    g.ends? e = none ↔ ¬ (e.source ∈ g.turns.map (·.id) ∧ e.target ∈ g.turns.map (·.id)) := by
  constructor
  · rintro hnone ⟨hsource, htarget⟩
    obtain ⟨a, ha⟩ := exists_firstWith hsource
    obtain ⟨b, hb⟩ := exists_firstWith htarget
    rw [ends?_eq_some_iff.mpr ⟨ha, hb⟩] at hnone
    cases hnone
  · intro hunknown
    rw [Option.eq_none_iff_forall_ne_some]
    rintro ⟨a, b⟩ hends
    obtain ⟨ha, hb⟩ := ends?_eq_some_iff.mp hends
    exact hunknown ⟨ha.mem_ids, hb.mem_ids⟩

/-! ### Lists of the other ends -/

/-- The edges of a turn: those whose near end names an id of which it is the first turn, and whose
far end names a known id. -/
def edgesAt (g : Graph) (near far : Edge → String) (edges : List Edge) (i : Fin g.size) :
    List Edge :=
  edges.filter fun e => g.FirstWith (near e) i ∧ far e ∈ g.turns.map (·.id)

/-- Every turn has a list of the far ends of its edges, in the order of the edges.  Each end stands
for the first turn with its id. -/
def ListsEnds (g : Graph) (near far : Edge → String) (edges : List Edge)
    (lists : Vector (List (Fin g.size)) g.size) : Prop :=
  ∀ i, List.Forall₂ (fun e j => g.FirstWith (far e) j) (g.edgesAt near far edges i) (lists.get i)

section Lists

variable {near far : Edge → String} {edges : List Edge} {lists : Vector (List (Fin g.size)) g.size}

/-- One more edge comes last, if it is one of the turn. -/
lemma edgesAt_concat (e : Edge) (i : Fin g.size) :
    g.edgesAt near far (edges ++ [e]) i = g.edgesAt near far edges i ++
      if g.FirstWith (near e) i ∧ far e ∈ g.turns.map (·.id) then [e] else [] := by
  unfold edgesAt
  rw [List.filter_append, List.filter_cons, List.filter_nil]
  simp only [decide_eq_true_eq]

/-- Without edges all lists are empty. -/
lemma listsEnds_nil : g.ListsEnds near far [] (.replicate g.size []) := by
  intro i
  rw [get_replicate]
  exact .nil

/-- An edge between known ids goes to the end of one list. -/
lemma ListsEnds.push (h : g.ListsEnds near far edges lists) {e : Edge} {a b : Fin g.size}
    (ha : g.FirstWith (near e) a) (hb : g.FirstWith (far e) b) :
    g.ListsEnds near far (edges ++ [e]) (lists.set a (lists.get a ++ [b]) a.isLt) := by
  intro i
  rw [get_set, edgesAt_concat]
  by_cases hia : i = a
  · rw [if_pos hia, hia, if_pos ⟨ha, hb.mem_ids⟩]
    exact List.rel_append (h a) (.cons hb .nil)
  · -- The edge belongs to one turn only, since an id has one first turn.
    rw [if_neg hia, if_neg fun he => hia (he.1.unique ha), List.append_nil]
    exact h i

/-- An edge with an unknown end goes nowhere. -/
lemma ListsEnds.skip (h : g.ListsEnds near far edges lists) {e : Edge}
    (hunknown : ¬ (near e ∈ g.turns.map (·.id) ∧ far e ∈ g.turns.map (·.id))) :
    g.ListsEnds near far (edges ++ [e]) lists := by
  intro i
  rw [edgesAt_concat, if_neg fun he => hunknown ⟨he.1.mem_ids, he.2⟩, List.append_nil]
  exact h i

/-- The edges determine the lists. -/
lemma ListsEnds.unique (h : g.ListsEnds near far edges lists)
    {others : Vector (List (Fin g.size)) g.size} (hothers : g.ListsEnds near far edges others)
    (i : Fin g.size) : lists.get i = others.get i := by
  have hunique : Relator.RightUnique fun (e : Edge) (j : Fin g.size) => g.FirstWith (far e) j :=
    fun _ _ _ hb hc => hb.unique hc
  exact List.right_unique_forall₂' hunique (h i) (hothers i)

/-- The list of a turn is empty if an earlier turn has its id. -/
lemma ListsEnds.eq_nil (h : g.ListsEnds near far edges lists) {i j : Fin g.size} (hji : j < i)
    (hid : (g.turns.get j).id = (g.turns.get i).id) : lists.get i = [] := by
  have hnone : g.edgesAt near far edges i = [] := by
    refine List.filter_eq_nil_iff.mpr fun e _ he => ?_
    obtain ⟨hi, hfirst⟩ := (of_decide_eq_true he).1
    exact hfirst j hji (hid.trans hi)
  have hi := h i
  rw [hnone] at hi
  exact List.forall₂_nil_left_iff.mp hi

/-- Among the far ends of some edges a turn stands as often as the edges name it. -/
lemma count_eq_countP {ends : List (Fin g.size)}
    (h : List.Forall₂ (fun e j => g.FirstWith (far e) j) edges ends) (j : Fin g.size) :
    ends.count j = edges.countP fun e => g.FirstWith (far e) j := by
  induction h with
  | nil => rfl
  | @cons e k edges ends hk _ ih =>
    have hkj : (k == j) = decide (g.FirstWith (far e) j) := by
      rw [Bool.eq_iff_iff, beq_iff_eq, decide_eq_true_eq]
      exact ⟨fun hkj => hkj ▸ hk, fun hj => hk.unique hj⟩
    rw [List.count_cons, List.countP_cons, ih, hkj]

/-- A turn stands in the list of another one as often as there are edges between their ids. -/
lemma ListsEnds.count_eq (h : g.ListsEnds near far edges lists) (i j : Fin g.size) :
    (lists.get i).count j =
      edges.countP fun e => g.FirstWith (near e) i ∧ g.FirstWith (far e) j := by
  rw [count_eq_countP (h i), edgesAt, List.countP_filter]
  refine List.countP_congr fun e _ => ?_
  simp only [Bool.and_eq_true, decide_eq_true_eq]
  exact ⟨fun he => ⟨he.2.1, he.1⟩, fun he => ⟨he.2, he.1, he.2.mem_ids⟩⟩

/-- Edges that are left out because an end is unknown are no edges of any turn. -/
lemma edgesAt_filter {keep : Edge → Bool}
    (hkeep : ∀ e, near e ∈ g.turns.map (·.id) → far e ∈ g.turns.map (·.id) → keep e = true)
    (i : Fin g.size) :
    g.edgesAt near far (edges.filter keep) i = g.edgesAt near far edges i := by
  unfold edgesAt
  rw [List.filter_filter]
  refine List.filter_congr fun e _ => ?_
  rw [Bool.eq_iff_iff, Bool.and_eq_true, decide_eq_true_eq]
  exact ⟨And.left, fun he => ⟨he, hkeep e he.1.mem_ids he.2⟩⟩

/-- Lists that are complete without some edges with an unknown end are complete with them. -/
lemma ListsEnds.of_filter {keep : Edge → Bool}
    (h : g.ListsEnds near far (edges.filter keep) lists)
    (hkeep : ∀ e, near e ∈ g.turns.map (·.id) → far e ∈ g.turns.map (·.id) → keep e = true) :
    g.ListsEnds near far edges lists := by
  intro i
  rw [← edgesAt_filter hkeep]
  exact h i

end Lists

end Graph

/-! ### One edge after the other -/

namespace Adjacency

variable {n : Nat}

/-- No turn has children or parents. -/
def empty (n : Nat) : Adjacency n where
  children := .replicate n []
  parents := .replicate n []

/-- One more arc: its end becomes the last child of its start, and its start the last parent of its
end. -/
def link (adj : Adjacency n) (a b : Fin n) : Adjacency n where
  children := adj.children.set a (adj.children.get a ++ [b]) a.isLt
  parents := adj.parents.set b (adj.parents.get b ++ [a]) b.isLt

/-- Where every turn has the same children and the same parents, there is no difference. -/
lemma eq_of_get {adj other : Adjacency n}
    (hchildren : ∀ i, adj.children.get i = other.children.get i)
    (hparents : ∀ i, adj.parents.get i = other.parents.get i) : adj = other := by
  obtain ⟨children, parents⟩ := adj
  obtain ⟨otherChildren, otherParents⟩ := other
  obtain rfl : children = otherChildren := Vector.ext fun i hi => hchildren ⟨i, hi⟩
  obtain rfl : parents = otherParents := Vector.ext fun i hi => hparents ⟨i, hi⟩
  rfl

/-- Without arcs there are neither children nor parents. -/
lemma ofArcs_nil : ofArcs [] = empty n := by
  refine eq_of_get (fun i => ?_) fun i => ?_ <;> simp [ofArcs, empty]

/-- The last arc is linked last. -/
lemma ofArcs_concat (arcs : List (Fin n × Fin n)) (arc : Fin n × Fin n) :
    ofArcs (arcs ++ [arc]) = (ofArcs arcs).link arc.1 arc.2 := by
  -- Children and parents differ only in which end of an arc is near.
  have hlist : ∀ (near far : Fin n × Fin n → Fin n) (i : Fin n),
      (arcs ++ [arc]).filterMap (fun x => if near x = i then some (far x) else none) =
        if i = near arc then
          arcs.filterMap (fun x => if near x = near arc then some (far x) else none) ++ [far arc]
        else arcs.filterMap fun x => if near x = i then some (far x) else none := by
    intro near far i
    by_cases hi : i = near arc
    · simp [hi]
    · simp [hi, Ne.symm hi]
  unfold link ofArcs
  refine eq_of_get (fun i => ?_) fun i => ?_
  · rw [get_set, get_ofFn, get_ofFn, get_ofFn]
    exact hlist Prod.fst Prod.snd i
  · rw [get_set, get_ofFn, get_ofFn, get_ofFn]
    exact hlist Prod.snd Prod.fst i

end Adjacency

namespace Graph

/-- Link the ends of one more edge; an edge with an unknown end is passed over. -/
def linkEdge (g : Graph) (adj : Adjacency g.size) (e : Edge) : Adjacency g.size :=
  match g.ends? e with
  | some (a, b) => adj.link a b
  | none => adj

/-- The children and parents of a graph are filled in by linking its edges in order. -/
theorem adjacency_eq_foldl (g : Graph) :
    g.adjacency = g.edges.foldl g.linkEdge (.empty g.size) := by
  have hrun : ∀ edges : List Edge,
      Adjacency.ofArcs (edges.filterMap g.ends?) = edges.foldl g.linkEdge (.empty g.size) := by
    intro edges
    induction edges using List.reverseRecOn with
    | nil => exact Adjacency.ofArcs_nil
    | append_singleton edges e ih =>
      rw [List.foldl_append, ← ih, List.filterMap_append, List.foldl_cons, List.foldl_nil]
      unfold linkEdge
      cases hends : g.ends? e with
      | none => rw [List.filterMap_cons_none hends, List.filterMap_nil, List.append_nil]
      | some ends =>
        rw [List.filterMap_cons_some hends]
        exact Adjacency.ofArcs_concat _ ends
  exact hrun g.edges

/-- The children list the targets of some edges, and the parents their sources. -/
structure Indexes (g : Graph) (edges : List Edge) (adj : Adjacency g.size) : Prop where
  children : g.ListsEnds Edge.source Edge.target edges adj.children
  parents : g.ListsEnds Edge.target Edge.source edges adj.parents

/-- One more edge is indexed by linking it. -/
lemma Indexes.linkEdge {g : Graph} {edges : List Edge} {adj : Adjacency g.size}
    (h : g.Indexes edges adj) (e : Edge) : g.Indexes (edges ++ [e]) (g.linkEdge adj e) := by
  unfold Graph.linkEdge
  cases hends : g.ends? e with
  | none =>
    have hunknown := ends?_eq_none_iff.mp hends
    exact ⟨h.children.skip hunknown, h.parents.skip (mt And.symm hunknown)⟩
  | some ends =>
    obtain ⟨ha, hb⟩ := ends?_eq_some_iff.mp hends
    exact ⟨h.children.push ha hb, h.parents.push hb ha⟩

/-- The edges determine the children and parents. -/
lemma Indexes.unique {g : Graph} {edges : List Edge} {adj other : Adjacency g.size}
    (h : g.Indexes edges adj) (hother : g.Indexes edges other) : adj = other :=
  Adjacency.eq_of_get (h.children.unique hother.children) (h.parents.unique hother.parents)

/-- The children and parents of a graph index its edges. -/
theorem indexes_adjacency (g : Graph) : g.Indexes g.edges g.adjacency := by
  have hrun : ∀ edges : List Edge,
      g.Indexes edges (edges.foldl g.linkEdge (.empty g.size)) := by
    intro edges
    induction edges using List.reverseRecOn with
    | nil => exact ⟨listsEnds_nil, listsEnds_nil⟩
    | append_singleton edges e ih =>
      rw [List.foldl_append]
      exact ih.linkEdge e
  rw [adjacency_eq_foldl]
  exact hrun g.edges

/-! ### Edges with an unknown end -/

/-- A graph without the edges that name an unknown id. -/
def prune (g : Graph) : Graph :=
  { g with edges := g.edges.filter fun e =>
      e.source ∈ g.turns.map (·.id) ∧ e.target ∈ g.turns.map (·.id) }

/-- Edges with an unknown end have no part in the children and parents. -/
lemma adjacency_prune (g : Graph) : g.prune.adjacency = g.adjacency := by
  obtain ⟨hchildren, hparents⟩ := g.prune.indexes_adjacency
  have hchildren' : g.ListsEnds Edge.source Edge.target g.edges g.prune.adjacency.children :=
    ListsEnds.of_filter hchildren fun _ hsource htarget => decide_eq_true ⟨hsource, htarget⟩
  have hparents' : g.ListsEnds Edge.target Edge.source g.edges g.prune.adjacency.parents :=
    ListsEnds.of_filter hparents fun _ htarget hsource => decide_eq_true ⟨hsource, htarget⟩
  exact (Indexes.mk hchildren' hparents').unique g.indexes_adjacency

/-- Of the edges the roots know only the children and parents. -/
lemma roots_congr {turns : List Turn} {edges others : List Edge}
    (adj : Adjacency turns.length) :
    Graph.roots ⟨turns, edges⟩ adj = Graph.roots ⟨turns, others⟩ adj := by
  -- The searches for the smallest id do not unfold to the same term; as least arguments they do.
  have hsmallest : Graph.smallest? ⟨turns, edges⟩ = Graph.smallest? ⟨turns, others⟩ := by
    rw [smallest?_eq_argmin, smallest?_eq_argmin]
  by_cases h : adj.orphans = []
  · rw [roots_of_orphans_eq_nil h, roots_of_orphans_eq_nil h, hsmallest]
  · rw [roots_of_orphans_ne_nil h, roots_of_orphans_ne_nil h]

end Graph

/-! ### Layouts -/

namespace Layout

/-- Of the edges a layout knows only the children and parents that they give to the turns. -/
lemma ofGraph_congr {α : Type} [Coordinate α] {turns : List Turn} {edges others : List Edge}
    (h : Graph.adjacency ⟨turns, edges⟩ = Graph.adjacency ⟨turns, others⟩) (engine : Engine)
    (settings : LayoutSettings α) :
    ofGraph engine settings ⟨turns, edges⟩ = ofGraph engine settings ⟨turns, others⟩ := by
  have hroots : Graph.roots ⟨turns, edges⟩ (Graph.adjacency ⟨turns, edges⟩) =
      Graph.roots ⟨turns, others⟩ (Graph.adjacency ⟨turns, others⟩) := by
    rw [h]
    exact Graph.roots_congr _
  have hranks : ranks engine settings ⟨turns, edges⟩ = ranks engine settings ⟨turns, others⟩ := by
    cases engine with
    | basic => rfl
    | relaxed =>
      unfold ranks
      rw [hroots, h]
      rfl
  have hslots : slots engine settings ⟨turns, edges⟩ = slots engine settings ⟨turns, others⟩ := by
    unfold slots
    rw [hroots, h, hranks]
  rw [ofGraph_eq, ofGraph_eq, hslots]
  rfl

/-- Children and parents are the known edges by index.  For every graph, with ids repeated and edges
to nowhere, the children of a turn are the first turns of the targets, in the order of the edges, of
those edges whose source is an id of which it is the first turn and whose target is known; the
parents are the same with source and target exchanged.  A turn is as often a child of another one as
the other one is its parent, and a later turn with an id that is taken has neither.  Leaving out
all edges with an unknown end changes neither children and parents nor a layout, by either engine
and in any arithmetic. -/
theorem adjacency_indexes_known_edges (g : Graph) :
    g.ListsEnds Edge.source Edge.target g.edges g.adjacency.children ∧
    g.ListsEnds Edge.target Edge.source g.edges g.adjacency.parents ∧
    (∀ i j, (g.adjacency.children.get i).count j = (g.adjacency.parents.get j).count i) ∧
    (∀ i, (∃ j < i, (g.turns.get j).id = (g.turns.get i).id) →
      g.adjacency.children.get i = [] ∧ g.adjacency.parents.get i = []) ∧
    g.prune.adjacency = g.adjacency ∧
    ∀ (α : Type) [Coordinate α] (engine : Engine) (settings : LayoutSettings α),
      ofGraph engine settings g.prune = ofGraph engine settings g := by
  obtain ⟨hchildren, hparents⟩ := g.indexes_adjacency
  refine ⟨hchildren, hparents, ?_, ?_, g.adjacency_prune, ?_⟩
  · intro i j
    rw [hchildren.count_eq, hparents.count_eq]
    exact List.countP_congr fun e _ => by rw [decide_eq_true_eq, decide_eq_true_eq, and_comm]
  · rintro i ⟨j, hji, hid⟩
    exact ⟨hchildren.eq_nil hji hid, hparents.eq_nil hji hid⟩
  · intro α _ engine settings
    exact ofGraph_congr g.adjacency_prune engine settings

/-- Two edges with the same ends, one from a turn to itself, two with an unknown end, and a last
turn whose id is taken: the edges between the same turns count twice on both sides, the last turn
has neither children nor parents, and the layout is that of the three known edges. -/
theorem adjacency_indexes_known_edges_repeated :
    let g : Graph :=
      { turns := [⟨"a", "a", .bot, "f"⟩, ⟨"b", "b", .user, "f"⟩, ⟨"a", "c", .bot, "f"⟩]
        edges := [⟨"a", "b"⟩, ⟨"a", "z"⟩, ⟨"b", "b"⟩, ⟨"a", "b"⟩, ⟨"z", "a"⟩] }
    let known : Graph := { g with edges := [⟨"a", "b"⟩, ⟨"b", "b"⟩, ⟨"a", "b"⟩] }
    let a : Fin g.size := ⟨0, by decide⟩
    let b : Fin g.size := ⟨1, by decide⟩
    let c : Fin g.size := ⟨2, by decide⟩
    g.adjacency.children.get a = [b, b] ∧ g.adjacency.parents.get b = [a, b, a] ∧
      (g.adjacency.parents.get b).count a = 2 ∧
      g.adjacency.children.get c = [] ∧ g.adjacency.parents.get c = [] ∧
      g.prune = known ∧ known.adjacency = g.adjacency ∧
      ofGraph .relaxed LayoutSettings.default known =
        ofGraph .relaxed LayoutSettings.default g := by
  intro g known a b c
  have hknown : g.prune = known := by decide
  have hchildren : g.adjacency.children.get a = [b, b] := by decide
  obtain ⟨-, -, hcount, hlater, hadjacency, hlayout⟩ := adjacency_indexes_known_edges g
  obtain ⟨hnoChildren, hnoParents⟩ := hlater c ⟨a, by decide, by decide⟩
  refine ⟨hchildren, by decide, ?_, hnoChildren, hnoParents, hknown, hadjacency, ?_⟩
  · rw [← hcount, hchildren]
    decide
  · rw [← hknown]
    exact hlayout Float32 .relaxed LayoutSettings.default

end Layout

end DialogChart
