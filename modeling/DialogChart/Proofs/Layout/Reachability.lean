import DialogChart.Layout.Adjacency
import Mathlib.Data.List.MinMax
import Mathlib.Data.List.Nodup
import Mathlib.Data.String.Basic
import Mathlib.Logic.Relation

/-!
# What can be reached from the roots

`Adjacency.Reached` says that a turn can be reached from a list of turns by going from turn to
child, and `Graph.Reachable` says the same in terms of the edges of a graph whose ids are
distinct.  Two facts are used again and again: a set of turns that holds the starting turns and
the children of its members holds everything that can be reached (`Reached.mem_of_closed`), and
the preorder lists exactly what can be reached (`mem_preorder_iff`).
-/

namespace DialogChart

/-! ### Reading vectors at known indices -/

/-- Reading a vector at one index after a write at another. -/
lemma get_set {β : Type} {n : Nat} (v : Vector β n) (i j : Fin n) (b : β) :
    (v.set i b i.isLt).get j = if j = i then b else v.get j := by
  have hread : (v.set i b i.isLt).get j = if i.val = j.val then b else v.get j :=
    Vector.getElem_set i.isLt j.isLt
  simp only [hread, Fin.ext_iff, eq_comm]

@[simp] lemma get_ofFn {β : Type} {n : Nat} (f : Fin n → β) (i : Fin n) :
    (Vector.ofFn f).get i = f i :=
  Vector.getElem_ofFn i.isLt

@[simp] lemma get_replicate {β : Type} {n : Nat} (b : β) (i : Fin n) :
    (Vector.replicate n b).get i = b :=
  Vector.getElem_replicate i.isLt

namespace Adjacency

variable {n : Nat} {adj : Adjacency n}

/-! ### Reaching a turn -/

/-- A turn can be reached from one of the given turns. -/
def Reached (adj : Adjacency n) (starts : List (Fin n)) (i : Fin n) : Prop :=
  ∃ r ∈ starts, Relation.ReflTransGen (fun a b => b ∈ adj.children.get a) r i

/-- The turns one starts from are reached. -/
lemma Reached.of_mem {starts : List (Fin n)} {i : Fin n} (h : i ∈ starts) :
    adj.Reached starts i :=
  ⟨i, h, .refl⟩

/-- The children of a turn that is reached are reached. -/
lemma Reached.child {starts : List (Fin n)} {i j : Fin n} (h : adj.Reached starts i)
    (hj : j ∈ adj.children.get i) : adj.Reached starts j := by
  obtain ⟨r, hr, hri⟩ := h
  exact ⟨r, hr, hri.tail hj⟩

/-- What is reached from turns that are reached is reached. -/
lemma Reached.trans {starts middle : List (Fin n)} {i : Fin n} (h : adj.Reached middle i)
    (hm : ∀ m ∈ middle, adj.Reached starts m) : adj.Reached starts i := by
  obtain ⟨m, hmem, hmi⟩ := h
  obtain ⟨r, hr, hrm⟩ := hm m hmem
  exact ⟨r, hr, hrm.trans hmi⟩

/-- What can be reached from some turns can be reached from more turns. -/
lemma Reached.mono {starts more : List (Fin n)} {i : Fin n} (h : adj.Reached starts i)
    (hsub : starts ⊆ more) : adj.Reached more i :=
  h.trans fun _ hm => .of_mem (hsub hm)

/-- A turn that is reached is one that one starts from, or a child of a turn that is reached. -/
lemma Reached.mem_or_child {starts : List (Fin n)} {i : Fin n} (h : adj.Reached starts i) :
    i ∈ starts ∨ ∃ a, adj.Reached starts a ∧ i ∈ adj.children.get a := by
  obtain ⟨r, hr, hri⟩ := h
  cases hri with
  | refl => exact .inl hr
  | @tail a _ hra hai => exact .inr ⟨a, ⟨r, hr, hra⟩, hai⟩

/-- A set of turns that holds the starting turns and the children of its members holds
everything that is reached. -/
lemma Reached.mem_of_closed {starts : List (Fin n)} {i : Fin n} (h : adj.Reached starts i)
    {P : Fin n → Prop} (hstart : ∀ r ∈ starts, P r)
    (hchild : ∀ a b, P a → b ∈ adj.children.get a → P b) : P i := by
  obtain ⟨r, hr, hri⟩ := h
  induction hri with
  | refl => exact hstart r hr
  | tail _ hbc ih => exact hchild _ _ ih hbc

/-! ### The preorder -/

/-- Everything that a visit notes is reached from the stack. -/
lemma reached_of_mem_visit {visited : Vector Bool n} {stack : List (Fin n × Nat)} {i : Fin n}
    (h : i ∈ (adj.visit visited stack).map Prod.fst) :
    adj.Reached (stack.map Prod.fst) i := by
  induction visited, stack using Adjacency.visit.induct adj with
  | case1 visited =>
    rw [Adjacency.visit] at h
    simp at h
  | case2 visited a place stack hfree ih =>
    rw [Adjacency.visit, dif_pos hfree, List.map_cons, List.mem_cons] at h
    rcases h with rfl | h
    · exact .of_mem (by simp)
    · refine (ih h).trans fun m hm => ?_
      rw [List.map_append, List.mem_append, List.zipIdx_map_fst] at hm
      rcases hm with hm | hm
      · exact Reached.child (.of_mem (by simp)) hm
      · exact .of_mem (List.mem_cons_of_mem _ hm)
  | case3 visited a place stack hmet ih =>
    rw [Adjacency.visit, dif_neg hmet] at h
    exact (ih h).mono (List.subset_cons_self _ _)

/-- A visit leaves nothing on the stack unvisited, and no child of a turn that it notes. -/
lemma visit_complete (visited : Vector Bool n) (stack : List (Fin n × Nat)) :
    (∀ i ∈ stack.map Prod.fst,
      visited.get i = true ∨ i ∈ (adj.visit visited stack).map Prod.fst) ∧
    ∀ i ∈ (adj.visit visited stack).map Prod.fst, ∀ j ∈ adj.children.get i,
      visited.get j = true ∨ j ∈ (adj.visit visited stack).map Prod.fst := by
  induction visited, stack using Adjacency.visit.induct adj with
  | case1 visited =>
    rw [Adjacency.visit]
    simp
  | case2 visited a place stack hfree ih =>
    obtain ⟨ihStack, ihChild⟩ := ih
    rw [Adjacency.visit, dif_pos hfree]
    simp only [List.map_cons]
    -- A turn that is marked on the way down is either the one just noted or was marked before.
    have key : ∀ j noted, ((visited.set a true a.isLt).get j = true ∨ j ∈ noted) →
        visited.get j = true ∨ j ∈ a :: noted := by
      intro j noted hj
      rw [get_set] at hj
      by_cases hja : j = a
      · exact .inr (hja ▸ List.mem_cons_self)
      · rw [if_neg hja] at hj
        exact hj.imp id (List.mem_cons_of_mem _)
    have hnew : ∀ j ∈ adj.children.get a,
        j ∈ ((adj.children.get a).zipIdx ++ stack).map Prod.fst := by
      intro j hj
      rw [List.map_append, List.mem_append, List.zipIdx_map_fst]
      exact .inl hj
    refine ⟨?_, ?_⟩
    · intro i hi
      rw [List.mem_cons] at hi
      rcases hi with rfl | hi
      · exact .inr List.mem_cons_self
      · refine key i _ (ihStack i ?_)
        rw [List.map_append, List.mem_append]
        exact .inr hi
    · intro i hi j hj
      rw [List.mem_cons] at hi
      rcases hi with rfl | hi
      · exact key j _ (ihStack j (hnew j hj))
      · exact key j _ (ihChild i hi j hj)
  | case3 visited a place stack hmet ih =>
    obtain ⟨ihStack, ihChild⟩ := ih
    rw [Adjacency.visit, dif_neg hmet]
    refine ⟨?_, ihChild⟩
    intro i hi
    rw [List.map_cons, List.mem_cons] at hi
    rcases hi with rfl | hi
    · exact .inl (by simpa using hmet)
    · exact ihStack i hi

/-- The preorder lists exactly the turns that can be reached from the roots. -/
theorem mem_preorder_iff (roots : List (Fin n)) (i : Fin n) :
    i ∈ (adj.preorder roots).map Prod.fst ↔ adj.Reached roots i := by
  have hroots : roots.zipIdx.map Prod.fst = roots := List.zipIdx_map_fst ..
  obtain ⟨hstack, hchild⟩ := adj.visit_complete (.replicate n false) roots.zipIdx
  have hnone : ∀ j : Fin n, ¬ (Vector.replicate n false).get j = true := by simp
  constructor
  · intro h
    rw [← hroots]
    exact reached_of_mem_visit h
  · intro h
    refine h.mem_of_closed (fun r hr => ?_) (fun a b ha hb => ?_)
    · exact (hstack r (hroots.symm ▸ hr)).resolve_left (hnone r)
    · exact (hchild a ha b hb).resolve_left (hnone b)

/-! ### The children of a list of arcs -/

/-- The children of a turn are the ends of the arcs that leave it. -/
@[simp] lemma mem_children_ofArcs {arcs : List (Fin n × Fin n)} {i j : Fin n} :
    j ∈ (ofArcs arcs).children.get i ↔ (i, j) ∈ arcs := by
  simp [ofArcs]

/-- The parents of a turn are the starts of the arcs that lead to it. -/
@[simp] lemma mem_parents_ofArcs {arcs : List (Fin n × Fin n)} {i j : Fin n} :
    i ∈ (ofArcs arcs).parents.get j ↔ (i, j) ∈ arcs := by
  simp [ofArcs]

/-- The orphans are the turns without parents. -/
lemma mem_orphans {i : Fin n} : i ∈ adj.orphans ↔ adj.parents.get i = [] := by
  simp [orphans]

end Adjacency

/-! ### Graphs with distinct ids -/

namespace Graph

/-- No two turns have the same id. -/
def UniqueIds (g : Graph) : Prop :=
  (g.turns.map (·.id)).Nodup

/-- An edge leads from one turn to another. -/
def Leads (g : Graph) (i j : Fin g.size) : Prop :=
  ∃ e ∈ g.edges, e.source = (g.turns.get i).id ∧ e.target = (g.turns.get j).id

/-- A turn can be reached from the roots along edges between turns of the graph. -/
def Reachable (g : Graph) (i : Fin g.size) : Prop :=
  ∃ r ∈ g.roots g.adjacency, Relation.ReflTransGen g.Leads r i

variable {g : Graph}

/-- In a graph with distinct ids the id tells the turn. -/
lemma UniqueIds.id_inj (hg : g.UniqueIds) {i j : Fin g.size}
    (h : (g.turns.get i).id = (g.turns.get j).id) : i = j := by
  have hinj := List.nodup_iff_injective_getElem.mp hg
  have hij := @hinj ⟨i, by simp⟩ ⟨j, by simp⟩ (by simpa using h)
  exact Fin.ext (by simpa using hij)

/-- The index of an id belongs to a turn with this id. -/
lemma id_of_index? {id : String} {i : Fin g.size} (h : g.index? id = some i) :
    (g.turns.get i).id = id := by
  have hi := (List.findFinIdx?_eq_some_iff.mp h).1
  simpa using hi

/-- In a graph with distinct ids every turn is found under its id. -/
lemma UniqueIds.index?_eq_some_iff (hg : g.UniqueIds) {id : String} {i : Fin g.size} :
    g.index? id = some i ↔ (g.turns.get i).id = id := by
  constructor
  · exact id_of_index?
  · intro h
    cases hfound : g.index? id with
    | none =>
      have hnone := List.findFinIdx?_eq_none_iff.mp hfound (g.turns.get i) (List.getElem_mem _)
      exact absurd h (by simpa using hnone)
    | some j => rw [hg.id_inj ((id_of_index? hfound).trans h.symm)]

/-- The arcs of a graph are its edges between known turns. -/
lemma mem_arcs_iff {i j : Fin g.size} :
    (i, j) ∈ g.arcs ↔
      ∃ e ∈ g.edges, g.index? e.source = some i ∧ g.index? e.target = some j := by
  unfold arcs
  rw [List.mem_filterMap]
  refine exists_congr fun e => and_congr_right fun _ => ?_
  unfold ends?
  cases g.index? e.source <;> cases g.index? e.target <;> simp

/-- The children of a turn are the turns that an edge leads to. -/
lemma UniqueIds.mem_children_iff (hg : g.UniqueIds) {i j : Fin g.size} :
    j ∈ g.adjacency.children.get i ↔ g.Leads i j := by
  unfold adjacency
  rw [Adjacency.mem_children_ofArcs, mem_arcs_iff]
  refine exists_congr fun e => and_congr_right fun _ => ?_
  rw [hg.index?_eq_some_iff, hg.index?_eq_some_iff, eq_comm, @eq_comm _ _ e.target]

/-- The parents of a turn are the turns from which an edge leads to it. -/
lemma UniqueIds.mem_parents_iff (hg : g.UniqueIds) {i j : Fin g.size} :
    i ∈ g.adjacency.parents.get j ↔ g.Leads i j := by
  rw [← hg.mem_children_iff]
  unfold adjacency
  rw [Adjacency.mem_parents_ofArcs, Adjacency.mem_children_ofArcs]

/-- Going from turn to child is following edges. -/
lemma UniqueIds.reached_iff (hg : g.UniqueIds) (i : Fin g.size) :
    g.adjacency.Reached (g.roots g.adjacency) i ↔ g.Reachable i := by
  have hstep : (fun a b => b ∈ g.adjacency.children.get a) = g.Leads := by
    funext a b
    exact propext hg.mem_children_iff
  unfold Adjacency.Reached Reachable
  rw [hstep]

/-! ### Roots -/

/-- The turn with the smallest id is the first one at which the ids are least. -/
lemma smallest?_eq_argmin (g : Graph) :
    g.smallest? = (List.finRange g.size).argmin fun i => (g.turns.get i).id := by
  unfold smallest? List.argmin
  congr 1
  funext best i
  cases best with
  | none => rfl
  | some b => simp only [List.argAux]

/-- Among some turns there is a smallest one. -/
lemma smallest?_ne_none (h : 0 < g.size) : g.smallest? ≠ none := by
  rw [smallest?_eq_argmin, ne_eq, List.argmin_eq_none, ← List.length_eq_zero_iff,
    List.length_finRange]
  exact Nat.ne_of_gt h

/-- No id lies below the smallest one. -/
lemma smallest?_le {r : Fin g.size} (h : g.smallest? = some r) (i : Fin g.size) :
    (g.turns.get r).id ≤ (g.turns.get i).id := by
  rw [smallest?_eq_argmin] at h
  exact List.le_of_mem_argmin (f := fun i => (g.turns.get i).id) (List.mem_finRange i) h

/-- Where there are turns without parents, these are the roots. -/
lemma roots_of_orphans_ne_nil {adj : Adjacency g.size} (h : adj.orphans ≠ []) :
    g.roots adj = adj.orphans := by
  unfold roots
  split
  · contradiction
  · rfl

/-- Where every turn has parents, the turn with the smallest id is the root. -/
lemma roots_of_orphans_eq_nil {adj : Adjacency g.size} (h : adj.orphans = []) :
    g.roots adj = g.smallest?.toList := by
  unfold roots
  rw [h]

/-- A graph with turns has a root. -/
lemma roots_ne_nil (h : 0 < g.size) : g.roots g.adjacency ≠ [] := by
  by_cases horphans : g.adjacency.orphans = []
  · rw [roots_of_orphans_eq_nil horphans]
    simpa using smallest?_ne_none h
  · rw [roots_of_orphans_ne_nil horphans]
    exact horphans

end Graph

end DialogChart
