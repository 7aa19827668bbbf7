import DialogChart.Proofs.Layout.Visits
import Mathlib.Order.Fin.Basic

/-!
# Depth-first search

`visit` puts all children of a turn on its stack at once, and looks at a turn only when it comes off
the stack.  So the stack keeps entries for turns that are visited from somewhere deeper meanwhile.
This file gives the recursion that the stack stands for: `search` goes through siblings in order,
passes over those that have been visited, and searches the children of any other sibling before it
goes on.  It notes for every turn it finds who discovered it, which the stack does not know.

The stack does what the recursion does (`Searches.visit_append`), so the stale entries never count.
The discoverer of a turn is the last one of the turns found before it that has it as a child, and
the place that is noted is the first one that the turn has among the children of its discoverer
(`Searches.located`).  The main statement is `preorder_is_recursive_search`.
-/

namespace DialogChart

namespace Adjacency

open Packing (siblingsOf)

variable {n : Nat}

/-! ### The recursion -/

/-- A turn that a search finds. -/
structure Discovery (n : Nat) where
  /-- The turn among whose children it was found; a root has none. -/
  discoverer : Option (Fin n)
  /-- The turn that was found. -/
  turn : Fin n
  /-- Its place among the siblings. -/
  place : Nat

/-- What the preorder keeps of a discovery. -/
def Discovery.entry (d : Discovery n) : Fin n × Nat :=
  (d.turn, d.place)

/-- `search` with the bound on the turns that remain to be visited, by which the recursion ends. -/
def searchBounded (adj : Adjacency n) (visited : Vector Bool n) (discoverer : Option (Fin n))
    (siblings : List (Fin n × Nat)) :
    { r : List (Discovery n) × Vector Bool n // unvisited r.2 ≤ unvisited visited } :=
  match siblings with
  | [] => ⟨([], visited), Nat.le_refl _⟩
  | (i, place) :: rest =>
    if h : visited.get i = false then
      let inner := searchBounded adj (visited.set i true i.isLt) (some i)
        (adj.children.get i).zipIdx
      let others := searchBounded adj inner.val.2 discoverer rest
      ⟨(⟨discoverer, i, place⟩ :: (inner.val.1 ++ others.val.1), others.val.2),
        Nat.le_trans others.property
          (Nat.le_trans inner.property (Nat.le_of_lt (unvisited_set_lt h)))⟩
    else searchBounded adj visited discoverer rest
termination_by (unvisited visited, siblings.length)
decreasing_by
  · exact Prod.Lex.left _ _ (unvisited_set_lt h)
  · exact Prod.Lex.left _ _ (Nat.lt_of_le_of_lt inner.property (unvisited_set_lt h))
  · exact Prod.Lex.right _ (Nat.lt_succ_self _)

/-- Search siblings with their places, which have a discoverer in common: what is found, in order,
and the turns that have been visited afterwards. -/
def search (adj : Adjacency n) (visited : Vector Bool n) (discoverer : Option (Fin n))
    (siblings : List (Fin n × Nat)) : List (Discovery n) × Vector Bool n :=
  (adj.searchBounded visited discoverer siblings).val

section Equations

variable {adj : Adjacency n} {visited : Vector Bool n} {i : Fin n}

/-- Without siblings nothing is found. -/
@[simp] lemma search_nil (discoverer : Option (Fin n)) :
    adj.search visited discoverer [] = ([], visited) := by
  rw [search, searchBounded]

/-- A sibling that has been visited is passed over. -/
lemma search_visited (h : visited.get i = true) (discoverer : Option (Fin n)) (place : Nat)
    (rest : List (Fin n × Nat)) :
    adj.search visited discoverer ((i, place) :: rest) = adj.search visited discoverer rest := by
  have hn : ¬ visited.get i = false := by
    rw [h]
    exact Bool.true_eq_false_eq_False
  rw [search, searchBounded, dif_neg hn]
  rfl

/-- Any other sibling is found, and its children are searched before the search goes on. -/
lemma search_free (h : visited.get i = false) (discoverer : Option (Fin n)) (place : Nat)
    (rest : List (Fin n × Nat)) :
    adj.search visited discoverer ((i, place) :: rest) =
      let inner := adj.search (visited.set i true i.isLt) (some i) (adj.children.get i).zipIdx
      let others := adj.search inner.2 discoverer rest
      (⟨discoverer, i, place⟩ :: (inner.1 ++ others.1), others.2) := by
  rw [search, searchBounded, dif_pos h]
  rfl

end Equations

/-! ### The course of a search -/

/-- The course of a search: the turns that have been visited, the discoverer and its children with
their places, then what is found and the turns that have been visited afterwards. -/
inductive Searches (adj : Adjacency n) : Vector Bool n → Option (Fin n) → List (Fin n × Nat) →
    List (Discovery n) → Vector Bool n → Prop where
  /-- All siblings have been searched. -/
  | done (visited : Vector Bool n) (discoverer : Option (Fin n)) :
    Searches adj visited discoverer [] [] visited
  /-- The next sibling has been visited. -/
  | skip {visited last : Vector Bool n} {discoverer : Option (Fin n)} {i : Fin n} {place : Nat}
    {rest : List (Fin n × Nat)} {found : List (Discovery n)} :
    visited.get i = true → Searches adj visited discoverer rest found last →
    Searches adj visited discoverer ((i, place) :: rest) found last
  /-- The next sibling is found, then what lies below it, then what the other siblings lead to. -/
  | find {visited middle last : Vector Bool n} {discoverer : Option (Fin n)} {i : Fin n}
    {place : Nat} {rest : List (Fin n × Nat)} {inner others : List (Discovery n)} :
    visited.get i = false →
    Searches adj (visited.set i true i.isLt) (some i) (adj.children.get i).zipIdx inner middle →
    Searches adj middle discoverer rest others last →
    Searches adj visited discoverer ((i, place) :: rest)
      (⟨discoverer, i, place⟩ :: (inner ++ others)) last

/-- A search never adds to the turns that remain to be visited. -/
lemma unvisited_search_le (adj : Adjacency n) (visited : Vector Bool n)
    (discoverer : Option (Fin n)) (siblings : List (Fin n × Nat)) :
    unvisited (adj.search visited discoverer siblings).2 ≤ unvisited visited :=
  (adj.searchBounded visited discoverer siblings).property

/-- The recursion runs its course. -/
theorem searches_search (adj : Adjacency n) (visited : Vector Bool n)
    (discoverer : Option (Fin n)) (siblings : List (Fin n × Nat)) :
    Searches adj visited discoverer siblings (adj.search visited discoverer siblings).1
      (adj.search visited discoverer siblings).2 := by
  match siblings with
  | [] =>
    rw [search_nil]
    exact .done visited discoverer
  | (i, place) :: rest =>
    cases h : visited.get i with
    | true =>
      rw [search_visited h]
      exact .skip h (searches_search adj visited discoverer rest)
    | false =>
      have hinner := searches_search adj (visited.set i true i.isLt) (some i)
        (adj.children.get i).zipIdx
      rw [search_free h]
      exact .find h hinner (searches_search adj _ discoverer rest)
termination_by (unvisited visited, siblings.length)
decreasing_by
  · exact Prod.Lex.left _ _ (unvisited_set_lt h)
  · exact Prod.Lex.left _ _ (Nat.lt_of_le_of_lt (unvisited_search_le ..) (unvisited_set_lt h))
  · exact Prod.Lex.right _ (Nat.lt_succ_self _)

variable {adj : Adjacency n} {visited last : Vector Bool n} {discoverer : Option (Fin n)}
  {siblings : List (Fin n × Nat)} {found : List (Discovery n)}

/-- The stack does with the siblings on top of it what the recursion does with them, and goes on with
whatever lies below, among it entries of turns that the recursion has visited. -/
lemma Searches.visit_append (h : Searches adj visited discoverer siblings found last)
    (stack : List (Fin n × Nat)) :
    adj.visit visited (siblings ++ stack) =
      found.map Discovery.entry ++ adj.visit last stack := by
  induction h generalizing stack with
  | done => rfl
  | skip hvisited _ ih =>
    rw [List.cons_append, visit, dif_neg (by rw [hvisited]; exact Bool.true_eq_false_eq_False)]
    exact ih stack
  | find hfree _ _ ihInner ihRest =>
    rw [List.cons_append, visit, dif_pos hfree, ihInner, ihRest, List.map_cons, List.map_append,
      List.cons_append, List.append_assoc]
    rfl

/-! ### What has been visited -/

/-- After a search the turns have been visited that had been visited before or were found. -/
lemma Searches.visited_iff (h : Searches adj visited discoverer siblings found last) (j : Fin n) :
    last.get j = true ↔ visited.get j = true ∨ j ∈ found.map Discovery.turn := by
  induction h with
  | done => simp
  | skip _ _ ih => exact ih
  | @find visited middle last discoverer i place rest inner others _ _ _ ihInner ihRest =>
    rw [ihRest, ihInner, get_set, List.map_cons, List.map_append, List.mem_cons, List.mem_append]
    by_cases hji : j = i
    · simp [hji]
    · rw [if_neg hji]
      exact ⟨by tauto, by tauto⟩

/-- A turn that has been visited stays so. -/
lemma Searches.mono (h : Searches adj visited discoverer siblings found last) {j : Fin n}
    (hj : visited.get j = true) : last.get j = true :=
  (h.visited_iff j).mpr (.inl hj)

/-- A search finds turns that have not been visited, each of them once. -/
lemma Searches.fresh (h : Searches adj visited discoverer siblings found last) :
    (found.map Discovery.turn).Nodup ∧ ∀ j ∈ found.map Discovery.turn, visited.get j = false := by
  induction h with
  | done => exact ⟨List.nodup_nil, by simp⟩
  | skip _ _ ih => exact ih
  | @find visited middle last discoverer i place rest inner others hfree hinner _ ihInner ihRest =>
    obtain ⟨hnodupInner, hfreshInner⟩ := ihInner
    obtain ⟨hnodupRest, hfreshRest⟩ := ihRest
    -- Neither part finds the sibling itself, and the second part finds nothing of the first one.
    have hmiddle : ∀ j ∈ others.map Discovery.turn,
        (visited.set i true i.isLt).get j ≠ true ∧ j ∉ inner.map Discovery.turn := by
      intro j hj
      have hfalse := hfreshRest j hj
      rw [← Bool.not_eq_true, hinner.visited_iff, not_or] at hfalse
      exact hfalse
    have hnew : ∀ j ∈ inner.map Discovery.turn ++ others.map Discovery.turn,
        (visited.set i true i.isLt).get j = false := by
      intro j hj
      rcases List.mem_append.mp hj with hj | hj
      · exact hfreshInner j hj
      · exact Bool.not_eq_true _ ▸ (hmiddle j hj).1
    rw [List.map_cons, List.map_append]
    refine ⟨List.nodup_cons.mpr ⟨?_, ?_⟩, ?_⟩
    · intro hmem
      have hself := hnew i hmem
      rw [get_set, if_pos rfl] at hself
      cases hself
    · refine List.nodup_append'.mpr ⟨hnodupInner, hnodupRest, ?_⟩
      exact fun j hj hj' => (hmiddle j hj').2 hj
    · rw [List.forall_mem_cons]
      refine ⟨hfree, fun j hj => ?_⟩
      have hset := hnew j hj
      rw [get_set] at hset
      by_cases hji : j = i
      · rw [hji]
        exact hfree
      · rwa [if_neg hji] at hset

/-- A search leaves no sibling unvisited, and no child of a turn that it finds. -/
lemma Searches.complete (h : Searches adj visited discoverer siblings found last) :
    (∀ j ∈ siblings.map Prod.fst, last.get j = true) ∧
      ∀ i ∈ found.map Discovery.turn, ∀ j ∈ adj.children.get i, last.get j = true := by
  induction h with
  | done => exact ⟨by simp, by simp⟩
  | skip hvisited hrest ih =>
    refine ⟨?_, ih.2⟩
    rw [List.map_cons, List.forall_mem_cons]
    exact ⟨hrest.mono hvisited, ih.1⟩
  | @find visited middle last discoverer i place rest inner others _ hinner hrest ihInner ihRest =>
    refine ⟨?_, ?_⟩
    · rw [List.map_cons, List.forall_mem_cons]
      refine ⟨hrest.mono (hinner.mono ?_), ihRest.1⟩
      rw [get_set, if_pos rfl]
    · rw [List.map_cons, List.map_append, List.forall_mem_cons, List.forall_mem_append]
      refine ⟨fun j hj => ?_, fun p hp j hj => hrest.mono (ihInner.2 p hp j hj), ihRest.2⟩
      rw [List.zipIdx_map_fst] at ihInner
      exact hrest.mono (ihInner.1 j hj)

/-! ### Discoverers -/

/-- Who is the last one of some turns that has a given turn as a child, if there is one. -/
def LastParent (adj : Adjacency n) (earlier : List (Fin n)) (j : Fin n) : Option (Fin n) → Prop
  | none => ∀ p ∈ earlier, j ∉ adj.children.get p
  | some p => ∃ front back, earlier = front ++ p :: back ∧ j ∈ adj.children.get p ∧
      ∀ q ∈ back, j ∉ adj.children.get q

/-- A parent behind all other turns is the last one. -/
lemma lastParent_concat {i j : Fin n} (h : j ∈ adj.children.get i) (earlier : List (Fin n)) :
    LastParent adj (earlier ++ [i]) j (some i) :=
  ⟨earlier, [], rfl, h, by simp⟩

/-- Turns that do not have it as a child make no difference. -/
lemma LastParent.append {earlier others : List (Fin n)} {j : Fin n} {parent : Option (Fin n)}
    (h : LastParent adj earlier j parent) (hothers : ∀ p ∈ others, j ∉ adj.children.get p) :
    LastParent adj (earlier ++ others) j parent := by
  cases parent with
  | none => exact List.forall_mem_append.mpr ⟨h, hothers⟩
  | some p =>
    obtain ⟨front, back, rfl, hchild, hback⟩ := h
    refine ⟨front, back ++ others, ?_, hchild, List.forall_mem_append.mpr ⟨hback, hothers⟩⟩
    rw [List.append_assoc, List.cons_append]

/-- A discovery is noted as it should be: the discoverer is the last one of the turns found before
that has the turn as a child, or there is none and the turn is a root; and the place is the first one
of the turn among the children of its discoverer, or among the roots. -/
structure Located (adj : Adjacency n) (roots : List (Fin n)) (earlier : List (Fin n))
    (d : Discovery n) : Prop where
  discoverer : LastParent adj earlier d.turn d.discoverer
  mem : d.turn ∈ siblingsOf adj roots d.discoverer
  place : d.place = (siblingsOf adj roots d.discoverer).idxOf d.turn

/-- The discoveries behind some turns are noted as they should be. -/
def AllLocated (adj : Adjacency n) (roots : List (Fin n)) :
    List (Fin n) → List (Discovery n) → Prop
  | _, [] => True
  | earlier, d :: found =>
    adj.Located roots earlier d ∧ AllLocated adj roots (earlier ++ [d.turn]) found

/-- Discoveries may be looked at in two parts. -/
lemma allLocated_append {roots earlier : List (Fin n)} {first second : List (Discovery n)} :
    AllLocated adj roots earlier (first ++ second) ↔
      AllLocated adj roots earlier first ∧
        AllLocated adj roots (earlier ++ first.map Discovery.turn) second := by
  induction first generalizing earlier with
  | nil => simp [AllLocated]
  | cons d first ih =>
    rw [List.cons_append, AllLocated, AllLocated, ih, List.map_cons, and_assoc, List.append_assoc,
      List.singleton_append]

/-- The first entry of numbered siblings is the first sibling with the first number. -/
lemma exists_of_cons_eq_zipIdx {i : Fin n} {place k : Nat} {others : List (Fin n × Nat)}
    {rest : List (Fin n)} (h : (i, place) :: others = rest.zipIdx k) :
    ∃ later, rest = i :: later ∧ place = k ∧ others = later.zipIdx (k + 1) := by
  cases rest with
  | nil => cases h
  | cons r later =>
    rw [List.zipIdx_cons, List.cons.injEq, Prod.mk.injEq] at h
    exact ⟨later, by rw [h.1.1], h.1.2, h.2⟩

/-- A search notes its discoveries as it should, if the siblings that were passed over in front have
been visited, and the discoverer is the last one so far that has an unvisited sibling as a child. -/
lemma Searches.located (h : Searches adj visited discoverer siblings found last)
    {roots earlier passed rest : List (Fin n)}
    (hall : siblingsOf adj roots discoverer = passed ++ rest)
    (hsiblings : siblings = rest.zipIdx passed.length)
    (hpassed : ∀ j ∈ passed, visited.get j = true)
    (hlast : ∀ j ∈ siblingsOf adj roots discoverer, visited.get j = false →
      LastParent adj earlier j discoverer) :
    AllLocated adj roots earlier found := by
  induction h generalizing earlier passed rest with
  | done => trivial
  | @skip visited last discoverer i place others found hvisited _ ih =>
    obtain ⟨later, rfl, rfl, rfl⟩ := exists_of_cons_eq_zipIdx hsiblings
    refine @ih earlier (passed ++ [i]) later ?_ ?_ ?_ hlast
    · rw [hall, List.append_assoc, List.singleton_append]
    · rw [List.length_append, List.length_singleton]
    · rw [List.forall_mem_append]
      exact ⟨hpassed, by simpa using hvisited⟩
  | @find visited middle last discoverer i place others inner after hfree hinner _ ihInner ihRest =>
    obtain ⟨later, rfl, rfl, rfl⟩ := exists_of_cons_eq_zipIdx hsiblings
    have hmem : i ∈ siblingsOf adj roots discoverer := by
      rw [hall]
      exact List.mem_append_right _ List.mem_cons_self
    have hnotPassed : i ∉ passed := by
      intro hi
      rw [hpassed i hi] at hfree
      cases hfree
    have hkept : ∀ j, visited.get j = true → middle.get j = true := by
      intro j hj
      refine hinner.mono ?_
      rw [get_set, hj, ite_self]
    refine ⟨⟨hlast i hmem hfree, hmem, ?_⟩, allLocated_append.mpr ⟨?_, ?_⟩⟩
    · dsimp only
      rw [hall, List.idxOf_append_of_notMem hnotPassed, List.idxOf_cons_self, Nat.add_zero]
    · refine @ihInner (earlier ++ [i]) [] (adj.children.get i) rfl rfl (by simp) ?_
      exact fun j hj _ => lastParent_concat hj earlier
    · refine @ihRest _ (passed ++ [i]) later ?_ ?_ ?_ ?_
      · rw [hall, List.append_assoc, List.singleton_append]
      · rw [List.length_append, List.length_singleton]
      · rw [List.forall_mem_append]
        refine ⟨fun j hj => hkept j (hpassed j hj), ?_⟩
        rw [List.forall_mem_singleton]
        exact hinner.mono (by rw [get_set, if_pos rfl])
      · intro j hj hjfree
        -- Whatever was found since has no unvisited children, so the discoverer is still the last.
        have hvisited : ∀ p ∈ i :: inner.map Discovery.turn, ∀ j ∈ adj.children.get p,
            middle.get j = true := by
          rw [List.forall_mem_cons]
          refine ⟨fun j hj => hinner.complete.1 j ?_, hinner.complete.2⟩
          rw [List.zipIdx_map_fst]
          exact hj
        rw [← Bool.not_eq_true] at hjfree
        rw [List.append_assoc, List.singleton_append]
        refine (hlast j hj ?_).append fun p hp hjp => hjfree (hvisited p hp j hjp)
        rw [← Bool.not_eq_true]
        exact mt (hkept j) hjfree

/-! ### The preorder -/

/-- The preorder is what the recursive search from the roots finds: each turn that can be reached
once, and no others, a turn in front of what is found below it and its children in their order.  The
discoverer of a turn is the last one of the turns before it that has it as a child, and its place is
the first one among the children of the discoverer; a turn without one has its place among the
roots. -/
theorem preorder_is_recursive_search (adj : Adjacency n) (roots : List (Fin n)) :
    let found := (adj.search (.replicate n false) none roots.zipIdx).1
    adj.preorder roots = found.map Discovery.entry ∧
    ((adj.preorder roots).map Prod.fst).Nodup ∧
    (∀ i, i ∈ (adj.preorder roots).map Prod.fst ↔ adj.Reached roots i) ∧
    ∀ earlier d later, found = earlier ++ d :: later →
      adj.Located roots (earlier.map Discovery.turn) d := by
  intro found
  have hsearch : Searches adj (.replicate n false) none roots.zipIdx found
      (adj.search (.replicate n false) none roots.zipIdx).2 := searches_search ..
  have hpreorder : adj.preorder roots = found.map Discovery.entry := by
    have hvisit := hsearch.visit_append []
    rw [List.append_nil, visit, List.append_nil] at hvisit
    exact hvisit
  have hturns : (adj.preorder roots).map Prod.fst = found.map Discovery.turn := by
    rw [hpreorder, List.map_map]
    rfl
  refine ⟨hpreorder, ?_, mem_preorder_iff roots, ?_⟩
  · rw [hturns]
    exact hsearch.fresh.1
  · intro earlier d later hfound
    have hall : siblingsOf adj roots none = [] ++ roots := rfl
    have hlocated : AllLocated adj roots [] found :=
      hsearch.located hall rfl (by simp) fun j _ _ => by simp [LastParent]
    rw [hfound, allLocated_append] at hlocated
    exact hlocated.2.1

/-- A turn that two turns lead to, one of them a child of the other: the entry that the first one put
on the stack is stale by the time it comes off, since the second one has discovered the turn. -/
theorem preorder_is_recursive_search_shared :
    let adj : Adjacency 3 := .ofArcs [(0, 1), (0, 2), (1, 2)]
    let found : List (Discovery 3) := [⟨none, 0, 0⟩, ⟨some 0, 1, 0⟩, ⟨some 1, 2, 0⟩]
    (adj.search (.replicate 3 false) none [0].zipIdx).1 = found ∧
      adj.preorder [0] = [(0, 0), (1, 0), (2, 0)] ∧ adj.Located [0] [0, 1] ⟨some 1, 2, 0⟩ := by
  intro adj found
  have hfirst : (adj.children.get 0).zipIdx = [(1, 0), (2, 1)] := by decide
  have hsecond : (adj.children.get 1).zipIdx = [(2, 0)] := by decide
  have hthird : (adj.children.get 2).zipIdx = [] := by decide
  have hfound : (adj.search (.replicate 3 false) none [0].zipIdx).1 = found := by
    change (adj.search (.replicate 3 false) none [(0, 0)]).1 = found
    simp (disch := decide) only [search_free, search_visited, search_nil, hfirst, hsecond, hthird]
    rfl
  obtain ⟨hpreorder, -, -, hlocated⟩ := preorder_is_recursive_search adj [0]
  refine ⟨hfound, ?_, hlocated [⟨none, 0, 0⟩, ⟨some 0, 1, 0⟩] _ [] hfound⟩
  rw [hpreorder, hfound]
  rfl

end Adjacency

end DialogChart
