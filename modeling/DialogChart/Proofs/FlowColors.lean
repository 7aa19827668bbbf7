import DialogChart.Color.Basic
import DialogChart.Diagram
import DialogChart.Proofs.FirstOccurrence
import DialogChart.Proofs.Table
import Mathlib.Data.Finset.Card
import Mathlib.Data.List.Rotate

/-!
# Flows take the colours in turn

The memo of the colours does not store which colour comes next: it is told by the number of flows
that have one.  This file says what a whole sequence of calls comes to.  The rank of a flow is the
number of different flows that were asked for before it was asked for the first time, and every
call for the flow gives the colour at its rank, counted around the palette.

`Assigned` is what is true of the memo between two calls.  One call keeps it (`Assigned.colorOf`),
so it holds after any number of calls, and the colours are read off it (`colorsOf_eq`).  An empty
palette gives black to every flow and leaves the memo empty.  The main statement is
`flows_take_colors_in_turn`, for sequences of calls and for the diagram of a graph.
-/

namespace DialogChart

namespace Palette

variable {κ : Type} (black : κ)

/-- The colour at an index, counted around the palette; without colours it is black. -/
def shade (palette : Palette κ) (index : Nat) : κ :=
  (palette.get? index).getD black

/-- A palette with colours has a colour at every index. -/
lemma get?_eq_shade {palette : Palette κ} (h : palette.colors ≠ []) (index : Nat) :
    palette.get? index = some (palette.shade black index) := by
  have hlt : index % palette.colors.length < palette.colors.length :=
    Nat.mod_lt _ (List.length_pos_of_ne_nil h)
  have hfound : palette.get? index = some palette.colors[index % palette.colors.length] :=
    List.getElem?_eq_getElem hlt
  unfold shade
  rw [hfound, Option.getD_some]

/-- A palette without colours has none at any index. -/
lemma get?_eq_none {palette : Palette κ} (h : palette.colors = []) (index : Nat) :
    palette.get? index = none := by
  unfold get?
  rw [h, List.getElem?_nil]

/-- As many colours in a row as the palette has are the colours of the palette, from some place
on and around. -/
lemma map_shade_window {palette : Palette κ} (h : palette.colors ≠ []) {k count : Nat}
    (hk : k + palette.size ≤ count) :
    ((((List.range count).map (palette.shade black)).drop k).take palette.size) =
      palette.colors.rotate k := by
  refine List.ext_getElem? fun i => ?_
  rcases Nat.lt_or_ge i palette.size with hi | hi
  · have hrange : (List.range count)[k + i]? = some (k + i) :=
      List.getElem?_range (Nat.lt_of_lt_of_le (Nat.add_lt_add_left hi k) hk)
    rw [List.getElem?_take_of_lt hi, List.getElem?_drop, List.getElem?_map, hrange,
      Option.map_some, List.getElem?_rotate hi, Nat.add_comm i k, ← get?_eq_shade black h]
    rfl
  · have hlong : palette.colors.length ≤ i := hi
    rw [List.getElem?_take_eq_none hi, List.getElem?_eq_none (by rwa [List.length_rotate])]

end Palette

namespace FlowColors

/-! ### The rank of a flow -/

/-- The number of different flows that are asked for before a flow is asked for the first time. -/
def rank (flows : List String) (flow : String) : Nat :=
  (flows.takeWhile (· ≠ flow)).toFinset.card

/-- The rank of a flow is the number of different flows before its first place. -/
lemma rank_eq {before : List String} {flow : String} (h : flow ∉ before) (after : List String) :
    rank (before ++ flow :: after) flow = before.toFinset.card := by
  have hall : ∀ f ∈ before, decide (f ≠ flow) = true :=
    fun f hf => decide_eq_true fun heq => h (heq ▸ hf)
  unfold rank
  rw [List.takeWhile_append_of_pos hall, List.takeWhile_cons_of_neg (by simp), List.append_nil]

/-- A flow that has been asked for keeps its rank. -/
lemma rank_append {flows : List String} {flow : String} (h : flow ∈ flows) (more : List String) :
    rank (flows ++ more) flow = rank flows flow := by
  obtain ⟨before, after, rfl, hbefore⟩ := List.eq_append_cons_of_mem h
  rw [List.append_assoc, List.cons_append, rank_eq hbefore, rank_eq hbefore]

/-- There are as many different flows as first occurrences. -/
lemma length_firsts (flows : List String) :
    (firstsBy id flows).length = flows.toFinset.card := by
  have hnodup : (firstsBy id flows).Nodup := by
    simpa only [List.map_id] using nodup_keys_firstsBy id flows
  have hsame : (firstsBy id flows).toFinset = flows.toFinset := by
    ext flow
    rw [List.mem_toFinset, List.mem_toFinset]
    simpa only [List.map_id] using mem_keys_firstsBy id flows flow
  rw [← hsame, List.toFinset_card_of_nodup hnodup]

/-- New flows come at the ranks from zero on, one after the other. -/
lemma map_rank_firsts (flows : List String) :
    (firstsBy id flows).map (rank flows) = List.range (firstsBy id flows).length := by
  induction flows using List.reverseRecOn with
  | nil => rfl
  | append_singleton flows flow ih =>
    have hold : (firstsBy id flows).map (rank (flows ++ [flow])) =
        (firstsBy id flows).map (rank flows) := by
      refine List.map_congr_left fun f hf => ?_
      exact rank_append ((firstsBy_sublist id flows).subset hf) [flow]
    rw [firstsBy_concat, List.map_id]
    by_cases hmem : flow ∈ flows
    · rw [id, if_pos hmem, hold, ih]
    · rw [id, if_neg hmem, List.map_append, hold, ih, List.length_append, List.length_singleton,
        List.range_succ, List.map_singleton, rank_eq hmem, length_firsts]

/-! ### The memo between two calls -/

/-- The memo after some flows were asked for: it has as many entries as there were different flows,
and every one of them is there with the colour at its rank. -/
structure Assigned {κ : Type} (black : κ) (palette : Palette κ) (flows : List String)
    (memo : FlowColors κ) : Prop where
  size : memo.size = flows.toFinset.card
  get? : ∀ flow, memo.get? flow =
    if flow ∈ flows then some (palette.shade black (rank flows flow)) else none

variable {κ : Type} {black : κ} {palette : Palette κ} {flows : List String} {memo : FlowColors κ}

/-- Before the first call the memo is empty. -/
lemma assigned_empty (black : κ) (palette : Palette κ) : Assigned black palette [] ∅ where
  size := rfl
  get? := fun _ => rfl

/-- A flow that is known changes neither the number of flows nor their ranks. -/
lemma Assigned.known (h : Assigned black palette flows memo) {flow : String} (hmem : flow ∈ flows) :
    Assigned black palette (flows ++ [flow]) memo where
  size := by
    have hsub : ({flow} : Finset String) ⊆ flows.toFinset := by simpa using hmem
    rw [h.size, List.toFinset_append, List.toFinset_cons, List.toFinset_nil, insert_empty_eq,
      Finset.union_eq_left.mpr hsub]
  get? := by
    intro other
    have hiff : other ∈ flows ++ [flow] ↔ other ∈ flows := by
      rw [List.mem_append, List.mem_singleton, or_iff_left_iff_imp]
      exact fun heq => heq ▸ hmem
    rw [h.get?]
    by_cases hother : other ∈ flows
    · rw [if_pos hother, if_pos (hiff.mpr hother), rank_append hother]
    · rw [if_neg hother, if_neg (mt hiff.mp hother)]

/-- A new flow gets the colour at its rank, which is the number of flows before it. -/
lemma Assigned.insert (h : Assigned black palette flows memo) {flow : String}
    (hmem : flow ∉ flows) :
    Assigned black palette (flows ++ [flow])
      (memo.insert flow (palette.shade black (rank (flows ++ [flow]) flow))) where
  size := by
    have hmissing : memo.get? flow = none := by rw [h.get?, if_neg hmem]
    have hdisjoint : Disjoint flows.toFinset {flow} := by simpa using hmem
    rw [Table.size_insert_of_not_mem _ (Table.get?_eq_none_iff.mp hmissing), h.size,
      List.toFinset_append, List.toFinset_cons, List.toFinset_nil, insert_empty_eq,
      Finset.card_union_of_disjoint hdisjoint, Finset.card_singleton]
  get? := by
    intro other
    rw [Table.get?_insert, h.get?]
    by_cases hother : other = flow
    · rw [if_pos hother, if_pos (by simp [hother]), hother]
    · rw [if_neg hother]
      by_cases hin : other ∈ flows
      · rw [if_pos hin, if_pos (List.mem_append_left _ hin), rank_append hin]
      · rw [if_neg hin, if_neg (by simp [hin, hother])]

/-- One call gives the colour at the rank of its flow, and the memo stays as it should be. -/
lemma Assigned.colorOf (hcolors : palette.colors ≠ []) (h : Assigned black palette flows memo)
    (flow : String) :
    (FlowColors.colorOf black palette memo flow).1 =
        palette.shade black (rank (flows ++ [flow]) flow) ∧
      Assigned black palette (flows ++ [flow]) (FlowColors.colorOf black palette memo flow).2 := by
  have hget := h.get? flow
  unfold FlowColors.colorOf
  by_cases hmem : flow ∈ flows
  · rw [if_pos hmem] at hget
    simp only [hget]
    exact ⟨by rw [rank_append hmem], h.known hmem⟩
  · -- The palette is asked at the size of the memo, which is the rank of the new flow.
    have hnext := Palette.get?_eq_shade black hcolors memo.size
    rw [if_neg hmem] at hget
    simp only [hget, hnext]
    rw [h.size, ← rank_eq hmem []]
    exact ⟨rfl, h.insert hmem⟩

/-- Any number of calls give the colours at the ranks of their flows. -/
lemma Assigned.colorsOf (hcolors : palette.colors ≠ []) (h : Assigned black palette flows memo)
    (calls : List String) :
    (FlowColors.colorsOf black palette memo calls).1 =
        calls.map (fun flow => palette.shade black (rank (flows ++ calls) flow)) ∧
      Assigned black palette (flows ++ calls) (FlowColors.colorsOf black palette memo calls).2 := by
  induction calls generalizing flows memo with
  | nil =>
    rw [List.append_nil]
    exact ⟨rfl, h⟩
  | cons flow rest ih =>
    obtain ⟨hcolor, hnext⟩ := h.colorOf hcolors flow
    obtain ⟨hrest, hlast⟩ := ih hnext
    have hassoc : flows ++ [flow] ++ rest = flows ++ flow :: rest := by
      rw [List.append_assoc, List.singleton_append]
    rw [hassoc] at hrest hlast
    have hrank : rank (flows ++ flow :: rest) flow = rank (flows ++ [flow]) flow := by
      rw [← hassoc]
      exact rank_append (by simp) rest
    refine ⟨?_, hlast⟩
    rw [List.map_cons, hrank, ← hcolor, ← hrest]
    rfl

/-! ### Whole sequences of calls -/

/-- Without colours every call gives black and nothing is remembered. -/
lemma colorsOf_of_nil (hcolors : palette.colors = []) (calls : List String) :
    FlowColors.colorsOf black palette ∅ calls = (calls.map fun _ => black, ∅) := by
  induction calls with
  | nil => rfl
  | cons flow rest ih =>
    have hcall : FlowColors.colorOf black palette ∅ flow = (black, ∅) := by
      have hmissing : (∅ : FlowColors κ).get? flow = none := rfl
      unfold FlowColors.colorOf
      simp only [hmissing, Palette.get?_eq_none hcolors]
    unfold FlowColors.colorsOf
    simp only [hcall, ih, List.map_cons]

/-- A sequence of calls gives every flow the colour at its rank. -/
lemma colorsOf_eq (black : κ) (palette : Palette κ) (calls : List String) :
    (FlowColors.colorsOf black palette ∅ calls).1 =
      calls.map fun flow => palette.shade black (rank calls flow) := by
  by_cases hcolors : palette.colors = []
  · have hblack : ∀ index, palette.shade black index = black := by
      intro index
      unfold Palette.shade
      rw [Palette.get?_eq_none hcolors, Option.getD_none]
    rw [colorsOf_of_nil hcolors]
    simp only [hblack]
  · exact ((assigned_empty black palette).colorsOf hcolors calls).1

/-- The colours of the calls in which a flow was asked for the first time, in order. -/
def firstColors (calls : List String) (colors : List κ) : List κ :=
  (firstsBy Prod.fst (calls.zip colors)).map Prod.snd

/-- New flows take the colours from the first one on. -/
lemma firstColors_colorsOf (palette : Palette κ) (calls : List String) :
    firstColors calls (FlowColors.colorsOf black palette ∅ calls).1 =
      (List.range (firstsBy id calls).length).map (palette.shade black) := by
  have hpairs : calls.zip (FlowColors.colorsOf black palette ∅ calls).1 =
      calls.map fun flow => (flow, palette.shade black (rank calls flow)) := by
    have hzip : (calls.map id).zip (calls.map fun flow => palette.shade black (rank calls flow)) =
        calls.map fun flow => (flow, palette.shade black (rank calls flow)) := List.zip_map'
    rwa [List.map_id, ← colorsOf_eq] at hzip
  have hfirsts := map_firstsBy id Prod.fst
    (fun flow => (flow, palette.shade black (rank calls flow))) calls fun _ _ => rfl
  unfold firstColors
  rw [hpairs, ← hfirsts, List.map_map, ← map_rank_firsts, List.map_map]
  rfl

end FlowColors

namespace Diagram

/-- The turns of a diagram are those of the graph, at the places of the layout and in the colours
at the ranks of their flows. -/
lemma turns_ofLayout {κ : Type} (black : κ) (g : Graph) (layout : Layout Float32)
    (palette : Palette κ) :
    (ofLayout black g layout palette).value.turns = g.turns.map fun t =>
      ⟨t, layout.position? t.id,
        palette.shade black (FlowColors.rank (g.turns.map (·.flow)) t.flow)⟩ := by
  have hturns : (ofLayout black g layout palette).value.turns =
      g.turns.zipWith (fun t color => ⟨t, layout.position? t.id, color⟩)
        (FlowColors.colorsOf black palette ∅ (g.turns.map (·.flow))).1 := rfl
  rw [hturns, FlowColors.colorsOf_eq, List.map_map, List.zipWith_map_right, List.zipWith_self]
  rfl

end Diagram

/-- Flows take the colours of a palette in turn, in the order in which they are asked for the
first time.

In a sequence of calls with a palette of `n` colours every call gives the colour at the rank of its
flow modulo `n`, any `n` flows that are new one after the other get the colours of the palette in
their cyclic order, and at every moment the memo has an entry for each flow so far.  An empty
palette gives black to every call, and the memo stays empty.  Two calls for one flow always agree.

So the diagram of a graph keeps its turns and edges, colours every turn by the rank of its flow
among the flows of the turns, and never gives two colours to one flow. -/
theorem flows_take_colors_in_turn {κ : Type} (black : κ) (palette : Palette κ) :
    (∀ calls : List String,
      (palette.colors ≠ [] →
        (FlowColors.colorsOf black palette ∅ calls).1.map some =
            calls.map (fun flow =>
              palette.colors[FlowColors.rank calls flow % palette.size]?) ∧
          (∀ k, k + palette.size ≤ (FlowColors.firstColors calls
              (FlowColors.colorsOf black palette ∅ calls).1).length →
            ((FlowColors.firstColors calls
              (FlowColors.colorsOf black palette ∅ calls).1).drop k).take palette.size =
                palette.colors.rotate k) ∧
          ∀ before, before <+: calls →
            (FlowColors.colorsOf black palette ∅ before).2.size = before.toFinset.card) ∧
      (palette.colors = [] →
        (FlowColors.colorsOf black palette ∅ calls).1 = calls.map (fun _ => black) ∧
          ∀ before, before <+: calls → (FlowColors.colorsOf black palette ∅ before).2 = ∅) ∧
      ∀ i j : Nat, calls[i]? = calls[j]? →
        (FlowColors.colorsOf black palette ∅ calls).1[i]? =
          (FlowColors.colorsOf black palette ∅ calls).1[j]?) ∧
    ∀ (g : Graph) (layout : Layout Float32),
      (Diagram.ofLayout black g layout palette).value.turns.map (·.turn) = g.turns ∧
      (Diagram.ofLayout black g layout palette).value.edges = g.edges ∧
      (palette.colors ≠ [] →
        (Diagram.ofLayout black g layout palette).value.turns.map (fun t => some t.color) =
          g.turns.map fun t => palette.colors[
            FlowColors.rank (g.turns.map (·.flow)) t.flow % palette.size]?) ∧
      ∀ t ∈ (Diagram.ofLayout black g layout palette).value.turns,
        ∀ t' ∈ (Diagram.ofLayout black g layout palette).value.turns,
          t.turn.flow = t'.turn.flow → t.color = t'.color := by
  refine ⟨fun calls => ⟨?_, ?_, ?_⟩, fun g layout => ⟨?_, rfl, ?_, ?_⟩⟩
  · intro hcolors
    refine ⟨?_, ?_, ?_⟩
    · rw [FlowColors.colorsOf_eq, List.map_map]
      refine List.map_congr_left fun flow _ => ?_
      exact (Palette.get?_eq_shade black hcolors _).symm
    · intro k hk
      rw [FlowColors.firstColors_colorsOf] at hk ⊢
      rw [List.length_map, List.length_range] at hk
      exact Palette.map_shade_window black hcolors hk
    · intro before _
      exact ((FlowColors.assigned_empty black palette).colorsOf hcolors before).2.size
  · intro hcolors
    refine ⟨?_, fun before _ => ?_⟩
    · rw [FlowColors.colorsOf_of_nil hcolors]
    · rw [FlowColors.colorsOf_of_nil hcolors]
  · intro i j hsame
    rw [FlowColors.colorsOf_eq, List.getElem?_map, List.getElem?_map, hsame]
  · rw [Diagram.turns_ofLayout, List.map_map]
    exact List.map_id _
  · intro hcolors
    rw [Diagram.turns_ofLayout, List.map_map]
    refine List.map_congr_left fun t _ => ?_
    exact (Palette.get?_eq_shade black hcolors _).symm
  · intro t ht t' ht' hflow
    rw [Diagram.turns_ofLayout, List.mem_map] at ht ht'
    obtain ⟨turn, -, rfl⟩ := ht
    obtain ⟨turn', -, rfl⟩ := ht'
    exact congrArg (fun flow => palette.shade black (FlowColors.rank _ flow)) hflow

/-- Two colours for three flows, the first of which is asked for again: the third flow starts over,
and in a diagram all turns of the first flow are of the first colour. -/
theorem flows_take_colors_in_turn_around :
    let palette : Palette Color := ⟨[.named "red", .named "blue"]⟩
    let g : Graph :=
      { turns := [⟨"a", "a", .bot, "x"⟩, ⟨"b", "b", .user, "y"⟩, ⟨"c", "c", .bot, "x"⟩,
          ⟨"d", "d", .user, "z"⟩] }
    let layout : Layout Float32 := ⟨∅, ⟨160, 69⟩⟩
    palette.colors ≠ [] ∧
      (FlowColors.colorsOf Color.black palette ∅ ["x", "y", "x", "z"]).1.map some =
        [some (.named "red"), some (.named "blue"), some (.named "red"), some (.named "red")] ∧
      (FlowColors.colorsOf Color.black palette ∅ ["x", "y", "x"]).2.size = 2 ∧
      (Diagram.ofLayout Color.black g layout palette).value.turns.map (fun t => some t.color) =
        [some (.named "red"), some (.named "blue"), some (.named "red"), some (.named "red")] := by
  intro palette g layout
  have hcolors : palette.colors ≠ [] := List.cons_ne_nil _ _
  obtain ⟨hcalls, hdiagram⟩ := flows_take_colors_in_turn Color.black palette
  obtain ⟨hgiven, -, hsize⟩ := (hcalls ["x", "y", "x", "z"]).1 hcolors
  obtain ⟨-, -, hturns, -⟩ := hdiagram g layout
  have hranks : ["x", "y", "x", "z"].map (FlowColors.rank ["x", "y", "x", "z"]) = [0, 1, 0, 2] := by
    decide
  have hshades : ["x", "y", "x", "z"].map (fun flow =>
      palette.colors[FlowColors.rank ["x", "y", "x", "z"] flow % palette.size]?) =
      [some (.named "red"), some (.named "blue"), some (.named "red"), some (.named "red")] := by
    have hmap := congrArg (List.map fun r => palette.colors[r % palette.size]?) hranks
    simpa [palette, Palette.size] using hmap
  exact ⟨hcolors, hgiven.trans hshades, hsize ["x", "y", "x"] ⟨["z"], rfl⟩,
    (hturns hcolors).trans hshades⟩

end DialogChart
