import DialogChart.Layout.Basic
import DialogChart.Proofs.Layout.Reachability
import DialogChart.Proofs.Table

/-!
# From slots to positions

The layout of a graph is read off the slots in which its turns were placed.  For a graph with
distinct ids the positions are listed in the order of the turns, one for every turn that was
placed, and a turn is found under its id at the corner of its slot.
-/

namespace DialogChart

/-- The corner of a turn that was placed. -/
def Packing.Slot.corner? {α : Type} : Packing.Slot α → Option (Point α)
  | .placed _ corner => some corner
  | _ => none

/-- A slot has a corner exactly if a turn was placed in it. -/
lemma Packing.Slot.corner?_eq_some_iff {α : Type} {slot : Packing.Slot α} {corner : Point α} :
    slot.corner? = some corner ↔ ∃ column, slot = .placed column corner := by
  cases slot <;> simp [corner?]

namespace Layout

variable {α : Type}

/-- Layouts that list the same positions, for turns of the same size, are the same. -/
lemma eq_of_entries {layout other : Layout α}
    (hentries : layout.positions.entries = other.positions.entries)
    (hsize : layout.nodeSize = other.nodeSize) : layout = other := by
  obtain ⟨positions, nodeSize⟩ := layout
  obtain ⟨otherPositions, otherSize⟩ := other
  obtain rfl : positions = otherPositions := Table.ext hentries
  obtain rfl : nodeSize = otherSize := hsize
  rfl

/-! ### The slots of an engine -/

section Engines

variable [Coordinate α]

/-- The ranks by which an engine sorts siblings. -/
def ranks (engine : Engine) (settings : LayoutSettings α) (g : Graph) :
    Option (Vector (Option α) g.size) :=
  match engine with
  | .basic => none
  | .relaxed =>
    some (Relaxation.run settings.tension g g.adjacency (g.roots g.adjacency)).ranks

/-- The slots that an engine leaves. -/
def slots (engine : Engine) (settings : LayoutSettings α) (g : Graph) :
    Vector (Packing.Slot α) g.size :=
  Packing.run g.adjacency (g.roots g.adjacency) (ranks engine settings g) settings.spacing

/-- The layout of an engine is read off its slots. -/
lemma ofGraph_eq (engine : Engine) (settings : LayoutSettings α) (g : Graph) :
    ofGraph engine settings g =
      ofSlots g (slots engine settings g) settings.spacing.nodeSize := by
  cases engine <;> rfl

/-- The size of a turn is the one that was asked for. -/
lemma nodeSize_ofGraph (engine : Engine) (settings : LayoutSettings α) (g : Graph) :
    (ofGraph engine settings g).nodeSize = settings.spacing.nodeSize := by
  rw [ofGraph_eq]
  rfl

end Engines

/-! ### The positions of the slots -/

variable {g : Graph} {slots : Vector (Packing.Slot α) g.size} {nodeSize : Size α}

/-- The turns that were placed, in the order of the graph. -/
def placed (slots : Vector (Packing.Slot α) g.size) : List (Fin g.size) :=
  (List.finRange g.size).filter fun i => (slots.get i).corner?.isSome

/-- The ids of all turns, by index. -/
lemma map_id_finRange (g : Graph) :
    (List.finRange g.size).map (fun i => (g.turns.get i).id) = g.turns.map (·.id) := by
  conv_rhs => rw [← List.map_get_finRange g.turns, List.map_map]
  rfl

/-- The ids of the turns that were placed are those of some turns of the graph, in order. -/
lemma sublist_ids (slots : Vector (Packing.Slot α) g.size) :
    ((placed slots).map fun i => (g.turns.get i).id).Sublist (g.turns.map (·.id)) := by
  rw [← map_id_finRange]
  exact List.filter_sublist.map _

/-- The entries from which the positions are written. -/
lemma positions_eq (g : Graph) (slots : Vector (Packing.Slot α) g.size) (nodeSize : Size α) :
    (ofSlots g slots nodeSize).positions =
      .ofList ((List.finRange g.size).filterMap fun i =>
        (slots.get i).corner?.map fun corner => ((g.turns.get i).id, corner)) := by
  refine congrArg (fun f => Table.ofList ((List.finRange g.size).filterMap f)) ?_
  funext i
  cases slots.get i <;> rfl

/-- The corners may be changed before or after they are read off the slots. -/
lemma map_positions_ofSlots {β : Type} (f : Point α → β) (g : Graph)
    (slots : Vector (Packing.Slot α) g.size) (nodeSize : Size α) :
    (ofSlots g slots nodeSize).positions.map f =
      .ofList ((List.finRange g.size).filterMap fun i =>
        ((slots.get i).corner?.map f).map fun corner => ((g.turns.get i).id, corner)) := by
  rw [positions_eq, Table.map_ofList, List.map_filterMap]
  simp only [Option.map_map]
  rfl

/-- The names of the entries are the ids of the turns that were placed. -/
lemma names_of_slots (slots : Vector (Packing.Slot α) g.size) :
    ((List.finRange g.size).filterMap fun i =>
        (slots.get i).corner?.map fun corner => ((g.turns.get i).id, corner)).map Prod.fst =
      (placed slots).map fun i => (g.turns.get i).id := by
  unfold placed
  induction List.finRange g.size with
  | nil => rfl
  | cons i rest ih =>
    cases hi : (slots.get i).corner? with
    | none =>
      rw [List.filterMap_cons_none (by rw [hi]; rfl), List.filter_cons_of_neg (by rw [hi]; simp),
        ih]
    | some corner =>
      rw [List.filterMap_cons_some (by rw [hi]; rfl), List.filter_cons_of_pos (by rw [hi]; rfl),
        List.map_cons, List.map_cons, ih]

/-- The entries of the layout of a graph with distinct ids. -/
lemma entries_eq (hg : g.UniqueIds) (slots : Vector (Packing.Slot α) g.size)
    (nodeSize : Size α) :
    (ofSlots g slots nodeSize).positions.entries =
      (List.finRange g.size).filterMap fun i =>
        (slots.get i).corner?.map fun corner => ((g.turns.get i).id, corner) := by
  have hnodup := (sublist_ids slots).nodup hg
  rw [positions_eq, Table.entries_ofList]
  rw [names_of_slots]
  exact hnodup

/-- The ids of the layout of a graph with distinct ids. -/
lemma names_ofSlots (hg : g.UniqueIds) (slots : Vector (Packing.Slot α) g.size)
    (nodeSize : Size α) :
    (ofSlots g slots nodeSize).positions.names =
      (placed slots).map fun i => (g.turns.get i).id := by
  rw [Table.names, entries_eq hg, names_of_slots]

/-- An id is found at a corner exactly if a turn with this id was placed there. -/
lemma position?_ofSlots (hg : g.UniqueIds) {id : String} {corner : Point α} :
    (ofSlots g slots nodeSize).position? id = some corner ↔
      ∃ i : Fin g.size, (g.turns.get i).id = id ∧ (slots.get i).corner? = some corner := by
  unfold position?
  rw [Table.get?_eq_some_iff, entries_eq hg, List.mem_filterMap]
  refine exists_congr fun i => ?_
  rw [Option.map_eq_some_iff]
  constructor
  · rintro ⟨-, p, hp, hid⟩
    obtain ⟨rfl, rfl⟩ := Prod.mk.inj hid
    exact ⟨rfl, hp⟩
  · rintro ⟨rfl, hp⟩
    exact ⟨List.mem_finRange i, corner, hp, rfl⟩

/-- The id of a turn is found at the corner of the slot of the turn. -/
lemma position?_turn (hg : g.UniqueIds) (i : Fin g.size) :
    (ofSlots g slots nodeSize).position? (g.turns.get i).id = (slots.get i).corner? := by
  ext corner
  rw [position?_ofSlots hg]
  constructor
  · rintro ⟨j, hid, hj⟩
    obtain rfl := hg.id_inj hid
    exact hj
  · intro hi
    exact ⟨i, rfl, hi⟩

/-- An id has a box exactly if a turn with this id was placed, at the corner of the box. -/
lemma bounds?_ofSlots [Coordinate α] (hg : g.UniqueIds) {id : String} {box : Box α} :
    (ofSlots g slots nodeSize).bounds? id = some box ↔
      ∃ (i : Fin g.size) (column : Nat) (corner : Point α), (g.turns.get i).id = id ∧
        slots.get i = .placed column corner ∧ Box.ofCorner corner nodeSize = box := by
  unfold bounds?
  rw [Option.map_eq_some_iff]
  constructor
  · rintro ⟨corner, hcorner, hbox⟩
    obtain ⟨i, hid, hi⟩ := (position?_ofSlots hg).mp hcorner
    obtain ⟨column, hslot⟩ := Packing.Slot.corner?_eq_some_iff.mp hi
    exact ⟨i, column, corner, hid, hslot, hbox⟩
  · rintro ⟨i, column, corner, hid, hslot, hbox⟩
    refine ⟨corner, (position?_ofSlots hg).mpr ⟨i, hid, ?_⟩, hbox⟩
    exact Packing.Slot.corner?_eq_some_iff.mpr ⟨column, hslot⟩

end Layout

end DialogChart
