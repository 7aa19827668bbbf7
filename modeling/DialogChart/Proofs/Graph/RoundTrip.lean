import DialogChart.Json.Literal
import DialogChart.Layout.Adjacency
import DialogChart.Proofs.Json.Faithful
import Mathlib.Data.List.OfFn

/-!
# Graphs are read back from their documents

The document of a graph lists its turns and its edges in order.  Ids, labels and flows may be any
texts, the same id may be used twice, and edges may lead nowhere: reading goes member by member and
looks at none of this.  A turn outside all flows may be written without its flow, and it does not
matter for which of these turns this is done (`Graph.parse_document_eq`).
-/

namespace DialogChart

open Json (Codec Field NumberReader Shape Value)
open Json.Field (mandatory_restores defaulted_restores takes_of_accepts)

/-! ### Documents -/

/-- The document of a turn.  Where `brief` is set, the flow is left out. -/
def Turn.document (t : Turn) (brief : Bool) : Value :=
  .object ([("id", .text t.id), ("label", .text t.label), ("kind", .text t.speaker.name)] ++
    if brief then [] else [("flow", .text t.flow)])

/-- The document of an edge. -/
def Edge.document (e : Edge) : Value :=
  .object [("fromId", .text e.source), ("toId", .text e.target)]

/-- The document of a graph.  The turns for which `brief` is set are written without their
flows. -/
def Graph.document (g : Graph) (brief : Fin g.size → Bool) : Value :=
  .object [("nodes", .list (List.ofFn fun i => (g.turns.get i).document (brief i))),
    ("edges", .list (g.edges.map Edge.document))]

/-! ### Turns and edges -/

variable {numbers : NumberReader}

/-- Speakers are read back. -/
lemma Speaker.faithful : Speaker.codec.Faithful numbers 0 fun _ => True :=
  (Codec.choice_faithful _ Speaker.name).mono (Nat.le_refl 0) fun speaker _ => by
    cases speaker <;> rfl

/-- Edges are read back. -/
lemma Edge.faithful : Edge.shape.codec.Faithful numbers 1 fun _ => True :=
  Shape.faithful (by decide) fun r _ =>
    .cons (mandatory_restores Codec.text_faithful (Nat.le_refl 0) trivial) <|
    .cons (mandatory_restores Codec.text_faithful (Nat.le_refl 0) trivial) .nil

/-- Turns are read back. -/
lemma Turn.faithful : Turn.shape.codec.Faithful numbers 1 fun _ => True :=
  Shape.faithful (by decide) fun r _ =>
    .cons (mandatory_restores Codec.text_faithful (Nat.le_refl 0) trivial) <|
    .cons (mandatory_restores Codec.text_faithful (Nat.le_refl 0) trivial) <|
    .cons (mandatory_restores Speaker.faithful (Nat.le_refl 0) trivial) <|
    .cons (defaulted_restores Codec.text_faithful (Nat.le_refl 0) trivial) .nil

/-- A turn is read from its document, also without its flow if it is outside all flows. -/
lemma Turn.accepts_document (t : Turn) {brief : Bool} (h : brief = true → t.flow = noFlow) :
    Turn.shape.codec.Accepts numbers 1 (t.document brief) t := by
  cases brief with
  | false => exact Turn.faithful.accepts trivial
  | true =>
    obtain ⟨id, label, speaker, flow⟩ := t
    obtain rfl : flow = noFlow := h rfl
    have hbuilds : Shape.Rebuilds numbers 0 (⟨id, label, speaker, noFlow⟩ : Turn)
        (Turn.shape.fields.take 3) Turn.shape.template ⟨id, label, speaker, noFlow⟩ :=
      .cons (mandatory_restores Codec.text_faithful (Nat.le_refl 0) trivial) <|
      .cons (mandatory_restores Codec.text_faithful (Nat.le_refl 0) trivial) <|
      .cons (mandatory_restores Speaker.faithful (Nat.le_refl 0) trivial) .nil
    refine Shape.accepts_object (by decide) ?_ ?_ hbuilds.fills
    · exact (Shape.written_sublist _ _).trans (List.take_sublist 3 _)
    · intro f hf hrequired
      rw [← List.take_append_drop 3 Turn.shape.fields, List.mem_append] at hf
      rcases hf with hf | hf
      · exact hbuilds.mem_written hf hrequired
      · obtain rfl := List.mem_singleton.mp hf
        cases hrequired

/-! ### Graphs -/

namespace Graph

/-- A graph is read from its document if only turns outside all flows are written without their
flows. -/
lemma accepts_document (g : Graph) {brief : Fin g.size → Bool}
    (h : ∀ i, brief i = true → (g.turns.get i).flow = noFlow) :
    Graph.shape.codec.Accepts numbers 3 (g.document brief) g := by
  have hturns : List.Forall₂ (Turn.shape.codec.Accepts numbers 1)
      (List.ofFn fun i => (g.turns.get i).document (brief i)) g.turns := by
    rw [List.forall₂_iff_get]
    refine ⟨List.length_ofFn, fun i h₁ h₂ => ?_⟩
    rw [List.get_eq_getElem, List.getElem_ofFn]
    exact Turn.accepts_document _ (h _)
  have hedges : List.Forall₂ (Edge.shape.codec.Accepts numbers 1) (g.edges.map Edge.document)
      g.edges := by
    rw [List.forall₂_map_left_iff, List.forall₂_same]
    exact fun e _ => Edge.faithful.accepts trivial
  have hfills : Shape.Fills numbers 2 (Graph.shape.fields.zip
      [.list (List.ofFn fun i => (g.turns.get i).document (brief i)),
        .list (g.edges.map Edge.document)]) Graph.shape.template g :=
    .cons (takes_of_accepts rfl (Codec.Accepts.list hturns) (Nat.le_refl 2)) <|
    .cons (takes_of_accepts rfl (Codec.Accepts.list hedges) (Nat.le_refl 2)) .nil
  exact Shape.accepts_object (by decide) (List.Sublist.refl _) (fun _ hf _ => hf) hfills

/-- The compact text of a graph is that of its document with all members. -/
lemma compact_eq_document (g : Graph) : g.compact = (g.document fun _ => false).compact := by
  have hturns : (List.ofFn fun i => (g.turns.get i).document false) =
      g.turns.map fun t => t.document false := by
    conv_rhs => rw [← List.ofFn_get g.turns, List.map_ofFn]
    rfl
  unfold document
  rw [hturns]
  rfl

/-- A graph is read back from its document, with turns and edges in the same order and whatever its
texts are.  The document lists turns and edges with all their members; a turn outside all flows may
also be written without its flow, and the graph that is read is the same.  It has no numbers, so it
does not matter how these are read. -/
theorem parse_document_eq (numbers : NumberReader) (g : Graph) :
    g.compact = (g.document fun _ => false).compact ∧ Graph.parse numbers g.compact = .ok g ∧
      ∀ brief : Fin g.size → Bool, (∀ i, brief i = true → (g.turns.get i).flow = noFlow) →
        Graph.parse numbers (g.document brief).compact = .ok g := by
  have hread : ∀ brief : Fin g.size → Bool,
      (∀ i, brief i = true → (g.turns.get i).flow = noFlow) →
      Graph.parse numbers (g.document brief).compact = .ok g :=
    fun brief h => (g.accepts_document h).parse_compact (by decide)
  refine ⟨compact_eq_document g, ?_, hread⟩
  rw [compact_eq_document]
  refine hread _ fun i hbrief => ?_
  cases hbrief

/-- Two turns with the same id, one of them written without its flow, control characters and quotes,
and an edge from nowhere. -/
theorem parse_document_eq_control :
    let g : Graph :=
      { turns := [⟨"\x00\"\\", "é\x1f\n", .user, noFlow⟩, ⟨"\x00\"\\", "", .bot, "noflow"⟩,
          ⟨"", "\t/", .bot, "flow\x7f"⟩]
        edges := [⟨"", "\x00\"\\"⟩, ⟨"nowhere", ""⟩, ⟨"", "\x00\"\\"⟩] }
    let brief : Fin g.size → Bool := fun i => decide (i.val = 1)
    (∀ i, brief i = true → (g.turns.get i).flow = noFlow) ∧
      (g.document brief).compact ≠ g.compact ∧
      Graph.parse .nearest (g.document brief).compact = .ok g := by
  intro g brief
  have hbrief : ∀ i, brief i = true → (g.turns.get i).flow = noFlow := by decide
  refine ⟨hbrief, ?_, (parse_document_eq .nearest g).2.2 brief hbrief⟩
  decide

end Graph

end DialogChart
