import DialogChart.Chart
import DialogChart.Proofs.Json.Numeral
import DialogChart.Proofs.Json.Yield

/-!
# Plots are read back from their documents

Every record of a plot is read back from its object, field by field: what is left out is what the
template holds, and the references are their texts.  A priority has a text if it is a number, and it
is read back if the reader of literals gives it for this text.  A document can only give numbers, so
a plot that was read from some document is read back from its own one (`Plot.parse_compact_eq`).
-/

namespace DialogChart

open Json (Codec Field NumberReader Shape Value)
open Json.Field (mandatory_restores defaulted_restores sparse_restores optional_restores)
open Json.Field (mandatory_keeps defaulted_keeps optional_keeps)

variable {numbers : NumberReader}

/-! ### Records -/

/-- References are read back. -/
lemma Reference.faithful : Reference.codec.Faithful numbers 0 fun _ => True :=
  Codec.text_faithful.map fun _ => rfl

/-- Roles are read back. -/
lemma Role.faithful : Role.codec.Faithful numbers 0 fun _ => True :=
  (Codec.choice_faithful _ Role.name).mono (Nat.le_refl 0) fun role _ => by cases role <;> rfl

/-- Arguments are read back. -/
lemma Argument.faithful : Argument.codec.Faithful numbers 1 fun _ => True := by
  refine Codec.shaped_faithful (fun argument _ => ?_) (fun argument _ depth hdepth => ?_)
    fun argument _ => ?_
  · cases argument with
    | single r => exact Json.starts_text r.raw
    | group rs =>
      rw [Argument.write, Json.chars_list]
      exact Json.starts_opening .list _
  · cases argument with
    | single r => exact Codec.any_text depth r.raw
    | group rs =>
      obtain ⟨depth, rfl⟩ : ∃ d, depth = d + 1 := ⟨depth - 1, by omega⟩
      refine Codec.any_list fun v hv => ?_
      obtain ⟨r, -, rfl⟩ := List.mem_map.mp hv
      exact ⟨Json.starts_text r.raw, Codec.any_text depth r.raw⟩
  · cases argument with
    | single r => rfl
    | group rs =>
      have htexts : (rs.map fun r => Value.text r.raw).mapM Argument.text? = some rs := by
        induction rs with
        | nil => rfl
        | cons r rs ih => rw [List.map_cons, List.mapM_cons, ih]; rfl
      rw [Argument.write, Argument.ofValue?, htexts]
      rfl

/-- Nodes are read back. -/
lemma Node.faithful : Node.shape.codec.Faithful numbers 2 fun _ => True :=
  Shape.faithful (by decide) fun r _ =>
    .cons (mandatory_restores Role.faithful (by decide) trivial) <|
    .cons (optional_restores Codec.text_faithful (by decide) (fun _ _ => trivial) rfl) <|
    .cons (sparse_restores Codec.text_faithful.list_true (Nat.le_refl 1) trivial
      (fun _ => List.isEmpty_iff.mp) rfl) <|
    .cons (optional_restores Reference.faithful (by decide) (fun _ _ => trivial) rfl) <|
    .cons (optional_restores Reference.faithful (by decide) (fun _ _ => trivial) rfl) <|
    .cons (optional_restores Reference.faithful (by decide) (fun _ _ => trivial) rfl) .nil

/-- The priority of a transition is a number. -/
def Transition.FinitePriority (t : Transition) : Prop :=
  ∀ x, t.priority = some x → Number.FiniteDouble x

/-- The reader of literals gives the priority of a transition for its text. -/
def Transition.PriorityReadsBack (numbers : NumberReader) (t : Transition) : Prop :=
  ∀ x, t.priority = some x → numbers.ReadsBack x

/-- Transitions are read back if their priorities are numbers that read back. -/
lemma Transition.faithful : Transition.shape.codec.Faithful numbers 1
    fun t => t.FinitePriority ∧ t.PriorityReadsBack numbers :=
  Shape.faithful (by decide) fun r hr =>
    .cons (mandatory_restores Reference.faithful (Nat.le_refl 0) trivial) <|
    .cons (optional_restores Codec.double_faithful (Nat.le_refl 0)
      (fun x hx => ⟨hr.1 x hx, hr.2 x hx⟩) rfl) <|
    .cons (optional_restores Reference.faithful (Nat.le_refl 0) (fun _ _ => trivial) rfl) .nil

/-- Links are read back. -/
lemma Link.faithful : Link.shape.codec.Faithful numbers 3 fun _ => True :=
  Shape.faithful (by decide) fun r _ =>
    .cons (mandatory_restores Reference.faithful (by decide) trivial) <|
    .cons (optional_restores Reference.faithful (by decide) (fun _ _ => trivial) rfl) <|
    .cons (sparse_restores Argument.faithful.list_true (Nat.le_refl 2) trivial
      (fun _ => List.isEmpty_iff.mp) rfl) <|
    .cons (sparse_restores Argument.faithful.table_true (Nat.le_refl 2) trivial
      (fun _ => Table.eq_empty_of_isEmpty) rfl) .nil

/-- Definitions are read back. -/
lemma Definition.faithful : Definition.shape.codec.Faithful numbers 1 fun _ => True :=
  Shape.faithful (by decide) fun r _ =>
    .cons (mandatory_restores Codec.text_faithful (Nat.le_refl 0) trivial) <|
    .cons (optional_restores Codec.text_faithful (Nat.le_refl 0) (fun _ _ => trivial) rfl) .nil

/-- Flows are read back. -/
lemma Flow.faithful : Flow.shape.codec.Faithful numbers 2 fun _ => True :=
  Shape.faithful (by decide) fun r _ =>
    .cons (mandatory_restores Codec.text_faithful (by decide) trivial) <|
    .cons (defaulted_restores Codec.text_faithful.list_true (Nat.le_refl 1) trivial) .nil

/-- Imports are read back. -/
lemma Import.faithful : Import.shape.codec.Faithful numbers 1 fun _ => True :=
  Shape.faithful (by decide) fun r _ =>
    .cons (mandatory_restores Codec.text_faithful (Nat.le_refl 0) trivial) <|
    .cons (mandatory_restores Codec.text_faithful (Nat.le_refl 0) trivial) <|
    .cons (optional_restores Codec.text_faithful (Nat.le_refl 0) (fun _ _ => trivial) rfl) .nil

/-- Scripts are read back. -/
lemma Script.faithful : Script.shape.codec.Faithful numbers 2 fun _ => True :=
  Shape.faithful (by decide) fun r _ =>
    .cons (mandatory_restores Codec.text_faithful (by decide) trivial) <|
    .cons (defaulted_restores Codec.text_faithful.list_true (Nat.le_refl 1) trivial) .nil

/-- Responses are read back. -/
lemma Response.faithful : Response.shape.codec.Faithful numbers 1 fun _ => True :=
  Shape.faithful (by decide) fun r _ =>
    .cons (mandatory_restores Reference.faithful (Nat.le_refl 0) trivial) .nil

/-- Processings are read back. -/
lemma Processing.faithful : Processing.shape.codec.Faithful numbers 3 fun _ => True :=
  Shape.faithful (by decide) fun r _ =>
    .cons (defaulted_restores Reference.faithful.table_true.list_true (Nat.le_refl 2) trivial) .nil

/-- Other settings are read back. -/
lemma Misc.faithful : Misc.shape.codec.Faithful numbers 2 fun _ => True :=
  Shape.faithful (by decide) fun r _ =>
    .cons (defaulted_restores Reference.faithful.table_true (Nat.le_refl 1) trivial) .nil

/-! ### Plots -/

namespace Plot

/-- All priorities of the plot are numbers. -/
def FinitePriorities (plot : Plot) : Prop :=
  ∀ t ∈ plot.transitions.records, t.FinitePriority

/-- The reader of literals gives all priorities of the plot for their texts. -/
def PrioritiesReadBack (numbers : NumberReader) (plot : Plot) : Prop :=
  ∀ t ∈ plot.transitions.records, t.PriorityReadsBack numbers

/-- Plots are read back if their priorities are numbers that read back. -/
lemma faithful : Plot.shape.codec.Faithful numbers 5
    fun plot => plot.FinitePriorities ∧ plot.PrioritiesReadBack numbers :=
  Shape.faithful (by decide) fun r hr =>
    .cons (defaulted_restores Import.faithful.table_true (by decide) trivial) <|
    .cons (defaulted_restores Definition.faithful.table_true (by decide) trivial) <|
    .cons (defaulted_restores Script.faithful.table_true (by decide) trivial) <|
    .cons (defaulted_restores Flow.faithful.table_true (by decide) trivial) <|
    .cons (defaulted_restores Node.faithful.table_true (by decide) trivial) <|
    .cons (defaulted_restores Transition.faithful.table (by decide)
      fun t ht => ⟨hr.1 t ht, hr.2 t ht⟩) <|
    .cons (defaulted_restores Response.faithful.table_true (by decide) trivial) <|
    .cons (defaulted_restores Processing.faithful.table_true (by decide) trivial) <|
    .cons (defaulted_restores Misc.faithful.table_true (by decide) trivial) <|
    .cons (defaulted_restores Link.faithful.table_true (by decide) trivial) .nil

/-- The transitions of a plot that is read have numbers as their priorities. -/
lemma yields_transition : Transition.shape.codec.Yields numbers Transition.FinitePriority := by
  refine Shape.yields (fun x hx => nomatch hx) ?_
  refine List.forall_mem_cons.mpr
    ⟨?_, List.forall_mem_cons.mpr ⟨?_, List.forall_mem_singleton.mpr ?_⟩⟩
  · exact mandatory_keeps (Codec.yields_true _ _) fun a t _ ht => ht
  · refine optional_keeps Codec.double_yields (fun t _ x hx => nomatch hx) ?_
    rintro a t ha - x ⟨⟩
    exact ha
  · exact optional_keeps (Codec.yields_true _ _) (fun t ht => ht) fun a t _ ht => ht

/-- A field other than the transitions does not touch the priorities. -/
lemma keeps_finitePriorities {α : Type} (c : Codec α) {name : String} {get : Plot → α}
    {set : α → Plot → Plot} (h : ∀ a plot, (set a plot).transitions = plot.transitions) :
    (Field.defaulted name c get set).Keeps numbers FinitePriorities :=
  defaulted_keeps (Codec.yields_true _ c) fun a plot _ hplot t ht => hplot t (h a plot ▸ ht)

/-- A plot that is read has numbers as its priorities. -/
lemma yields : Plot.shape.codec.Yields numbers FinitePriorities := by
  refine Shape.yields (fun t ht => nomatch ht) ?_
  simp only [Plot.shape, List.forall_mem_cons, List.not_mem_nil, IsEmpty.forall_iff, implies_true,
    and_true]
  refine ⟨keeps_finitePriorities _ fun _ _ => rfl, keeps_finitePriorities _ fun _ _ => rfl,
    keeps_finitePriorities _ fun _ _ => rfl, keeps_finitePriorities _ fun _ _ => rfl,
    keeps_finitePriorities _ fun _ _ => rfl, ?_, keeps_finitePriorities _ fun _ _ => rfl,
    keeps_finitePriorities _ fun _ _ => rfl, keeps_finitePriorities _ fun _ _ => rfl,
    keeps_finitePriorities _ fun _ _ => rfl⟩
  exact defaulted_keeps yields_transition.table fun transitions plot h _ => h

/-- The program accepts exactly the documents of plots. -/
lemma chartParse_eq_ok {source : String} {plot : Plot} :
    (Chart.parse numbers source).value = .ok plot ↔ Plot.parse numbers source = .ok plot := by
  unfold Chart.parse
  cases hparse : Plot.parse numbers source with
  | error refusal => exact ⟨fun h => (nomatch h), fun h => (nomatch h)⟩
  | ok found =>
    constructor
    · rintro ⟨⟩
      rfl
    · rintro ⟨⟩
      rfl

/-- A plot whose priorities are numbers is read back from its document, with all tables and lists
in the same order and whatever its texts are.  A plot that the program has read from any document
is one of these, so reading, writing and reading again gives the same plot.

How literals are read is left open; of the reader it is only asked that it gives the priorities of
the plot at hand for their texts. -/
theorem parse_compact_eq (numbers : NumberReader) :
    (∀ plot : Plot, plot.FinitePriorities → plot.PrioritiesReadBack numbers →
      Plot.parse numbers plot.compact = .ok plot) ∧
    ∀ (source : String) (plot : Plot), (Chart.parse numbers source).value = .ok plot →
      plot.FinitePriorities ∧ (plot.PrioritiesReadBack numbers →
        (Chart.parse numbers plot.compact).value = .ok plot) := by
  have hread : ∀ plot : Plot, plot.FinitePriorities → plot.PrioritiesReadBack numbers →
      Plot.parse numbers plot.compact = .ok plot :=
    fun plot hplot hback => faithful.parse_compact (by decide) ⟨hplot, hback⟩
  refine ⟨hread, fun source plot hsource => ?_⟩
  have hplot : plot.FinitePriorities := yields.of_parse (chartParse_eq_ok.mp hsource)
  exact ⟨hplot, fun hback => chartParse_eq_ok.mpr (hread plot hplot hback)⟩

/-- A plot with control characters, quotes and a priority that is no binary fraction, for both
readers of literals.  The one that the program uses gives this priority; the one that rounds to the
nearest double gives every priority. -/
theorem parse_compact_eq_control :
    let plot : Plot :=
      { nodes := .ofList [("\t\"\\", { role := .global, transitions := ["\x00", "é\x1f"] })]
        transitions := .ofList [("",
          { label := ⟨"id#nd_\n"⟩, priority := some (Number.double true 1 10) })]
        links := .ofList [("id#ln", { object := ⟨"/"⟩, arguments := [.group [], .single ⟨""⟩] })] }
    plot.FinitePriorities ∧ plot.PrioritiesReadBack .scaled ∧
      Plot.parse .scaled plot.compact = .ok plot ∧
      ∀ plot : Plot, plot.FinitePriorities → Plot.parse .nearest plot.compact = .ok plot := by
  intro plot
  have hplot : plot.FinitePriorities := by
    refine List.forall_mem_singleton.mpr ?_
    rintro x ⟨⟩
    refine Number.finiteDouble_of_not_infinite fun sign => ?_
    rw [Number.ofDouble_double]
    cases sign <;> decide
  have hback : plot.PrioritiesReadBack .scaled := by
    refine List.forall_mem_singleton.mpr ?_
    rintro x ⟨⟩
    unfold NumberReader.ReadsBack
    decide +kernel
  have hnearest : ∀ plot : Plot, plot.FinitePriorities →
      Plot.parse .nearest plot.compact = .ok plot := by
    intro plot hplot
    have hback : plot.PrioritiesReadBack .nearest :=
      fun t ht x hx => NumberReader.nearest_readsBack (hplot t ht x hx)
    exact (parse_compact_eq .nearest).1 plot hplot hback
  exact ⟨hplot, hback, (parse_compact_eq .scaled).1 plot hplot hback, hnearest⟩

end Plot

end DialogChart
