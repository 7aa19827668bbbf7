import DialogChart.Proofs.Graph.Dialog

/-!
# The outline of a plot

The derivation works through a plot with a growing graph, a list of the steps that a node has
shown, and a list of global steps that was collected beforehand.  `Plot.outline` says what it
comes to without any of these.  It reads off the tables, in the order of the document, which turns
and edges a plot mentions, with all repetitions; whether an entry of a node is left out is decided
by looking at the entries before it.

The main statement is `toGraph_first_occurrences`: the turns of the display graph are the first
ones under their ids in the outline, and its edges are the first occurrences there, in order.  Ids
may collide in any way; the outline has the same collisions.
-/

namespace DialogChart

open DialogChart.Derivation (Emission)

namespace Plot

/-! ### The outline -/

/-- The node that a transition leads to, if the transition has a record whose label refers to a
node of the plot.  Such a transition is live. -/
def target? (plot : Plot) (t : String) : Option String :=
  (plot.transitions.get? t).bind fun transition =>
    transition.label.node?.filter fun m => (plot.nodes.get? m).isSome

/-- The label of the condition of a transition. -/
def labelOf (plot : Plot) (t : String) : String :=
  plot.conditionLabel ((plot.transitions.get? t).bind (·.condition))

/-- The name of the first flow that lists a node. -/
def flowLabel (plot : Plot) (n : String) : String :=
  ((plot.flowOf? n).map (·.name)).getD noFlow

/-- The turn of a node: its name, or a word for nodes without one, in the flow of the node. -/
def botTurn (plot : Plot) (n : String) : Turn :=
  ⟨n, ((plot.nodes.get? n).bind (·.name)).getD noName, .bot, plot.flowLabel n⟩

/-- The turn of a transition, in a given flow. -/
def userTurn (plot : Plot) (t flow : String) : Turn :=
  ⟨t, plot.labelOf t, .user, flow⟩

/-- The live ones of some transitions. -/
def liveEntries (plot : Plot) (ts : List String) : List String :=
  ts.filter fun t => (plot.target? t).isSome

/-- Of the live ones of some transitions, those whose target and label no earlier live one has. -/
def ownEntries (plot : Plot) (ts : List String) : List String :=
  firstsBy (fun t => (plot.target? t, plot.labelOf t)) (plot.liveEntries ts)

/-- The live transitions of global nodes, each with the flow of its node. -/
def globalEntries (plot : Plot) : GlobalTransitions → List (String × String)
  | .omit => []
  | .fanOut => plot.nodes.entries.flatMap fun entry =>
    if entry.2.role = .global then
      (plot.liveEntries entry.2.transitions).map fun t => (t, plot.flowLabel entry.1)
    else []

/-- A transition is shown from a node, in a given flow: the turns of the transition and of its
target, and the edges that join them. -/
def showEntry (plot : Plot) (n t flow : String) : List Emission :=
  match plot.target? t with
  | none => []
  | some m =>
    [.turn (plot.userTurn t flow), .turn (plot.botTurn m), .edge ⟨n, t⟩, .edge ⟨t, m⟩]

/-- A node is shown, with its own transitions and with the global ones that do not lead back to
it. -/
def showNode (plot : Plot) (mode : GlobalTransitions) (n : String) (node : Node) :
    List Emission :=
  .turn (plot.botTurn n) ::
    ((plot.ownEntries node.transitions).flatMap (fun t => plot.showEntry n t (plot.flowLabel n)) ++
      (plot.globalEntries mode).flatMap fun g =>
        if plot.target? g.1 = some n then [] else plot.showEntry n g.1 g.2)

/-- The turns and edges that a plot mentions: the regular nodes with transitions are shown, in the
order of the document. -/
def outline (plot : Plot) (mode : GlobalTransitions) : List Emission :=
  plot.nodes.entries.flatMap fun entry =>
    if entry.2.role = .regular ∧ entry.2.transitions ≠ [] then
      plot.showNode mode entry.1 entry.2
    else []

/-! ### Live transitions -/

/-- A transition is live exactly if it leads to a node under its label. -/
lemma live_iff {plot : Plot} {t l m : String} :
    plot.Live t l m ↔ plot.target? t = some m ∧ plot.labelOf t = l := by
  unfold Live target? labelOf
  cases plot.transitions.get? t with
  | none => simp
  | some transition => simp [Option.filter_eq_some_iff, and_assoc]

end Plot

namespace Derivation

variable {plot : Plot} {mode : GlobalTransitions}

/-- What a key finds in front of other entries, where all keys carry the same name. -/
lemma lookup_map_const {key : String} (keys : List String) (name : String)
    (rest : List (String × String)) :
    (keys.map (·, name) ++ rest).lookup key =
      if key ∈ keys then some name else rest.lookup key := by
  induction keys with
  | nil => simp
  | cons first others ih =>
    rw [List.map_cons, List.cons_append, Table.lookup_entry, ih]
    by_cases hfirst : key = first
    · simp [hfirst]
    · simp [hfirst]

/-- In the index of the flows a node is found under the name of the first flow that lists it. -/
lemma lookup_flowIndex (plot : Plot) (n : String) :
    (flowIndex plot).lookup n = (plot.flowOf? n).map (·.name) := by
  unfold flowIndex Plot.flowOf?
  induction plot.flows.records with
  | nil => rfl
  | cons flow rest ih =>
    rw [List.flatMap_cons, lookup_map_const, ih, List.find?_cons]
    by_cases hlists : n ∈ flow.nodes
    · simp [hlists]
    · simp [hlists]

/-- The flow of a turn is the flow of the outline. -/
lemma flowName_eq (plot : Plot) (n : String) : flowName plot n = plot.flowLabel n := by
  unfold flowName Plot.flowLabel
  rw [lookup_flowIndex]

/-- The turn of a known node is the turn of the outline. -/
lemma nodeTurn_eq {n : String} {node : Node} (h : plot.nodes.get? n = some node) :
    nodeTurn plot n node = plot.botTurn n := by
  unfold nodeTurn Plot.botTurn
  rw [h, flowName_eq]
  rfl

/-- A step is found for a transition exactly if it is live. -/
lemma isSome_step (plot : Plot) (t : String) :
    (step plot t).1.isSome = (plot.target? t).isSome := by
  rw [Bool.eq_iff_iff, Option.isSome_iff_exists, Option.isSome_iff_exists]
  constructor
  · rintro ⟨s, hs⟩
    obtain ⟨-, hlive, -⟩ := live_of_step hs
    exact ⟨s.target, (Plot.live_iff.mp hlive).1⟩
  · rintro ⟨m, hm⟩
    have hlive : plot.Live t (plot.labelOf t) m := Plot.live_iff.mpr ⟨hm, rfl⟩
    obtain ⟨s, hs, -, -⟩ := step_of_live hlive
    exact ⟨s, hs⟩

/-- The steps of a node are those of its live entries, in order. -/
lemma map_transition_liveSteps (plot : Plot) (node : Node) :
    (liveSteps plot node).map (·.transition) = plot.liveEntries node.transitions := by
  unfold liveSteps Plot.liveEntries
  induction node.transitions with
  | nil => rfl
  | cons t rest ih =>
    have hsome := isSome_step plot t
    cases hstep : (step plot t).1 with
    | none =>
      rw [hstep] at hsome
      rw [List.filterMap_cons_none (f := fun t => (step plot t).1) hstep,
        List.filter_cons_of_neg (by simp [← hsome]), ih]
    | some s =>
      rw [hstep] at hsome
      obtain ⟨rfl, -, -⟩ := live_of_step hstep
      rw [List.filterMap_cons_some (f := fun t => (step plot t).1) hstep,
        List.filter_cons_of_pos (by exact hsome.symm), List.map_cons, ih]

/-! ### Collapsing without state -/

/-- What two steps must have in common for the later one to be left out. -/
def Step.look (s : Step) : Option String × String :=
  (some s.target, s.label)

/-- A step has a twin among others exactly if one of them has the same look. -/
lemma twin?_isSome_iff {shown : List Step} {s : Step} :
    twin? shown s ≠ none ↔ s.look ∈ shown.map Step.look := by
  rw [ne_eq, twin?_eq_none_iff, List.mem_map]
  push Not
  refine exists_congr fun other => and_congr_right fun _ => ?_
  simp [Twins, Step.look]

/-- The steps that are kept behind the first occurrences among those before them are the first
occurrences that follow. -/
lemma firstsBy_append_collapse (before steps : List Step) :
    firstsBy Step.look before ++ collapse (firstsBy Step.look before) steps =
      firstsBy Step.look (before ++ steps) := by
  induction steps generalizing before with
  | nil => simp [collapse]
  | cons s rest ih =>
    have hnext := ih (before ++ [s])
    rw [List.append_assoc, List.singleton_append] at hnext
    rw [← hnext, firstsBy_concat, collapse]
    have hseen : twin? (firstsBy Step.look before) s ≠ none ↔
        s.look ∈ before.map Step.look := by
      rw [twin?_isSome_iff, mem_keys_firstsBy]
    cases htwin : twin? (firstsBy Step.look before) s with
    | some other =>
      have hmem : s.look ∈ before.map Step.look := hseen.mp (by simp [htwin])
      rw [if_pos hmem]
    | none =>
      have hmem : s.look ∉ before.map Step.look := fun h => hseen.mpr h htwin
      rw [if_neg hmem, List.append_assoc, List.singleton_append]

/-- The steps that a node shows are those of its own entries. -/
lemma map_transition_collapse (plot : Plot) (node : Node) :
    (collapse [] (liveSteps plot node)).map (·.transition) =
      plot.ownEntries node.transitions := by
  have hcollapse : collapse [] (liveSteps plot node) =
      firstsBy Step.look (liveSteps plot node) := firstsBy_append_collapse [] _
  have hlook : ∀ s ∈ liveSteps plot node,
      (plot.target? s.transition, plot.labelOf s.transition) = s.look := by
    intro s hs
    obtain ⟨-, hlive, -⟩ := mem_liveSteps hs
    obtain ⟨htarget, hlabel⟩ := Plot.live_iff.mp hlive
    rw [htarget, hlabel]
    rfl
  unfold Plot.ownEntries
  rw [hcollapse, ← map_transition_liveSteps]
  exact map_firstsBy _ _ _ _ hlook

/-- The global steps are those of the global entries. -/
lemma map_transition_globals (plot : Plot) (mode : GlobalTransitions) :
    (globals plot mode).map (fun g => (g.1.transition, g.2)) = plot.globalEntries mode := by
  match mode with
  | .omit => rfl
  | .fanOut =>
    unfold globals Plot.globalEntries
    rw [List.map_flatMap]
    refine List.flatMap_congr fun entry _ => ?_
    by_cases hrole : entry.2.role = .global
    · simp only [hrole, if_true]
      rw [← map_transition_liveSteps, List.map_map, List.map_map, ← flowName_eq]
      rfl
    · simp only [hrole, if_false, List.map_nil]

/-! ### The outline and the emissions

The derivation emits the edge to a transition before the turn of the transition, and the outline
after it.  So the two are compared by their turns and by their edges, that is, under any view of
emissions that does not see this difference. -/

/-- A view of emissions that does not tell the order of turns and edges within one step. -/
def Blind {γ : Type} (view : Emission → Option γ) : Prop :=
  ∀ (u b : Turn) (e f : Edge), [Emission.edge e, .turn u, .turn b, .edge f].filterMap view =
    [Emission.turn u, .turn b, .edge e, .edge f].filterMap view

section Views

variable {γ : Type} {view : Emission → Option γ}

/-- A step of a node is seen as its entry. -/
lemma view_stepEmissions (hview : Blind view) {node : Node} {s : Step}
    (hs : s ∈ liveSteps plot node) (n flow : String) :
    (stepEmissions plot n flow s).filterMap view =
      (plot.showEntry n s.transition flow).filterMap view := by
  obtain ⟨-, hlive, hnode⟩ := mem_liveSteps hs
  obtain ⟨htarget, hlabel⟩ := Plot.live_iff.mp hlive
  unfold stepEmissions Plot.showEntry Plot.userTurn
  rw [htarget, hlabel, nodeTurn_eq hnode]
  exact hview _ _ _ _

/-- The own steps of a node are seen as its own entries. -/
lemma view_ownSteps (hview : Blind view) (n : String) (node : Node) :
    ((collapse [] (liveSteps plot node)).flatMap
        (stepEmissions plot n (flowName plot n))).filterMap view =
      ((plot.ownEntries node.transitions).flatMap
        fun t => plot.showEntry n t (plot.flowLabel n)).filterMap view := by
  rw [← map_transition_collapse, List.flatMap_map, List.filterMap_flatMap,
    List.filterMap_flatMap, flowName_eq]
  refine List.flatMap_congr fun s hs => ?_
  exact view_stepEmissions hview (mem_of_mem_collapse hs) n _

/-- The global steps that a node shows are seen as the global entries that do not lead back. -/
lemma view_globalSteps (hview : Blind view) (n : String) :
    ((globals plot mode).flatMap fun (s, flow) =>
        if s.target = n then [] else stepEmissions plot n flow s).filterMap view =
      ((plot.globalEntries mode).flatMap fun g =>
        if plot.target? g.1 = some n then [] else plot.showEntry n g.1 g.2).filterMap view := by
  rw [← map_transition_globals, List.flatMap_map, List.filterMap_flatMap,
    List.filterMap_flatMap]
  refine List.flatMap_congr fun g hg => ?_
  obtain ⟨-, owner, node, -, -, hs⟩ := mem_globals hg
  obtain ⟨-, hlive, -⟩ := mem_liveSteps hs
  have htarget : plot.target? g.1.transition = some g.1.target := (Plot.live_iff.mp hlive).1
  by_cases hback : g.1.target = n
  · simp only [htarget, hback, if_true]
  · have hback' : ¬ some g.1.target = some n := fun h => hback (Option.some.inj h)
    simp only [htarget, hback, hback', if_false]
    exact view_stepEmissions hview hs n g.2

/-- The emissions of a plot are seen as its outline. -/
lemma view_emissions (hview : Blind view) (plot : Plot) (mode : GlobalTransitions) :
    (emissions plot mode).filterMap view = (plot.outline mode).filterMap view := by
  unfold emissions Plot.outline
  rw [List.filterMap_flatMap, List.filterMap_flatMap]
  refine List.flatMap_congr fun entry hentry => ?_
  by_cases hpart : participates entry.2 = true
  · have hpart' := participates_iff.mp hpart
    have hnode : plot.nodes.get? entry.1 = some entry.2 := Table.get?_eq_some_iff.mpr hentry
    rw [if_pos hpart']
    simp only [hpart, if_true]
    unfold sourceEmissions Plot.showNode
    rw [nodeTurn_eq hnode, List.filterMap_cons, List.filterMap_cons, List.filterMap_append,
      List.filterMap_append, view_ownSteps hview, view_globalSteps hview]
  · have hpart' := mt participates_iff.mpr hpart
    rw [if_neg hpart']
    simp only [hpart]
    rfl

end Views

/-- The derivation of the display graph against the outline of the plot: the turns are the first
ones under their ids, and the edges the first occurrences, of what the outline mentions, in this
order.  Nothing is assumed about the ids of the plot. -/
theorem toGraph_first_occurrences (plot : Plot) (mode : GlobalTransitions) :
    (plot.toGraph mode).turns =
        firstsBy (·.id) ((plot.outline mode).filterMap Emission.turn?) ∧
      (plot.toGraph mode).edges = firstsBy id ((plot.outline mode).filterMap Emission.edge?) := by
  have hturns : Blind Emission.turn? := fun _ _ _ _ => rfl
  have hedges : Blind Emission.edge? := fun _ _ _ _ => rfl
  rw [toGraph_eq_draw, draw_eq_firsts]
  constructor
  · rw [view_emissions hturns]
  · rw [view_emissions hedges]

end Derivation

end DialogChart
